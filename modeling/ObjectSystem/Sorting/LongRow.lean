import ObjectSystem.Sorting.SmallRow

/-! # Sorting rows of any length

`Comparison.sort` sorts a row, and keeps items as they were where neither is less.  Up to 20 items
are inserted one after the other.  A longer row is cut into runs: a part that is in order already,
or in reverse, if it is long enough, and otherwise a part that is still to be sorted.  Runs are
merged pairwise; which pairs come first is decided by where they meet in the row, as in a balanced
tree over it.  Parts that are still to be sorted are joined and then sorted by partition around a
pivot, and parts that cannot be partitioned well are sorted by runs again, of small rows this time. -/

namespace ObjectSystem.Sorting

/-- A part of a row, in order or not. -/
structure Run (α : Type) where
  items : List α
  sorted : Bool

namespace Comparison

variable {σ α : Type}

/-! ### Runs -/

/-- How far the order at the beginning of a row goes on: `descends` tells which order that is. -/
def ascent (c : Comparison σ α) (descends : Bool) (last : α) : List α → Step σ Nat
  | [] => pure 0
  | x :: xs => do
    if (← c.less x last) = descends then return (← ascent c descends x xs) + 1 else return 0

/-- How many items at the beginning of a row are in order, or in strictly descending order. -/
def beginning (c : Comparison σ α) : List α → Step σ (Nat × Bool)
  | x :: y :: rest => do
    let descends ← c.less y x
    return ((← c.ascent descends y rest) + 2, descends)
  | row => pure (row.length, false)

/-- About the square root of a number. -/
def aboutRoot (n : Nat) : Nat :=
  let shift := (1 + Nat.log2 (max n 1)) / 2
  ((1 <<< shift) + (n >>> shift)) / 2

/-- How many items in order make a run in a row of `n`. -/
def runLength (n : Nat) : Nat := if n ≤ 4096 then min (n - n / 2) 64 else aboutRoot n

/-- The next run of a row: one that is in order and long enough, or else a small row that is sorted
if `small` is set, and a part that is not sorted if it is not. -/
def nextRun (c : Comparison σ α) (enough : Nat) (small : Bool) (row : List α) :
    Step σ (Run α) := do
  let (found, descends) ← if enough ≤ row.length then c.beginning row else pure (0, false)
  if enough ≤ found then
    let items := row.take found
    return ⟨if descends then items.reverse else items, true⟩
  else if small then return ⟨← c.sortSmall (row.take smallLength), true⟩
  else return ⟨row.take enough, false⟩

/-- How deep in a balanced tree over a row of `n` two neighbouring parts meet, from the places where
the parts begin, meet and end: the number of binary digits in which the fractions of the row up to
their middles agree. -/
def meetingDepth (n start middle stop : Nat) : Nat :=
  let scale := (4611686018427387904 + n - 1) / n
  let x := scale * (start + middle)
  let y := scale * (middle + stop)
  let differing := Nat.xor x y % UInt64.size
  if differing = 0 then 64 else 63 - Nat.log2 differing

/-- Two neighbouring runs as one, given how to sort a part that is not sorted. -/
def joinRuns (c : Comparison σ α) (sortPart : List α → Step σ (List α)) (left right : Run α) :
    Step σ (Run α) := do
  if !left.sorted && !right.sorted then return ⟨left.items ++ right.items, false⟩
  else
    let l ← if left.sorted then pure left.items else sortPart left.items
    let r ← if right.sorted then pure right.items else sortPart right.items
    return ⟨← c.merge l r, true⟩

/-- Joins a run with the ones before it that meet at least as deep as `depth`.  The runs before it
stand nearest first, each with the depth where it meets what follows. -/
def joinBack (c : Comparison σ α) (sortPart : List α → Step σ (List α)) (depth : Nat)
    (run : Run α) : List (Run α × Nat) → Step σ (Run α × List (Run α × Nat))
  | [] => pure (run, [])
  | (left, met) :: before => do
    if depth ≤ met then joinBack c sortPart depth (← c.joinRuns sortPart left run) before
    else return (run, (left, met) :: before)

/-- Cuts the rest of a row of `n` into runs and joins them, given the runs that were cut, of which
`last` ends where the rest begins. -/
def sortRuns (c : Comparison σ α) (sortPart : List α → Step σ (List α)) (n : Nat) (small : Bool)
    (before : List (Run α × Nat)) (last : Option (Run α)) (rest : List α) : Step σ (Run α) := do
  let scanned := n - rest.length
  if rest.isEmpty then
    match last with
    | none => return ⟨[], true⟩
    | some last => return (← c.joinBack sortPart 0 last before).1
  else
    let next ← c.nextRun (runLength n) small rest
    let rest' := rest.drop next.items.length
    let before ← match last with
      | none => pure before
      | some last => do
        let depth := meetingDepth n (scanned - last.items.length) scanned
          (scanned + next.items.length)
        let (joined, before) ← c.joinBack sortPart depth last before
        pure ((joined, depth) :: before)
    if rest'.length < rest.length then sortRuns c sortPart n small before (some next) rest'
    else Step.unfinished
termination_by rest.length
decreasing_by assumption

/-- Sorts a row by runs of small rows. -/
def sortBySmallRuns (c : Comparison σ α) (row : List α) : Step σ (List α) := do
  return (← c.sortRuns c.sortSmall row.length true [] none row).items

/-! ### Partition -/

/-- The place of the median of the items at three places. -/
def medianOfThree (c : Comparison σ α) (row : Array α) (i j k : Nat) : Step σ Nat := do
  let x ← c.less (← itemAt row i) (← itemAt row j)
  let y ← c.less (← itemAt row i) (← itemAt row k)
  if x = y then
    let z ← c.less (← itemAt row j) (← itemAt row k)
    return if z != x then k else j
  else return i

/-- The place of a median of medians of `n` items from each of three places on. -/
def medianOf (c : Comparison σ α) (row : Array α) (i j k n : Nat) : Step σ Nat := do
  if h : 8 ≤ n then
    let m := n / 8
    let i ← medianOf c row i (i + 4 * m) (i + 7 * m) m
    let j ← medianOf c row j (j + 4 * m) (j + 7 * m) m
    let k ← medianOf c row k (k + 4 * m) (k + 7 * m) m
    c.medianOfThree row i j k
  else c.medianOfThree row i j k
termination_by n

/-- The place of the pivot of a row. -/
def pivotPlace (c : Comparison σ α) (row : List α) : Step σ Nat :=
  let m := row.length / 8
  c.medianOf row.toArray 0 (4 * m) (7 * m) m

/-- The items that pass a test and those that do not, each as they were.  The item at the place
`pivot` is not tested, and is counted as one that passes if `passes` is set. -/
def partition (test : α → Step σ Bool) (pivot : Nat) (passes : Bool) (row : List α) :
    Step σ (List α × List α) := do
  let step (parts : List α × List α) (item : α × Nat) : Step σ (List α × List α) := do
    if ← (if item.2 = pivot then pure passes else test item.1) then
      return (item.1 :: parts.1, parts.2)
    else return (parts.1, item.1 :: parts.2)
  let (passed, failed) ← row.zipIdx.foldlM step ([], [])
  return (passed.reverse, failed.reverse)

/-- Sorts a row by partition.  At most `allowance` partitions are nested; `bound` is the pivot to
the left of the row, if there is one, and none of the items is less than it. -/
def sortByPartition (c : Comparison σ α) : (allowance : Nat) → Option α → List α →
    Step σ (List α)
  | allowance, bound, row => do
    if row.length ≤ smallLength then c.sortSmall row
    else
      match allowance with
      | 0 => c.sortBySmallRuns row
      | allowance + 1 => do
        let place ← c.pivotPlace row
        let pivot ← itemAt row.toArray place
        let repeated ← match bound with
          | some b => Bool.not <$> c.less b pivot
          | none => pure false
        let (less, others) ←
          if repeated then pure ([], row) else partition (c.less · pivot) place false row
        if less.isEmpty then
          let (equal, greater) ← partition (fun x => do return !(← c.less pivot x)) place true row
          return equal ++ (← sortByPartition c allowance none greater)
        else
          let others ← sortByPartition c allowance (some pivot) others
          return (← sortByPartition c allowance bound less) ++ others

/-- Sorts a row by partition, with an allowance that a good choice of pivots does not use up. -/
def sortPart (c : Comparison σ α) (row : List α) : Step σ (List α) :=
  c.sortByPartition (2 * Nat.log2 (max row.length 1)) none row

/-! ### Sorting -/

/-- The longest row that is sorted by insertion alone. -/
def insertedLength : Nat := 20

/-- Sorts a row. -/
def sort (c : Comparison σ α) (row : List α) : Step σ (List α) := do
  if row.length ≤ insertedLength then c.insertAll [] row
  else
    let whole ← c.sortRuns c.sortPart row.length (row.length ≤ 2 * smallLength) [] none row
    if whole.sorted then return whole.items else c.sortPart whole.items

end Comparison

end ObjectSystem.Sorting
