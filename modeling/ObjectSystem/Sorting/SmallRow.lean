import ObjectSystem.Sorting.Comparison

/-! # Sorting small rows

A row of up to 32 items is sorted in halves.  The beginning of each half is put in order by a fixed
plan of comparisons for four or for eight items, the other items of the half are inserted, and the
halves are merged from both ends at once.  Merging from both ends meets in the middle if the
comparison is an order; if the two ends miss each other it is none, and sorting stops. -/

namespace ObjectSystem.Sorting.Comparison

variable {σ α : Type}

/-- Four items in order, by five comparisons. -/
def sortFour (c : Comparison σ α) (w x y z : α) : Step σ (List α) := do
  let c₁ ← c.less x w
  let c₂ ← c.less z y
  let (a, b) := if c₁ then (x, w) else (w, x)
  let (d, e) := if c₂ then (z, y) else (y, z)
  let c₃ ← c.less d a
  let c₄ ← c.less e b
  let least := if c₃ then d else a
  let greatest := if c₄ then b else e
  let left := if c₃ then a else if c₄ then d else b
  let right := if c₄ then e else if c₃ then b else d
  if ← c.less right left then return [least, right, left, greatest]
  else return [least, left, right, greatest]

/-- What is left of two halves of a row while they are merged from both ends: the left one from
`left` to before `leftEnd`, the right one from `right` to before `rightEnd`; and what was merged. -/
structure Meeting (α : Type) where
  left : Nat
  leftEnd : Nat
  right : Nat
  rightEnd : Nat
  front : List α := []
  back : List α := []

/-- The item at a place of a row; that there is none shows that the ends have missed each other. -/
def itemAt (row : Array α) (i : Nat) : Step σ α :=
  match row[i]? with
  | some x => pure x
  | none => Step.disorder

/-- Moves one item to the front and one to the back. -/
def meet (c : Comparison σ α) (row : Array α) (m : Meeting α) : Step σ (Meeting α) := do
  let a ← itemAt row m.left
  let b ← itemAt row m.right
  let m :=
    if ← c.less b a then { m with right := m.right + 1, front := b :: m.front }
    else { m with left := m.left + 1, front := a :: m.front }
  let a ← itemAt row (m.leftEnd - 1)
  let b ← itemAt row (m.rightEnd - 1)
  if ← c.less b a then return { m with leftEnd := m.leftEnd - 1, back := a :: m.back }
  else return { m with rightEnd := m.rightEnd - 1, back := b :: m.back }

/-- Moves as many items to the front and to the back. -/
def meetTimes (c : Comparison σ α) (row : Array α) : Nat → Meeting α → Step σ (Meeting α)
  | 0, m => pure m
  | n + 1, m => do meetTimes c row n (← c.meet row m)

/-- Moves the item that is left over in a row of odd length. -/
def takeMiddle (row : Array α) (m : Meeting α) : Step σ (Meeting α) := do
  if m.left < m.leftEnd then
    return { m with left := m.left + 1, front := (← itemAt row m.left) :: m.front }
  else return { m with right := m.right + 1, front := (← itemAt row m.right) :: m.front }

/-- Merges the halves of a row from both ends. -/
def mergeEnds (c : Comparison σ α) (row : List α) : Step σ (List α) := do
  let row := row.toArray
  let half := row.size / 2
  let m ← c.meetTimes row half
    { left := 0, leftEnd := half, right := half, rightEnd := row.size }
  let m ← if row.size % 2 = 1 then takeMiddle row m else pure m
  if m.left = m.leftEnd && m.right = m.rightEnd then return m.front.reverse ++ m.back
  else Step.disorder

/-- The first four or eight items of a row in order, and as many as are in order anyway if it is
neither. -/
def sortBeginning (c : Comparison σ α) : List α → Step σ (List α)
  | [p, q, r, s] => c.sortFour p q r s
  | [p, q, r, s, t, u, v, w] => do
    let first ← c.sortFour p q r s
    let second ← c.sortFour t u v w
    c.mergeEnds (first ++ second)
  | row => pure row

/-- How many items at the beginning of both halves of a row of `n` follow a plan. -/
def plannedLength (n : Nat) : Nat := if 16 ≤ n then 8 else if 8 ≤ n then 4 else 1

/-- The longest row that is sorted as a small one. -/
def smallLength : Nat := 32

/-- Sorts a small row. -/
def sortSmall (c : Comparison σ α) (row : List α) : Step σ (List α) := do
  if row.length < 2 then return row
  let planned := plannedLength row.length
  let left := row.take (row.length / 2)
  let right := row.drop (row.length / 2)
  let leftBegun ← c.sortBeginning (left.take planned)
  let rightBegun ← c.sortBeginning (right.take planned)
  let left ← c.insertAll leftBegun (left.drop planned)
  let right ← c.insertAll rightBegun (right.drop planned)
  c.mergeEnds (left ++ right)

end ObjectSystem.Sorting.Comparison
