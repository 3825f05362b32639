import ObjectSystem.Sorting.LongRow
import ObjectSystem.Sorting.Partition

/-! # Sorting in chunks by a comparison

The way in which a sort engine works, for items that are compared by a step.  Items are gathered in
a `Pile`: as many as reach a threshold are sorted and put away as a chunk.  `Pile.drain` takes items
from all chunks at once, those that do not exceed the least of the last items of all chunks, and
merges them, until nothing is left or nothing can be taken.  That happens only where the comparison
is no order. -/

namespace ObjectSystem.Sorting

variable {σ α : Type}

namespace Comparison

/-- The least of an item and others, the first one of several. -/
def least (c : Comparison σ α) (x : α) : List α → Step σ α
  | [] => pure x
  | y :: ys => do if ← c.less y x then least c y ys else least c x ys

/-- Where a row divides into what does not exceed an item and what does, found by halving. -/
def place (c : Comparison σ α) (post : α) (row : List α) : Step σ Nat := do
  if h : 2 ≤ row.length then
    let half := row.length / 2
    have hh : half < row.length := half_lt h
    if ← c.fits row[half] post then return half + (← place c post (row.drop half))
    else place c post (row.take (row.length - half))
  else
    match row with
    | x :: _ => if ← c.fits x post then return 1 else return 0
    | [] => return 0
termination_by row.length
decreasing_by
  · simp only [List.length_drop]; omega
  · simp only [List.length_take]; omega

/-- Merges two slices; an item of the left one comes first if it is not greater. -/
def mergeSlices (c : Comparison σ α) : List α → List α → Step σ (List α)
  | a :: as, b :: bs => do
    if ← c.fits a b then return a :: (← mergeSlices c as (b :: bs))
    else return b :: (← mergeSlices c (a :: as) bs)
  | [], bs => pure bs
  | as, [] => pure as
termination_by left right => left.length + right.length

/-- Merges neighbouring slices. -/
def mergeNeighbours (c : Comparison σ α) : List (List α) → Step σ (List (List α))
  | a :: b :: rest => do return (← c.mergeSlices a b) :: (← mergeNeighbours c rest)
  | slices => pure slices

/-- Merges slices into one, in at most `passes` passes. -/
def mergeInPasses (c : Comparison σ α) : (passes : Nat) → List (List α) → Step σ (List α)
  | passes + 1, a :: b :: rest => do
    mergeInPasses c passes (← c.mergeNeighbours (a :: b :: rest))
  | _, slices => pure slices.flatten

end Comparison

/-- Items that are gathered, and the chunks that were put away. -/
structure Pile (α : Type) where
  gathered : List α := []
  chunks : List (List α) := []
  deriving DecidableEq, Repr

namespace Pile

/-- Puts the gathered items away as a chunk. -/
def close (c : Comparison σ α) (p : Pile α) : Step σ (Pile α) := do
  if p.gathered.isEmpty then return p
  else return { chunks := p.chunks ++ [← c.sort p.gathered] }

/-- Gathers an item; `limit` items are put away. -/
def gather (c : Comparison σ α) (limit : Nat) (x : α) (p : Pile α) : Step σ (Pile α) :=
  let p := { p with gathered := p.gathered ++ [x] }
  if limit ≤ p.gathered.length then p.close c else pure p

/-- Puts an item away as a chunk of its own. -/
def putAway (x : α) (p : Pile α) : Pile α := { p with chunks := p.chunks ++ [[x]] }

/-- Takes what comes first from some chunks; the rest of them stays. -/
def take (c : Comparison σ α) (chunks : List (List α)) : Step σ (List α × List (List α)) := do
  match chunks.filterMap List.getLast? with
  | [] => return ([], chunks)
  | x :: xs =>
    let post ← c.least x xs
    let places ← chunks.mapM (c.place post)
    let slices := (places.zipWith List.take chunks).filter (!·.isEmpty)
    let taken ← c.mergeInPasses slices.length slices
    Step.emit (.bufferRefilled chunks.length slices.length taken.length)
    return (taken, places.zipWith List.drop chunks)

/-- Takes items from chunks, at most `times` times.  Answers with the items and with what stays. -/
def takeTimes (c : Comparison σ α) : (times : Nat) → List (List α) →
    Step σ (List α × List α)
  | 0, chunks => pure ([], chunks.flatten)
  | times + 1, chunks => do
    let (taken, rest) ← take c (chunks.filter (!·.isEmpty))
    if taken.isEmpty then return ([], rest.flatten)
    else
      let (more, left) ← takeTimes c times rest
      return (taken ++ more, left)

/-- Takes all items from the chunks of a pile, in order.  Answers also with what could not be
taken. -/
def drain (c : Comparison σ α) (p : Pile α) : Step σ (List α × List α) :=
  takeTimes c (p.chunks.flatten.length + 1) p.chunks

end Pile

end ObjectSystem.Sorting
