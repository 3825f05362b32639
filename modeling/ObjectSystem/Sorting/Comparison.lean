import ObjectSystem.Step

/-! # Comparisons that are steps

A `Comparison` compares two items by a step, so it can stop, and then whatever it was asked for stops
with it.  It need not be an order.  What is done with it is therefore told comparison by comparison:
which two items are compared, which of them comes first, and in what order that happens.

Here are the two ways to work with rows that are in order already: `insertAll` puts further items
into such a row, starting from its end, and `merge` makes one row of two, starting from the end
where the shorter one is used up first. -/

namespace ObjectSystem.Sorting

variable {σ α : Type}

/-- How two items compare. -/
abbrev Comparison (σ α : Type) : Type := α → α → Step σ Ordering

namespace Comparison

/-- Whether one item is less than another. -/
def less (c : Comparison σ α) (a b : α) : Step σ Bool := do return (← c a b) = .lt

/-- Whether one item is not greater than another. -/
def fits (c : Comparison σ α) (a b : α) : Step σ Bool := do return (← c a b) != .gt

/-- Puts an item into a row that is given last item first: before those that it is less than. -/
def insertLast (c : Comparison σ α) (x : α) : List α → Step σ (List α)
  | [] => pure [x]
  | y :: ys => do
    if ← c.less x y then return y :: (← insertLast c x ys) else return x :: y :: ys

/-- Puts further items into a row, one after the other. -/
def insertAll (c : Comparison σ α) (row more : List α) : Step σ (List α) := do
  return (← more.foldlM (fun reversed x => c.insertLast x reversed) row.reverse).reverse

/-- Merges two rows from the front; an item of the right row comes first if it is less. -/
def mergeForward (c : Comparison σ α) : List α → List α → Step σ (List α)
  | a :: as, b :: bs => do
    if ← c.less b a then return b :: (← mergeForward c (a :: as) bs)
    else return a :: (← mergeForward c as (b :: bs))
  | [], bs => pure bs
  | as, [] => pure as
termination_by left right => left.length + right.length

/-- Merges two rows from the back; all rows are given last item first. -/
def mergeBackward (c : Comparison σ α) : List α → List α → Step σ (List α)
  | a :: as, b :: bs => do
    if ← c.less b a then return a :: (← mergeBackward c as (b :: bs))
    else return b :: (← mergeBackward c (a :: as) bs)
  | [], bs => pure bs
  | as, [] => pure as
termination_by left right => left.length + right.length

/-- Merges two rows, of which the items of the left one come first where neither is less. -/
def merge (c : Comparison σ α) (left right : List α) : Step σ (List α) := do
  if left.length ≤ right.length then c.mergeForward left right
  else return (← c.mergeBackward left.reverse right.reverse).reverse

end Comparison

end ObjectSystem.Sorting
