import ObjectSystem.Sorting.Oversize

/-! # Readers

A `Reader` hands out a sorted run in batches.  It is given by the batches that are still to come;
once they are used up it goes on handing out empty ones.  A batch carries the number of items that
the reader claims to have added, which need not be the truth, and whoever takes a batch counts the
items for itself.

`Reader.ofItems` serves a list a bounded number of items at a time. -/

namespace ObjectSystem.Sorting

/-- What a reader adds at one request. -/
structure Batch (α : Type) where
  items : List α
  claimed : Nat
  deriving DecidableEq, Repr

/-- A batch whose claim is true. -/
def Batch.honest {α : Type} (items : List α) : Batch α := ⟨items, items.length⟩

/-- A source of items, as the batches to come. -/
structure Reader (α : Type) where
  pending : List (Batch α)
  deriving DecidableEq, Repr

namespace Reader

variable {α : Type}

/-- The next batch, and the reader after it. -/
def next (r : Reader α) : Batch α × Reader α :=
  match r.pending with
  | [] => (.honest [], r)
  | b :: rest => (b, ⟨rest⟩)

/-- Cuts a list into pieces of `size` items, the last of which may be shorter. -/
def pieces (size : Nat) (items : List α) : List (List α) :=
  if items = [] ∨ size = 0 then []
  else items.take size :: pieces size (items.drop size)
termination_by items.length
decreasing_by
  rename_i h
  have := List.length_pos_iff.mpr (fun hn => h (Or.inl hn))
  have : size ≠ 0 := fun hs => h (Or.inr hs)
  simp only [List.length_drop]
  omega

/-- A reader that serves `items`, `size` at a time and one at a time when `size` is 0. -/
def ofItems (items : List α) (size : Nat) : Reader α :=
  ⟨(pieces (max size 1) items).map .honest⟩

/-- All items still to come. -/
def items (r : Reader α) : List α := r.pending.flatMap Batch.items

/-- How many items are still to come. -/
def remaining (r : Reader α) : Nat := r.items.length

theorem next_items (r : Reader α) : r.next.1.items ++ r.next.2.items = r.items := by
  rcases r with ⟨_ | ⟨b, rest⟩⟩ <;> simp [next, items, Batch.honest]

theorem flatten_pieces {size : Nat} (h : 0 < size) (items : List α) :
    (pieces size items).flatten = items := by
  fun_induction pieces size items with
  | case1 items hi =>
    rcases hi with rfl | hi
    · rfl
    · omega
  | case2 items _ ih => rw [List.flatten_cons, ih, List.take_append_drop]

theorem items_ofItems (items : List α) (size : Nat) : (ofItems items size).items = items := by
  have : (pieces (max size 1) items).flatten = items := flatten_pieces (by omega) items
  simpa [ofItems, Reader.items, List.flatMap_def, Batch.honest, Function.comp_def] using this

end Reader

end ObjectSystem.Sorting
