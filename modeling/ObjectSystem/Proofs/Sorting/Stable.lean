import ObjectSystem.Proofs.Sorting.Assembly

/-! # Stability without readers

In a tree of engines without a reader no class of tied items is ever cut between two refills, so
the order in which ties went in is the order in which they come out.  `Grown p e runs pending` says
how such an engine came about, and what it flattens to: its runs in the order in which they were
spilled or adopted, each with its items in the order in which they were fed, and then the items
left in its buffer.

Once flipped, the engine is read as the stable sort of that, and an engine that was only fed as the
stable sort of what it was fed (`drains_mergeSort`). -/

namespace ObjectSystem.Sorting.Engine

variable {α : Type} {p : Policy α}

/-- What runs and a buffer flatten to after the buffer was spilled, if it held anything. -/
def spillOnto (runs : List (List α)) (pending : List α) : List (List α) :=
  if pending.isEmpty then runs else runs ++ [pending]

/-- The engines without a reader that come about by accepted calls, with what each of their runs
and their buffer flatten to. -/
inductive Grown (p : Policy α) : Engine α → (runs : List (List α)) → (pending : List α) → Prop
  | new (memThresh : Nat) (itemCost : α → Nat) : Grown p (Engine.new memThresh itemCost) [] []
  | feed {e : Engine α} {runs : List (List α)} {pending : List α} (x : α)
      (grown : Grown p e runs pending) (accepted : (Engine.feed p x e).answer = .ok ())
      (kept : (Engine.feed p x e).state.numRuns = e.numRuns) :
      Grown p (Engine.feed p x e).state runs (pending ++ [x])
  | feedSpill {e : Engine α} {runs : List (List α)} {pending : List α} (x : α)
      (grown : Grown p e runs pending) (accepted : (Engine.feed p x e).answer = .ok ())
      (spilled : (Engine.feed p x e).state.numRuns = e.numRuns + 1) :
      Grown p (Engine.feed p x e).state (runs ++ [pending ++ [x]]) []
  | sortBuffer {e : Engine α} {runs : List (List α)} {pending : List α}
      (grown : Grown p e runs pending) (accepted : (Engine.sortBuffer p e).answer = .ok ()) :
      Grown p (Engine.sortBuffer p e).state runs pending
  | flush {e : Engine α} {runs : List (List α)} {pending : List α}
      (grown : Grown p e runs pending) (accepted : (Engine.flush p e).answer = .ok ()) :
      Grown p (Engine.flush p e).state (spillOnto runs pending) []
  | flip {e : Engine α} {runs : List (List α)} {pending : List α}
      (grown : Grown p e runs pending) (accepted : (Engine.flip p e).answer = .ok ()) :
      Grown p (Engine.flip p e).state (spillOnto runs pending) []
  | addRun {e r : Engine α} {runs runs' : List (List α)} {pending pending' : List α}
      (grown : Grown p e runs pending) (run : Grown p r runs' pending')
      (accepted : (Engine.addRun p r e).answer = .ok ()) :
      Grown p (Engine.addRun p r e).state (runs ++ [runs'.flatten ++ pending']) pending
  | addLeaf {e : Engine α} {runs : List (List α)} {pending items : List α} (memThresh : Nat)
      (itemCost : α → Nat) (grown : Grown p e runs pending) (sorted : items.Pairwise (p.le · ·))
      (accepted : (Engine.addRun p (fromSorted memThresh itemCost items) e).answer = .ok ()) :
      Grown p (Engine.addRun p (fromSorted memThresh itemCost items) e).state (runs ++ [items])
        pending
  | setMemThresh {e : Engine α} {runs : List (List α)} {pending : List α} (bytes : Nat)
      (grown : Grown p e runs pending) :
      Grown p (Engine.setMemThresh bytes e).state runs pending
  | setItemCost {e : Engine α} {runs : List (List α)} {pending : List α} (cost : α → Nat)
      (grown : Grown p e runs pending) :
      Grown p (Engine.setItemCost cost e).state runs pending
  | growBuffer {e : Engine α} {runs : List (List α)} {pending : List α} (n : Nat)
      (grown : Grown p e runs pending) :
      Grown p (Engine.growBuffer n e).state runs pending
  | shrink {e : Engine α} {runs : List (List α)} {pending : List α}
      (grown : Grown p e runs pending) :
      Grown p (Engine.shrink e).state runs pending

/-- The engines that were only fed, with what they were fed. -/
inductive Fed (p : Policy α) : Engine α → (fed : List α) → Prop
  | new (memThresh : Nat) (itemCost : α → Nat) : Fed p (Engine.new memThresh itemCost) []
  | feed {e : Engine α} {fed : List α} (x : α) (only : Fed p e fed)
      (accepted : (Engine.feed p x e).answer = .ok ()) :
      Fed p (Engine.feed p x e).state (fed ++ [x])
  | sortBuffer {e : Engine α} {fed : List α} (only : Fed p e fed)
      (accepted : (Engine.sortBuffer p e).answer = .ok ()) :
      Fed p (Engine.sortBuffer p e).state fed
  | flush {e : Engine α} {fed : List α} (only : Fed p e fed)
      (accepted : (Engine.flush p e).answer = .ok ()) : Fed p (Engine.flush p e).state fed
  | setMemThresh {e : Engine α} {fed : List α} (bytes : Nat) (only : Fed p e fed) :
      Fed p (Engine.setMemThresh bytes e).state fed
  | setItemCost {e : Engine α} {fed : List α} (cost : α → Nat) (only : Fed p e fed) :
      Fed p (Engine.setItemCost cost e).state fed
  | growBuffer {e : Engine α} {fed : List α} (n : Nat) (only : Fed p e fed) :
      Fed p (Engine.growBuffer n e).state fed
  | shrink {e : Engine α} {fed : List α} (only : Fed p e fed) :
      Fed p (Engine.shrink e).state fed

theorem flatten_spillOnto (runs : List (List α)) (pending : List α) :
    (spillOnto runs pending).flatten = runs.flatten ++ pending := by
  unfold spillOnto
  cases pending <;> simp

section

variable [Std.TransCmp p.compare] {e : Engine α} {runs : List (List α)} {pending fed : List α}

/-- The runs of a grown engine hold what they flatten to, ties in the order in which they are
due. -/
theorem Grown.assembling (h : Grown p e runs pending) :
    Assembling p True e runs.flatten pending := by
  induction h with
  | new memThresh itemCost => exact .new memThresh itemCost
  | feed x _ accepted kept ih =>
    rcases ih.feed accepted with ⟨ha, -⟩ | ⟨-, hruns⟩
    · exact ha
    · omega
  | feedSpill x _ accepted spilled ih =>
    rcases ih.feed accepted with ⟨-, hruns⟩ | ⟨ha, -⟩
    · omega
    · rwa [List.flatten_append, List.flatten_singleton]
  | sortBuffer _ _ ih => exact ih.sortBuffer
  | flush _ _ ih =>
    obtain ⟨e', heq, ha, -⟩ := ih.flush
    rwa [heq, flatten_spillOnto]
  | flip _ _ ih =>
    obtain ⟨e', heq, ha, -⟩ := ih.flip
    rwa [heq, flatten_spillOnto]
  | addRun _ _ accepted ih ih' =>
    obtain ⟨r', heq, hready, hdue⟩ := ih'.freeze
    rw [List.flatten_append, List.flatten_singleton]
    exact ih.addRun accepted heq hready hdue
  | @addLeaf e runs pending items memThresh itemCost _ sorted accepted ih =>
    have hready : Ready p True (fromSorted memThresh itemCost items) := .fromSorted _ _ sorted
    rw [List.flatten_append, List.flatten_singleton]
    refine ih.addRun accepted hready.freeze_eq hready ?_
    rw [due_fromSorted]
    exact .refl _
  | setMemThresh bytes _ ih => exact ih.congr rfl rfl rfl rfl rfl rfl
  | setItemCost cost _ ih => exact ih.congr rfl rfl rfl rfl rfl rfl
  | growBuffer n _ ih => exact ih.congr rfl rfl rfl rfl rfl rfl
  | shrink _ ih => exact ih.shrunk

/-- An engine that was only fed flattens to what it was fed. -/
theorem Fed.grown (h : Fed p e fed) :
    ∃ runs pending, Grown p e runs pending ∧ runs.flatten ++ pending = fed := by
  induction h with
  | new memThresh itemCost => exact ⟨[], [], .new memThresh itemCost, rfl⟩
  | feed x _ accepted ih =>
    obtain ⟨runs, pending, hg, rfl⟩ := ih
    rcases hg.assembling.feed accepted with ⟨-, kept⟩ | ⟨-, spilled⟩
    · exact ⟨_, _, hg.feed x accepted kept, (List.append_assoc _ _ _).symm⟩
    · exact ⟨_, _, hg.feedSpill x accepted spilled, by simp⟩
  | sortBuffer _ accepted ih =>
    obtain ⟨runs, pending, hg, rfl⟩ := ih
    exact ⟨_, _, hg.sortBuffer accepted, rfl⟩
  | flush _ accepted ih =>
    obtain ⟨runs, pending, hg, rfl⟩ := ih
    exact ⟨_, _, hg.flush accepted, by rw [flatten_spillOnto, List.append_nil]⟩
  | setMemThresh bytes _ ih =>
    obtain ⟨runs, pending, hg, rfl⟩ := ih
    exact ⟨_, _, hg.setMemThresh bytes, rfl⟩
  | setItemCost cost _ ih =>
    obtain ⟨runs, pending, hg, rfl⟩ := ih
    exact ⟨_, _, hg.setItemCost cost, rfl⟩
  | growBuffer n _ ih =>
    obtain ⟨runs, pending, hg, rfl⟩ := ih
    exact ⟨_, _, hg.growBuffer n, rfl⟩
  | shrink _ ih =>
    obtain ⟨runs, pending, hg, rfl⟩ := ih
    exact ⟨_, _, hg.shrink, rfl⟩

theorem Grown.drains (h : Grown p e runs pending) :
    Drains p e ((runs.flatten ++ pending).mergeSort p.le) := by
  obtain ⟨out, hsorted, hout, hdrains⟩ := h.assembling.drains
  rwa [← hout.eq_mergeSort hsorted]

end

/-- Without readers, an engine is read as the stable sort of what it flattens to; one that was only
fed, as the stable sort of what it was fed, however it was spilled and sorted in between. -/
theorem drains_mergeSort (p : Policy α) [Std.TransCmp p.compare] :
    (∀ e runs pending, Grown p e runs pending →
      Drains p e ((runs.flatten ++ pending).mergeSort p.le)) ∧
    ∀ e fed, Fed p e fed → Drains p e (fed.mergeSort p.le) := by
  refine ⟨fun e runs pending h => h.drains, fun e fed h => ?_⟩
  obtain ⟨runs, pending, hg, rfl⟩ := h.grown
  exact hg.drains

/-- Pairs ordered by their number only: two ties are spilled, a third is adopted behind them, and
the fourth is left in the buffer. -/
theorem drains_mergeSort_pairs :
    ∃ e : Engine (Nat × Char),
      Grown ⟨compareOn Prod.fst, 8, []⟩ e [[(2, 'a'), (1, 'b')], [(1, 'c'), (3, 'd')]]
        [(1, 'e')] ∧
      Drains ⟨compareOn Prod.fst, 8, []⟩ e
        (List.mergeSort [(2, 'a'), (1, 'b'), (1, 'c'), (3, 'd'), (1, 'e')]
          (Policy.le ⟨compareOn Prod.fst, 8, []⟩)) := by
  have first := Grown.feed (p := ⟨compareOn Prod.fst, 8, []⟩) (2, 'a') (.new 2 fun _ => 1) rfl rfl
  have spilled := first.feedSpill (1, 'b') rfl rfl
  have leaf : [(1, 'c'), (3, 'd')].Pairwise (Policy.le ⟨compareOn Prod.fst, 8, []⟩ · ·) := by
    decide
  have adopted := spilled.addLeaf 2 (fun _ => 1) leaf rfl
  have last := adopted.feed (1, 'e') rfl rfl
  exact ⟨_, last, (drains_mergeSort ⟨compareOn Prod.fst, 8, []⟩).1 _ _ _ last⟩

end ObjectSystem.Sorting.Engine
