import ObjectSystem.Proofs.Sorting.Tame

/-! # Engines with nothing out of place

`Intact e` says of all levels of a tree that the slots before `tick` are empty, that every slot from
there on holds an item, and that merging has left nothing in its working space.  It says nothing of
the order of the items: it holds whatever was fed, whatever readers hand out, and whether or not
items are compared consistently.

The operations keep an engine intact (`Intact.push`, `Intact.sorted`, `Intact.spill`,
`Intact.shrunk`, `Intact.dropHead`, `Intact.dropFront`), and in intact runs no last item is ever
missed (`endpost_intact`). -/

namespace ObjectSystem.Sorting

variable {α : Type}

/-! ### Slots -/

/-- The slots before `tick` are empty, all others hold items, and nothing is in the scratch row. -/
structure Core.Filled (c : Core α) : Prop where
  slots : c.buffer.slots = List.replicate c.tick none ++ c.live.map some
  scratch : c.scratch.slots = []

namespace Core

variable {c c' : Core α} {items : List α}

theorem window_of_slots (h : c.buffer.slots = List.replicate c.tick none ++ items.map some) :
    c.window = items.map some := by
  rw [window, h]
  exact List.drop_left' List.length_replicate

theorem Filled.of_slots (items : List α)
    (h : c.buffer.slots = List.replicate c.tick none ++ items.map some)
    (hscratch : c.scratch.slots = []) : c.Filled := by
  constructor
  · rw [live_eq (window_of_slots h)]
    exact h
  · exact hscratch

theorem Filled.of_untouched (items : List α) (ht : c.tick = 0)
    (h : c.buffer.slots = items.map some) (hscratch : c.scratch.slots = []) : c.Filled := by
  refine .of_slots items ?_ hscratch
  rw [ht]
  exact h

theorem Filled.window (h : c.Filled) : c.window = c.live.map some := window_of_slots h.slots

theorem Filled.buffered (h : c.Filled) : c.buffered = c.live.length := buffered_eq h.window

theorem Filled.slots_of_untouched (h : c.Filled) (ht : c.tick = 0) :
    c.buffer.slots = c.live.map some := by
  have hs := h.slots
  rwa [ht] at hs

theorem Filled.congr (h : c.Filled) (hs : c'.buffer.slots = c.buffer.slots)
    (ht : c'.tick = c.tick) (hscratch : c'.scratch.slots = c.scratch.slots) : c'.Filled := by
  constructor
  · rw [hs, ht, (window_congr hs ht).2]
    exact h.slots
  · rw [hscratch]
    exact h.scratch

end Core

namespace Engine

variable {p : Policy α} {e r : Engine α}

/-- At every level nothing is out of place. -/
inductive Intact : Engine α → Prop
  | mk {core : Core α} {runs : List (Engine α)} (filled : core.Filled)
      (runs_intact : ∀ r ∈ runs, Intact r) : Intact ⟨core, runs⟩

namespace Intact

theorem filled (h : Intact e) : e.toCore.Filled := by
  cases h
  assumption

theorem runs_intact (h : Intact e) : ∀ r ∈ e.runs, Intact r := by
  cases h
  assumption

theorem leaf {core : Core α} (h : core.Filled) : Intact ⟨core, []⟩ := .mk h (by simp)

theorem of_filled (h : Intact e) {core : Core α} (hcore : core.Filled) : Intact ⟨core, e.runs⟩ :=
  .mk hcore h.runs_intact

theorem append (h : Intact e) (hr : Intact r) : Intact { e with runs := e.runs ++ [r] } := by
  refine .mk h.filled fun s hs => ?_
  rcases List.mem_append.mp hs with hs | hs
  · exact h.runs_intact s hs
  · rw [List.mem_singleton.mp hs]
    exact hr

/-! ### Before reading -/

theorem push (h : Intact e) (x : α) : Intact (Engine.push p x e) := by
  refine h.of_filled (.of_slots (e.live ++ [x]) ?_ h.filled.scratch)
  show (Engine.push p x e).buffer.slots = List.replicate e.tick none ++ _
  rw [slots_push, h.filled.slots, List.map_append, List.append_assoc]
  rfl

theorem sorted (h : Intact e) (ht : e.tick = 0) : Intact (Engine.sorted p e) := by
  have hslots := slots_sorted p (h.filled.slots_of_untouched ht)
  exact h.of_filled (.of_untouched _ ht hslots h.filled.scratch)

theorem clear (h : Intact e) : Intact { e with toCore := e.toCore.clear } :=
  h.of_filled (.of_untouched [] rfl rfl h.filled.scratch)

theorem spill (h : Intact e) (ht : e.tick = 0) : Intact (Engine.spill e) := by
  have hslots := h.filled.slots_of_untouched ht
  have hfilled : (Engine.spill e).toCore.Filled := .of_untouched [] rfl rfl h.filled.scratch
  exact (h.of_filled hfilled).append (.leaf (.of_untouched _ rfl hslots rfl))

theorem shrunk (h : Intact e) : Intact (Engine.shrunk e) := by
  induction h with
  | mk filled runs_intact ih =>
    rw [Engine.shrunk, shrunkAll_eq_map]
    refine .mk (.of_untouched _ rfl filled.window rfl) ?_
    exact List.forall_mem_map.mpr ih

/-! ### Taking items -/

theorem dropHead {x : α} {items : List α} (h : Intact e) (hl : e.live = x :: items) :
    Intact (Engine.dropHead e) := by
  refine h.of_filled (.of_slots items ?_ h.filled.scratch)
  show e.buffer.slots.set e.tick none = List.replicate (e.tick + 1) none ++ items.map some
  have hslots := h.filled.slots
  rw [hl, List.map_cons] at hslots
  rw [hslots, List.set_append_right _ _ (by simp), List.replicate_succ', List.append_assoc]
  simp

theorem dropFront {n : Nat} (h : Intact e) (hn : n ≤ e.window.length) :
    Intact (Engine.dropFront n e) := by
  refine h.of_filled (.of_slots (e.live.drop n) ?_ h.filled.scratch)
  show e.buffer.slots.take e.tick ++ (e.window.take n).map (fun _ => none) ++ e.window.drop n =
    List.replicate (e.tick + n) none ++ (e.live.drop n).map some
  have htaken : e.buffer.slots.take e.tick = List.replicate e.tick none := by
    rw [h.filled.slots]
    exact List.take_left' List.length_replicate
  have hemptied : (e.window.take n).map (fun _ => (none : Option α)) = List.replicate n none := by
    rw [List.map_const', List.length_take_of_le hn]
  rw [htaken, hemptied, List.replicate_append_replicate, h.filled.window, List.map_drop]

end Intact

/-! ### Looking for the endpost -/

/-- In intact runs that all have something buffered the last buffered items are found. -/
theorem endpost_intact {runs : List (Engine α)} (h : ∀ r ∈ runs, Intact r ∧ 0 < r.buffered) :
    ∃ post, endpost p runs = .ok post := by
  induction runs using List.reverseRecOn with
  | nil => exact ⟨none, rfl⟩
  | append_singleton runs r ih =>
    obtain ⟨hr, hpos⟩ := h r (by simp)
    have hne : r.live ≠ [] := by
      rw [hr.filled.buffered] at hpos
      exact List.length_pos_iff.mp hpos
    have hlast := lastBuffered_eq hr.filled.window (List.getLast?_eq_getLast_of_ne_nil hne)
    obtain ⟨post, hpost⟩ := ih fun s hs => h s (by simp [hs])
    rw [endpost_append, hpost, hlast]
    cases post with
    | none => exact ⟨_, rfl⟩
    | some x =>
      by_cases hlt : p.compare (r.live.getLast hne) x = .lt
      · exact ⟨some (r.live.getLast hne), by simp [Except.bind, hlt, pure, Except.pure]⟩
      · exact ⟨some x, by simp [Except.bind, hlt, pure, Except.pure]⟩

end Engine

end ObjectSystem.Sorting
