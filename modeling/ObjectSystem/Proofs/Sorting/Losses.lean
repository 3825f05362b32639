import ObjectSystem.Proofs.Sorting.Sound

/-! # Where items are lost

`Handled p e given taken lost` says how an engine came about when it was handled in any order that
was not refused: `given` went in anywhere in the tree, `taken` came out, and `lost` was moved to the
runs of an engine that has a reader, which never looks at them.

Whatever the order of calls, if such an engine is flipped, or left as it is where that is refused,
and then fetched from until it gives nothing, all that was given comes out exactly once, except what
was lost (`fetches_of_handled`).  So nothing else is lost and nothing is given twice; but an engine
that has a reader loses what it adopts, and what it has buffered when it is flushed. -/

namespace ObjectSystem.Sorting.Engine

variable {α : Type} {p : Policy α}

/-- The engines that come about by accepted calls, with the items that went in, that came out, and
that were moved to where nothing is read. -/
inductive Handled (p : Policy α) : Engine α → (given taken lost : List α) → Prop
  | new (memThresh : Nat) (itemCost : α → Nat) : Handled p (Engine.new memThresh itemCost) [] [] []
  | fromSorted {items : List α} (memThresh : Nat) (itemCost : α → Nat)
      (sorted : items.Pairwise (p.le · ·)) :
      Handled p (Engine.fromSorted memThresh itemCost items) items [] []
  | fromReader {reader : Reader α} (memThresh : Nat) (itemCost : α → Nat)
      (batches : ∀ b ∈ reader.pending, b.items.Pairwise (p.le · ·)) :
      Handled p (Engine.fromReader memThresh itemCost reader) reader.promised [] []
  | feed {e : Engine α} {given taken lost : List α} (x : α) (handled : Handled p e given taken lost)
      (accepted : (Engine.feed p x e).answer = .ok ()) :
      Handled p (Engine.feed p x e).state (given ++ [x]) taken lost
  | sortBuffer {e : Engine α} {given taken lost : List α} (handled : Handled p e given taken lost)
      (accepted : (Engine.sortBuffer p e).answer = .ok ()) :
      Handled p (Engine.sortBuffer p e).state given taken lost
  | flush {e : Engine α} {given taken lost : List α} (handled : Handled p e given taken lost)
      (accepted : (Engine.flush p e).answer = .ok ()) :
      Handled p (Engine.flush p e).state given taken (lost ++ e.aside e.live)
  | flip {e : Engine α} {given taken lost : List α} (handled : Handled p e given taken lost)
      (accepted : (Engine.flip p e).answer = .ok ()) :
      Handled p (Engine.flip p e).state given taken lost
  | addRun {e r : Engine α} {given taken lost given' taken' lost' : List α}
      (handled : Handled p e given taken lost) (run : Handled p r given' taken' lost')
      (fit : Fit p r) (accepted : (Engine.addRun p r e).answer = .ok ()) :
      Handled p (Engine.addRun p r e).state (given ++ given') (taken ++ taken')
        (lost ++ lost' ++ e.aside r.due)
  | setMemThresh {e : Engine α} {given taken lost : List α} (bytes : Nat)
      (handled : Handled p e given taken lost) :
      Handled p (Engine.setMemThresh bytes e).state given taken lost
  | setItemCost {e : Engine α} {given taken lost : List α} (cost : α → Nat)
      (handled : Handled p e given taken lost) :
      Handled p (Engine.setItemCost cost e).state given taken lost
  | growBuffer {e : Engine α} {given taken lost : List α} (n : Nat)
      (handled : Handled p e given taken lost) :
      Handled p (Engine.growBuffer n e).state given taken lost
  | shrink {e : Engine α} {given taken lost : List α} (handled : Handled p e given taken lost) :
      Handled p (Engine.shrink e).state given taken lost
  | refill {e : Engine α} {given taken lost : List α} {n : Nat}
      (handled : Handled p e given taken lost) (answered : (Engine.refill p e).answer = .ok n) :
      Handled p (Engine.refill p e).state (given ++ e.renewed) taken lost
  | peek {e : Engine α} {given taken lost : List α} {item : Option α}
      (handled : Handled p e given taken lost) (answered : (Engine.peek p e).answer = .ok item) :
      Handled p (Engine.peek p e).state (given ++ e.renewed) taken lost
  | fetch {e : Engine α} {given taken lost : List α} {item : Option α}
      (handled : Handled p e given taken lost) (answered : (Engine.fetch p e).answer = .ok item) :
      Handled p (Engine.fetch p e).state (given ++ e.renewed) (taken ++ item.toList) lost

/-- The engine is sound, and what is given was taken, is due, or is lost. -/
structure Balanced (p : Policy α) (e : Engine α) (given taken lost : List α) : Prop where
  sound : Sound p e
  balance : (taken ++ e.due ++ lost).Perm given

namespace Balanced

variable {e e' : Engine α} {given taken lost : List α}

theorem step (h : Balanced p e given taken lost) (hs : Sound p e') (more out side : List α)
    (hdue : (out ++ e'.due ++ side).Perm (e.due ++ more)) :
    Balanced p e' (given ++ more) (taken ++ out) (lost ++ side) := by
  refine ⟨hs, ?_⟩
  have hbalance := h.balance
  classical
  rw [List.perm_iff_count] at hbalance hdue ⊢
  intro x
  have := hbalance x
  have := hdue x
  simp only [List.count_append] at *
  omega

theorem still (h : Balanced p e given taken lost) (hs : Sound p e') (hdue : e'.due.Perm e.due) :
    Balanced p e' given taken lost :=
  ⟨hs, ((hdue.append_left taken).append_right lost).trans h.balance⟩

theorem add {r : Engine α} {given' taken' lost' side : List α}
    (h : Balanced p e given taken lost) (hr : Balanced p r given' taken' lost') (hs : Sound p e')
    (hdue : (e'.due ++ side).Perm (e.due ++ r.due)) :
    Balanced p e' (given ++ given') (taken ++ taken') (lost ++ lost' ++ side) := by
  refine ⟨hs, ?_⟩
  have hbalance := h.balance
  have hbalance' := hr.balance
  classical
  rw [List.perm_iff_count] at hbalance hbalance' hdue ⊢
  intro x
  have := hbalance x
  have := hbalance' x
  have := hdue x
  simp only [List.count_append] at *
  omega

end Balanced

section

variable [Std.TransCmp p.compare] {e : Engine α} {given taken lost : List α}

/-- However an engine was handled, it is sound, and its items are accounted for. -/
theorem Handled.balanced (h : Handled p e given taken lost) : Balanced p e given taken lost := by
  induction h with
  | new memThresh itemCost =>
    exact ⟨⟨rfl, .leaf ⟨rfl, .nil⟩ rfl, fun _ => .nil, fun _ => ⟨rfl, fun _ => rfl⟩, fun _ => rfl,
      fun _ => rfl⟩, .refl _⟩
  | fromSorted memThresh itemCost sorted =>
    refine ⟨.of_tame (.leaf (.of_window rfl sorted) rfl) rfl (fun _ => rfl) fun _ => rfl, ?_⟩
    rw [due_fromSorted, List.append_nil]
    exact .refl _
  | fromReader memThresh itemCost batches =>
    refine ⟨.of_tame (.serving ⟨rfl, .nil⟩ rfl batches) rfl (fun _ => rfl) fun _ => rfl, ?_⟩
    rw [due_fromReader, List.append_nil]
    exact .refl _
  | feed x _ accepted ih =>
    obtain ⟨hs, hdue⟩ := ih.sound.feed accepted
    simpa using ih.step hs [x] [] [] (by simpa using hdue)
  | sortBuffer _ accepted ih =>
    obtain ⟨hs, hdue⟩ := ih.sound.sortBuffer accepted
    exact ih.still hs hdue
  | @flush e _ _ _ _ accepted ih =>
    have hspilled := ih.sound.flush accepted
    simpa using ih.step hspilled.sound [] [] (e.aside e.live) (by simpa using hspilled.due)
  | flip _ _ ih =>
    obtain ⟨hs, hdue⟩ := ih.sound.flip
    exact ih.still hs hdue
  | addRun _ _ fit accepted ih ih' =>
    obtain ⟨hs, hdue⟩ := ih.sound.addRun ih'.sound fit accepted
    exact ih.add ih' hs hdue
  | @setMemThresh e _ _ _ bytes _ ih =>
    obtain ⟨hs, hdue, -⟩ :=
      @Sound.congr _ p e ih.sound { e.toCore with memThresh := bytes } rfl rfl rfl rfl rfl id
    exact ih.still hs (hdue ▸ .refl _)
  | @setItemCost e _ _ _ cost _ ih =>
    obtain ⟨hs, hdue, -⟩ :=
      @Sound.congr _ p e ih.sound { e.toCore with itemCost := cost } rfl rfl rfl rfl rfl id
    exact ih.still hs (hdue ▸ .refl _)
  | @growBuffer e _ _ _ n _ ih =>
    obtain ⟨hs, hdue, -⟩ :=
      @Sound.congr _ p e ih.sound { e.toCore with buffer := e.buffer.grow n } rfl rfl rfl rfl rfl id
    exact ih.still hs (hdue ▸ .refl _)
  | shrink _ ih =>
    obtain ⟨hs, hdue⟩ := ih.sound.shrunk
    exact ih.still hs (hdue ▸ .refl _)
  | @refill e _ _ _ n _ answered ih =>
    have hb : e.buffered = 0 := by
      by_contra hb
      rcases e with ⟨core, runs⟩
      rw [Engine.refill, if_pos (Nat.pos_of_ne_zero hb)] at answered
      cases answered
    obtain ⟨e', m, es, heq, hs, hkept⟩ := ih.sound.refill hb
    rw [heq]
    simpa using ih.step hs e.renewed [] [] (by simpa using hkept.due)
  | @peek e _ _ _ item _ answered ih =>
    obtain ⟨e', item', es, heq, hs, hdue⟩ := ih.sound.peek
    rw [heq]
    simpa using ih.step hs e.renewed [] [] (by simpa using hdue)
  | @fetch e _ _ _ item _ answered ih =>
    obtain ⟨e', item', es, heq, hs, hdue, -, -⟩ := ih.sound.fetch
    rw [heq] at answered ⊢
    obtain rfl : item' = item := Except.ok.inj answered
    simpa using ih.step hs e.renewed item'.toList [] (by simpa using hdue)

/-- However an engine was handled: when it is flipped, unless that is refused, and then fetched from
until it gives nothing, then what comes out, what came out before and what is lost are all that was
given, each item once.  So all of it comes out if and only if nothing is lost. -/
theorem fetches_of_handled (h : Handled p e given taken lost) :
    ∃ out, (∀ k, (fetchUpTo p (out.length + 1 + k) (Engine.flip p e).state).answer = .ok out) ∧
      (taken ++ out ++ lost).Perm given ∧ ((taken ++ out).Perm given ↔ lost = []) := by
  obtain ⟨hsound, hbalance⟩ := h.balanced
  obtain ⟨hflip, hdue⟩ := hsound.flip
  obtain ⟨out, hout, hfetch⟩ := hflip.fetchUpTo_eq
  have hperm : (taken ++ out ++ lost).Perm given :=
    (((hout.trans hdue).append_left taken).append_right lost).trans hbalance
  refine ⟨out, hfetch, hperm, fun hall => ?_, fun hnone => ?_⟩
  · have hlen := (hall.trans hperm.symm).length_eq
    simp only [List.length_append] at hlen
    exact List.eq_nil_of_length_eq_zero (by omega)
  · rwa [hnone, List.append_nil] at hperm

end

/-- Numbers in their order. -/
def byValue : Policy Nat := ⟨compare, 8, []⟩

instance : Std.TransCmp byValue.compare := inferInstanceAs (Std.TransCmp (compare (α := Nat)))

/-- A leaf with one item in memory. -/
def inMemory : Engine Nat := fromSorted 100 (fun _ => 1) [2]

/-- A leaf that serves a reader with one item. -/
def onDemand : Engine Nat := fromReader 100 (fun _ => 1) ⟨[.honest [1]]⟩

theorem handled_inMemory : Handled byValue inMemory [2] [] [] := .fromSorted _ _ (by decide)

theorem handled_onDemand : Handled byValue onDemand [1] [] [] := .fromReader _ _ (by decide)

/-- The engine that serves the reader adopts the other one, but never gives its item. -/
theorem fetches_without_adopted :
    (addRun byValue inMemory onDemand).answer = .ok () ∧
      (∀ k, (fetchUpTo byValue (2 + k)
        (flip byValue (addRun byValue inMemory onDemand).state).state).answer = .ok [1]) ∧
      ¬ [1].Perm [1, 2] := by
  refine ⟨rfl, ?_, by decide⟩
  have hbalanced := (handled_onDemand.addRun handled_inMemory (.inl rfl) rfl).balanced
  obtain ⟨hflip, hdue⟩ := hbalanced.sound.flip
  obtain ⟨out, hout, hfetch⟩ := hflip.fetchUpTo_eq
  have hone : (addRun byValue inMemory onDemand).state.due = [1] := by
    rw [due_eq]
    rfl
  have hperm : out.Perm [1] := hone ▸ hout.trans hdue
  obtain rfl := List.perm_singleton.mp hperm
  exact hfetch

/-- A reader adopts a leaf from which 1 was fetched, and is adopted by an engine that is fed before
and after: the 4 that was left in the leaf is lost. -/
theorem fetches_of_handled_adopted :
    ∃ e : Engine Nat, Handled byValue e [7, 2, 3, 1, 4, 5] [1] [4] ∧
      ∃ out, (∀ k, (fetchUpTo byValue (out.length + 1 + k) (flip byValue e).state).answer =
        .ok out) ∧ ([1] ++ out ++ [4]).Perm [7, 2, 3, 1, 4, 5] := by
  let reader : Reader Nat := ⟨[.honest [2, 3], .honest [], .honest [0]]⟩
  have fed := Handled.feed (p := byValue) 7 (.new 100 fun _ => 1) rfl
  have whole : Handled byValue (fromSorted 100 (fun _ => 1) [1, 4]) [1, 4] [] [] :=
    .fromSorted _ _ (by decide)
  have served : Handled byValue (fromReader 100 (fun _ => 1) reader) [2, 3] [] [] :=
    .fromReader _ _ (by decide)
  have begun := whole.fetch rfl
  have adopted := served.addRun begun (.inl rfl) rfl
  have handled := (fed.addRun adopted (.inl rfl) rfl).feed 5 rfl
  obtain ⟨out, hfetch, hperm, -⟩ := fetches_of_handled handled
  exact ⟨_, handled, out, hfetch, hperm⟩

end ObjectSystem.Sorting.Engine
