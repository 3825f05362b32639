import ObjectSystem.Proofs.Sorting.Reads

/-! # Engines that are put together

What the operations before the first read make of an engine.  `Assembling p steady e settled
pending` says of an engine that was not read yet that its runs are ready and hold `settled`, and
that its buffer holds `pending`, both up to a rearrangement.  Spilling moves `pending` behind
`settled` (`Assembling.flush`), an adopted run comes behind `settled` as well
(`Assembling.addRun`), and a fed item behind `pending` (`Assembling.feed`).  When feeding ends, all
of it is due (`Assembling.flip`). -/

namespace ObjectSystem.Sorting.Engine

variable {α : Type} {p : Policy α} {steady : Prop}

/-- An engine before the first read: what its runs hold and what its buffer holds. -/
structure Assembling (p : Policy α) (steady : Prop) (e : Engine α) (settled pending : List α) :
    Prop where
  tick : e.tick = 0
  fetched : e.fetched = 0
  reader : e.reader = none
  runs : ∀ r ∈ e.runs, Ready p steady r
  settled : p.Rearranges steady (dueAll e.runs) settled
  buffer : ∃ items, e.buffer.slots = items.map some ∧ p.Rearranges True items pending ∧
    (e.flipped = true → items = [])

namespace Assembling

variable {e : Engine α} {settled pending : List α}

theorem new (memThresh : Nat) (itemCost : α → Nat) :
    Assembling p steady (Engine.new memThresh itemCost) [] [] :=
  ⟨rfl, rfl, rfl, by simp [Engine.new], .refl _, [], rfl, .refl _, fun _ => rfl⟩

theorem congr {e' : Engine α} (h : Assembling p steady e settled pending) (ht : e'.tick = e.tick)
    (hf : e'.fetched = e.fetched) (hr : e'.reader = e.reader) (hruns : e'.runs = e.runs)
    (hs : e'.buffer.slots = e.buffer.slots) (hflip : e'.flipped = e.flipped) :
    Assembling p steady e' settled pending := by
  obtain ⟨items, hslots, hitems, hnil⟩ := h.buffer
  exact ⟨ht.trans h.tick, hf.trans h.fetched, hr.trans h.reader, hruns ▸ h.runs,
    hruns ▸ h.settled, items, hs.trans hslots, hitems, hflip ▸ hnil⟩

theorem buffered_eq (h : Assembling p steady e settled pending) :
    e.buffered = pending.length := by
  obtain ⟨items, hslots, hitems, -⟩ := h.buffer
  rw [Core.buffered, hslots, h.tick, List.length_map, hitems.perm.length_eq]
  rfl

theorem pending_eq_nil (h : Assembling p steady e settled pending) (hf : e.flipped = true) :
    pending = [] := by
  obtain ⟨items, -, hitems, hnil⟩ := h.buffer
  exact (hnil hf ▸ hitems.perm).nil_eq.symm

/-- Once flipped, the engine is ready, and what its runs hold is due. -/
theorem ready (h : Assembling p steady e settled pending) (hf : e.flipped = true) :
    Ready p steady e ∧ p.Rearranges steady e.due (settled ++ pending) := by
  have hpending := h.pending_eq_nil hf
  obtain ⟨items, hslots, hitems, hnil⟩ := h.buffer
  rcases e with ⟨core, runs⟩
  have hw : core.window = [] := by
    show List.drop core.tick core.buffer.slots = []
    rw [show core.buffer.slots = _ from hslots, hnil hf, List.map_nil, List.drop_nil]
  have hl : core.live = [] := by rw [Core.live, hw, List.filterMap_nil]
  have hr : core.reader = none := h.reader
  refine ⟨.merging hf (by rw [hl, hw]; rfl) (hl ▸ .nil) hr h.runs (by simp [hl]), ?_⟩
  rw [due, hl, hr, hpending, List.append_nil]
  exact h.settled

theorem shrunk (h : Assembling p steady e settled pending) :
    Assembling p steady (Engine.shrunk e) settled pending := by
  obtain ⟨items, hslots, hitems, hnil⟩ := h.buffer
  rcases e with ⟨core, runs⟩
  have hruns : (Engine.shrunk ⟨core, runs⟩).runs = runs.map Engine.shrunk := by
    rw [Engine.shrunk, shrunkAll_eq_map]
  have hw : core.window = items.map some := by
    show List.drop core.tick core.buffer.slots = _
    rw [show core.tick = 0 from h.tick, List.drop_zero]
    exact hslots
  refine ⟨by rw [Engine.shrunk], by rw [Engine.shrunk]; exact h.fetched,
    by rw [Engine.shrunk]; exact h.reader, ?_, ?_, items, by rw [Engine.shrunk]; exact hw, hitems,
    by rw [Engine.shrunk]; exact hnil⟩
  · rw [hruns]
    exact List.forall_mem_map.mpr fun r hr => (h.runs r hr).shrunk.1
  · rw [hruns, dueAll_map fun r hr => (h.runs r hr).shrunk.2]
    exact h.settled

theorem push (h : Assembling p steady e settled pending) (hf : e.flipped = false) (x : α) :
    Assembling p steady (Engine.push p x e) settled (pending ++ [x]) := by
  obtain ⟨items, hslots, hitems, -⟩ := h.buffer
  refine ⟨h.tick, h.fetched, h.reader, h.runs, h.settled, items ++ [x], ?_,
    hitems.append (.refl _), fun h' => ?_⟩
  · rw [slots_push, List.map_append, ← hslots]
    rfl
  · rw [show (Engine.push p x e).flipped = e.flipped from rfl, hf] at h'
    cases h'

section

variable [Std.TransCmp p.compare]

/-! ### Putting the buffer in order -/

theorem sorted (h : Assembling p steady e settled pending) :
    ∃ items, (Engine.sorted p e).buffer.slots = items.map some ∧ items.Pairwise (p.le · ·) ∧
      p.Rearranges True items pending ∧ (e.flipped = true → items = []) := by
  obtain ⟨items, hslots, hitems, hnil⟩ := h.buffer
  exact ⟨items.mergeSort p.le, slots_sorted p hslots, Policy.pairwise_mergeSort items,
    (Policy.rearranges_mergeSort items).trans hitems, fun hf => by rw [hnil hf]; simp⟩

omit [Std.TransCmp p.compare] in
theorem sortBuffer_eq (h : Assembling p steady e settled pending) :
    Engine.sortBuffer p e = ⟨Engine.sorted p e, .ok (), []⟩ :=
  sortBuffer_of_untaken h.fetched h.tick

theorem sortBuffer (h : Assembling p steady e settled pending) :
    Assembling p steady (Engine.sortBuffer p e).state settled pending := by
  obtain ⟨items, hslots, -, hitems, hnil⟩ := h.sorted
  rw [h.sortBuffer_eq]
  exact ⟨h.tick, h.fetched, h.reader, h.runs, h.settled, items, hslots, hitems, hnil⟩

/-! ### Spilling -/

/-- Spilling moves what the buffer holds behind what the runs hold. -/
theorem flush (h : Assembling p steady e settled pending) :
    ∃ e', Engine.flush p e = ⟨e', .ok (), []⟩ ∧
      Assembling p steady e' (settled ++ pending) [] ∧ e'.flipped = e.flipped ∧
      e'.numRuns = e.numRuns + if pending = [] then 0 else 1 := by
  by_cases hb : e.buffered = 0
  · have hpending := List.eq_nil_of_length_eq_zero (h.buffered_eq ▸ hb)
    refine ⟨{ e with toCore := e.toCore.clear }, flush_of_empty hb, ?_, rfl,
      by rw [if_pos hpending]; rfl⟩
    rw [hpending, List.append_nil]
    exact ⟨rfl, h.fetched, h.reader, h.runs, h.settled, [], rfl, .refl _, fun _ => rfl⟩
  · have hpending : pending ≠ [] := fun h0 => hb (by rw [h.buffered_eq, h0]; rfl)
    obtain ⟨items, hslots, hsorted, hitems, -⟩ := h.sorted
    let run : Core α :=
      { memThresh := e.memThresh, itemCost := e.itemCost, buffer := (Engine.sorted p e).buffer,
        flipped := true }
    have hw : run.window = items.map some := hslots
    refine ⟨spill (Engine.sorted p e), ?_, ?_, rfl, ?_⟩
    · exact flush_of_untaken h.fetched h.tick hb
    · refine ⟨rfl, h.fetched, h.reader, ?_, ?_, [], rfl, .refl _, fun _ => rfl⟩
      · intro r hr
        rcases List.mem_append.mp hr with hr | hr
        · exact h.runs r hr
        · rw [List.mem_singleton.mp hr]
          exact .leaf rfl rfl hw hsorted
      · show p.Rearranges steady (dueAll (e.runs ++ [⟨run, []⟩])) _
        rw [dueAll_append, dueAll, dueAll, List.append_nil, due_leaf rfl hw]
        exact h.settled.append hitems.of_steady
    · rw [if_neg hpending]
      exact List.length_append

/-- At the end of feeding all that was fed and adopted is due. -/
theorem flip (h : Assembling p steady e settled pending) :
    ∃ e', Engine.flip p e = ⟨e', .ok (), []⟩ ∧
      Assembling p steady e' (settled ++ pending) [] ∧ e'.flipped = true := by
  by_cases hf : e.flipped = true
  · refine ⟨e, by rw [Engine.flip, if_pos hf], ?_, hf⟩
    have := h.pending_eq_nil hf
    subst this
    rw [List.append_nil]
    exact h
  · obtain ⟨e', heq, h', -, -⟩ := h.flush
    refine ⟨{ e' with flipped := true }, flip_of_flush hf heq, ?_, rfl⟩
    have hslots : e'.buffer.slots = [] := by
      obtain ⟨items, hslots, hitems, -⟩ := h'.buffer
      rw [hslots, hitems.perm.eq_nil, List.map_nil]
    exact ⟨h'.tick, h'.fetched, h'.reader, h'.runs, h'.settled, [], hslots, .refl _, fun _ => rfl⟩

theorem drains (h : Assembling p steady e settled pending) :
    ∃ out, out.Pairwise (p.le · ·) ∧ p.Rearranges steady out (settled ++ pending) ∧
      Drains p e out := by
  obtain ⟨e', heq, h', hf⟩ := h.flip
  obtain ⟨hready, hdue⟩ := h'.ready hf
  obtain ⟨out, hsorted, hout, -, hy⟩ := hready.readAll_eq h'.reader
  rw [List.append_nil] at hdue
  exact ⟨out, hsorted, hout.trans hdue, by rw [heq], by rw [heq]; exact hy⟩

/-! ### Feeding -/

/-- An accepted item comes behind what the buffer holds; if it completes a spill, the buffer is
empty afterwards. -/
theorem feed (h : Assembling p steady e settled pending) {x : α}
    (ha : (Engine.feed p x e).answer = .ok ()) :
    (Assembling p steady (Engine.feed p x e).state settled (pending ++ [x]) ∧
        (Engine.feed p x e).state.numRuns = e.numRuns) ∨
      (Assembling p steady (Engine.feed p x e).state (settled ++ (pending ++ [x])) [] ∧
        (Engine.feed p x e).state.numRuns = e.numRuns + 1) := by
  have hf : e.flipped = false := by
    by_contra hf
    rw [Engine.feed, h.fetched, if_neg (by omega), if_pos (by simpa using hf)] at ha
    cases ha
  have hpush := h.push hf x
  rw [feed_of_open h.fetched hf]
  split
  · obtain ⟨e', heq, h', -, hruns⟩ := hpush.flush
    rw [heq]
    rw [if_neg (by simp)] at hruns
    exact .inr ⟨h', hruns⟩
  · exact .inl ⟨hpush, rfl⟩

/-! ### Adopting runs -/

/-- An engine that was not read yet becomes a run that holds all that was fed and adopted. -/
theorem freeze (h : Assembling p steady e settled pending) :
    ∃ e', Engine.freeze p e = ⟨e', .ok (), []⟩ ∧ Ready p steady e' ∧
      p.Rearranges steady e'.due (settled ++ pending) := by
  by_cases hf : e.flipped = true
  · exact ⟨e, by rw [Engine.freeze, if_pos (.inl hf)], h.ready hf⟩
  · rw [Engine.freeze, if_neg (by rw [h.fetched]; simp [hf])]
    by_cases hruns : e.runs.isEmpty ∧ e.reader.isNone
    · obtain ⟨items, hslots, hsorted, hitems, -⟩ := h.sorted
      have hnil : e.runs = [] := List.isEmpty_iff.mp hruns.1
      have hw : (Engine.sorted p e).window = items.map some := by
        show List.drop e.tick _ = _
        rw [h.tick, List.drop_zero, hslots]
      have hsettled : settled = [] := by
        have := h.settled.perm
        rw [hnil] at this
        exact this.nil_eq.symm
      refine ⟨{ Engine.sorted p e with flipped := true }, ?_, ?_, ?_⟩
      · rw [if_pos hruns, h.sortBuffer_eq, Outcome.bind_ok_nil]
      · rcases e with ⟨core, runs⟩
        obtain rfl : runs = [] := hnil
        exact .leaf rfl h.reader hw hsorted
      · rcases e with ⟨core, runs⟩
        obtain rfl : runs = [] := hnil
        have hdue : ({ Engine.sorted p ⟨core, []⟩ with flipped := true } : Engine α).due = items :=
          due_leaf h.reader hw
        rw [hdue, hsettled]
        exact hitems.of_steady
    · rw [if_neg hruns]
      obtain ⟨e', heq, h', hf'⟩ := h.flip
      obtain ⟨hready, hdue⟩ := h'.ready hf'
      rw [List.append_nil] at hdue
      exact ⟨e', heq, hready, hdue⟩

end

/-- An adopted run comes behind what the runs hold. -/
theorem addRun (h : Assembling p steady e settled pending) {r r' : Engine α} {left : List α}
    (ha : (Engine.addRun p r e).answer = .ok ())
    (hr : Engine.freeze p r = ⟨r', .ok (), []⟩) (hready : Ready p steady r')
    (hdue : p.Rearranges steady r'.due left) :
    Assembling p steady (Engine.addRun p r e).state (settled ++ left) pending := by
  have hd : ¬ e.draining = true := by
    intro hd
    rw [Engine.addRun, if_pos hd] at ha
    cases ha
  rw [addRun_of_unread hd hr]
  refine ⟨h.tick, h.fetched, h.reader, ?_, ?_, h.buffer⟩
  · intro s hs
    rcases List.mem_append.mp hs with hs | hs
    · exact h.runs s hs
    · exact List.mem_singleton.mp hs ▸ hready
  · show p.Rearranges steady (dueAll (e.runs ++ [r'])) _
    rw [dueAll_append, dueAll, dueAll, List.append_nil]
    exact h.settled.append hdue

end Assembling

theorem Ready.freeze_eq {e : Engine α} (h : Ready p steady e) :
    Engine.freeze p e = ⟨e, .ok (), []⟩ := by
  rw [Engine.freeze, if_pos (.inl h.flipped_eq)]

end ObjectSystem.Sorting.Engine
