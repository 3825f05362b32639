import ObjectSystem.Proofs.Sorting.Reads
import ObjectSystem.Proofs.Sorting.Tame

/-! # Engines in any phase

`Sound p e` is what holds of an engine whatever was called on it, in any order, as long as the
leaves were put together from rows in order: it may be fed after a peek, flushed while it is read,
or read without being flipped.  For every operation there is a lemma that says that the engine stays
sound, and what becomes of the items that are due (`Sound.flush`, `Sound.flip`, `Sound.feed`,
`Sound.freeze`, `Sound.addRun`, `Sound.ready_eq`).

An engine that has a reader never looks at its runs.  What is moved to the runs of such an engine is
not due any more; `aside` is that part of what is moved. -/

namespace ObjectSystem.Sorting.Engine

variable {α : Type} {p : Policy α}

/-- What holds of an engine in every phase. -/
structure Sound (p : Policy α) (e : Engine α) : Prop where
  window : e.window = e.live.map some
  sources : Tame p ⟨e.toCore.clear, e.runs⟩
  sorted : e.flipped = true → e.live.Pairwise (p.le · ·)
  feeding : e.flipped = false → e.reader = none ∧ (0 < e.fetched → e.runs = [])
  untouched : e.fetched = 0 → e.tick = 0
  unread : e.draining = false → e.fetched = 0

/-- What of some items is lost when they are moved to the runs of an engine. -/
def aside (e : Engine α) (items : List α) : List α := if e.reader.isSome then items else []

theorem aside_of_no_reader {e : Engine α} (h : e.reader = none) (items : List α) :
    e.aside items = [] := by
  rw [aside, h]
  rfl

/-- An engine that is fit to be adopted gives its items in order.  One that was fetched from before
it was flipped gives them as they were fed, and is adopted as it is. -/
def Fit (p : Policy α) (e : Engine α) : Prop :=
  e.flipped = true ∨ e.fetched = 0 ∨ e.live.Pairwise (p.le · ·)

theorem Tame.cleared {e : Engine α} (h : Tame p e) : Tame p ⟨e.toCore.clear, e.runs⟩ :=
  h.of_row rfl ⟨rfl, .nil⟩

namespace Sound

variable {e : Engine α}

theorem buffered_eq (h : Sound p e) : e.buffered = e.live.length := Core.buffered_eq h.window

theorem slots_eq (h : Sound p e) (h0 : e.fetched = 0) : e.buffer.slots = e.live.map some := by
  have := h.window
  rwa [Core.window, h.untouched h0, List.drop_zero] at this

theorem tame (h : Sound p e) (hl : e.live.Pairwise (p.le · ·)) : Tame p e := by
  rcases e with ⟨core, runs⟩
  exact @Tame.of_row _ p _ h.sources core rfl ⟨h.window, hl⟩

theorem of_tame (h : Tame p e) (hf : e.flipped = true) (ht : e.fetched = 0 → e.tick = 0)
    (hd : e.draining = false → e.fetched = 0) : Sound p e := by
  refine ⟨h.row.window, h.cleared, fun _ => h.row.sorted, fun hn => ?_, ht, hd⟩
  rw [hf] at hn
  cases hn

/-- Slots, phase and sources are all that matters. -/
theorem congr (h : Sound p e) {core : Core α} (hs : core.buffer.slots = e.buffer.slots)
    (ht : core.tick = e.tick) (hr : core.reader = e.reader) (hf : core.fetched = e.fetched)
    (hflip : core.flipped = e.flipped) (hd : core.draining = false → e.draining = false) :
    Sound p ⟨core, e.runs⟩ ∧ (⟨core, e.runs⟩ : Engine α).due = e.due ∧
      (⟨core, e.runs⟩ : Engine α).renewed = e.renewed := by
  obtain ⟨hw, hl⟩ := Core.window_congr hs ht
  have hb : core.buffered = e.buffered := by rw [Core.buffered, Core.buffered, hs, ht]
  refine ⟨⟨?_, h.sources.of_row hr ⟨rfl, .nil⟩, ?_, ?_, ?_, ?_⟩, ?_, ?_⟩
  · show core.window = core.live.map some
    rw [hw, hl, h.window]
  · intro hn
    show core.live.Pairwise (p.le · ·)
    rw [hl]
    exact h.sorted (hflip ▸ hn)
  · intro hn
    obtain ⟨hreader, hruns⟩ := h.feeding (hflip ▸ hn)
    exact ⟨hr.trans hreader, fun h0 => hruns (hf ▸ h0)⟩
  · exact fun h0 => ht.trans (h.untouched (hf.symm.trans h0))
  · exact fun hn => hf.trans (h.unread (hd hn))
  · rw [due_eq, due_eq]
    simp only [hl, beyond, hr]
  · simp only [renewed, hr, hb]

theorem setDraining (h : Sound p e) : Sound p { e with draining := true } ∧
    ({ e with draining := true } : Engine α).due = e.due ∧
    ({ e with draining := true } : Engine α).renewed = e.renewed :=
  @congr _ p e h { e.toCore with draining := true } rfl rfl rfl rfl rfl (by intro hn; cases hn)

theorem shrunk (h : Sound p e) : Sound p (Engine.shrunk e) ∧ (Engine.shrunk e).due = e.due := by
  obtain ⟨htame, hdue⟩ := h.sources.shrunk
  rcases e with ⟨core, runs⟩
  rw [Engine.shrunk] at htame hdue ⊢
  refine ⟨⟨h.window, htame.of_row rfl ⟨rfl, .nil⟩, h.sorted, fun hn => ?_, fun _ => rfl, h.unread⟩,
    ?_⟩
  · obtain ⟨hreader, hruns⟩ := h.feeding hn
    refine ⟨hreader, fun h0 => ?_⟩
    have hnone : runs = [] := hruns h0
    subst hnone
    rfl
  · rw [due_eq, due_eq] at hdue ⊢
    exact congrArg (core.live ++ ·) hdue

theorem push (h : Sound p e) (hf : e.flipped = false) (h0 : e.fetched = 0) (x : α) :
    Sound p (Engine.push p x e) ∧ (Engine.push p x e).due.Perm (e.due ++ [x]) := by
  have hw : (Engine.push p x e).window = (e.live ++ [x]).map some := by
    show List.drop e.tick (Engine.push p x e).buffer.slots = _
    rw [h.untouched h0, List.drop_zero, slots_push, h.slots_eq h0, List.map_append]
    rfl
  have hl := Core.live_eq hw
  refine ⟨⟨by rw [hl, hw], h.sources.of_row rfl ⟨rfl, .nil⟩, fun hn => ?_, h.feeding, h.untouched,
    h.unread⟩, ?_⟩
  · have : e.flipped = true := hn
    rw [hf] at this
    cases this
  · rw [due_eq, due_eq, hl, List.append_assoc, List.append_assoc]
    exact List.perm_append_comm.append_left e.live

section

variable [Std.TransCmp p.compare]

/-! ### Putting the buffer in order -/

omit [Std.TransCmp p.compare] in
theorem live_sorted (h : Sound p e) (h0 : e.fetched = 0) :
    (Engine.sorted p e).window = (e.live.mergeSort p.le).map some ∧
      (Engine.sorted p e).live = e.live.mergeSort p.le := by
  have hw : (Engine.sorted p e).window = (e.live.mergeSort p.le).map some := by
    show List.drop e.tick (Engine.sorted p e).buffer.slots = _
    rw [h.untouched h0, List.drop_zero, slots_sorted p (h.slots_eq h0)]
  exact ⟨hw, Core.live_eq hw⟩

theorem inOrder (h : Sound p e) (h0 : e.fetched = 0) :
    Sound p (Engine.sorted p e) ∧ (Engine.sorted p e).due.Perm e.due := by
  obtain ⟨hw, hl⟩ := h.live_sorted h0
  refine ⟨⟨by rw [hl, hw], h.sources.of_row rfl ⟨rfl, .nil⟩, fun _ => ?_, h.feeding, h.untouched,
    h.unread⟩, ?_⟩
  · rw [hl]
    exact Policy.pairwise_mergeSort e.live
  · rw [due_eq, due_eq, hl]
    exact (List.mergeSort_perm e.live p.le).append_right _

omit [Std.TransCmp p.compare] in
theorem sortBuffer_eq (h : Sound p e) (h0 : e.fetched = 0) :
    Engine.sortBuffer p e = ⟨Engine.sorted p e, .ok (), []⟩ :=
  sortBuffer_of_untaken h0 (h.untouched h0)

theorem sortBuffer (h : Sound p e) (accepted : (Engine.sortBuffer p e).answer = .ok ()) :
    Sound p (Engine.sortBuffer p e).state ∧ (Engine.sortBuffer p e).state.due.Perm e.due := by
  by_cases h0 : e.fetched = 0
  · rw [h.sortBuffer_eq h0]
    exact h.inOrder h0
  · rw [Engine.sortBuffer, if_pos (.inl (by omega))] at accepted
    cases accepted

/-! ### Spilling -/

/-- The buffer is empty and its items are in a run, or aside if there is a reader. -/
structure Spilled (p : Policy α) (e' e : Engine α) : Prop where
  sound : Sound p e'
  due : (e'.due ++ e.aside e.live).Perm e.due
  live : e'.live = []
  flipped : e'.flipped = e.flipped
  reader : e'.reader = e.reader
  draining : e'.draining = e.draining

theorem spill (h : Sound p e) (h0 : e.fetched = 0) : Spilled p (spill (Engine.sorted p e)) e := by
  obtain ⟨hw, hl⟩ := h.live_sorted h0
  let run : Core α :=
    { memThresh := e.memThresh, itemCost := e.itemCost, buffer := (Engine.sorted p e).buffer,
      flipped := true }
  have hrun : run.window = (e.live.mergeSort p.le).map some := by
    have : run.window = (Engine.sorted p e).window := by
      show List.drop 0 _ = List.drop e.tick _
      rw [h.untouched h0]
    rw [this, hw]
  have hleaf : Tame p (⟨run, []⟩ : Engine α) :=
    .leaf (.of_window hrun (Policy.pairwise_mergeSort e.live)) rfl
  have hsources : Tame p ⟨e.toCore.clear, e.runs ++ [⟨run, []⟩]⟩ :=
    h.sources.append fun _ => hleaf
  refine ⟨⟨rfl, hsources.of_row rfl ⟨rfl, .nil⟩, fun _ => .nil, fun hn => ?_, fun _ => rfl,
    h.unread⟩, ?_, rfl, rfl, rfl, rfl⟩
  · exact ⟨(h.feeding hn).1, fun hpos => absurd h0 (Nat.ne_of_gt hpos)⟩
  · have hlive : (Engine.spill (Engine.sorted p e)).live = [] := rfl
    have hreader : (Engine.spill (Engine.sorted p e)).reader = e.reader := rfl
    have hruns : (Engine.spill (Engine.sorted p e)).runs = e.runs ++ [⟨run, []⟩] := rfl
    rw [due_eq, due_eq, hlive, List.nil_append, beyond, beyond, aside, hreader, hruns]
    cases hr : e.reader with
    | none =>
      rw [dueAll_append, dueAll, dueAll, due_leaf rfl hrun, List.append_nil]
      simp only [Option.isSome_none, Bool.false_eq_true, if_false, List.append_nil]
      exact List.perm_append_comm.trans ((List.mergeSort_perm e.live p.le).append_right _)
    | some r => exact List.perm_append_comm

theorem flush_eq (h : Sound p e) : (∃ e', Engine.flush p e = ⟨e', .ok (), []⟩ ∧ Spilled p e' e) ∨
    0 < e.fetched ∧ Engine.flush p e = Step.fault (.sortAfterFetch e.fetched) e := by
  by_cases hb : e.buffered = 0
  · have hl : e.live = [] := List.eq_nil_of_length_eq_zero (h.buffered_eq ▸ hb)
    refine .inl ⟨{ e with toCore := e.toCore.clear }, flush_of_empty hb, ?_⟩
    refine ⟨⟨rfl, h.sources, fun _ => .nil, h.feeding, fun _ => rfl, h.unread⟩, ?_, rfl, rfl, rfl,
      rfl⟩
    have hside : e.aside e.live = [] := by rw [aside, hl, ite_self]
    rw [hside, List.append_nil, due_eq, due_eq, hl]
    exact .refl _
  · by_cases h0 : e.fetched = 0
    · exact .inl ⟨_, flush_of_untaken h0 (h.untouched h0) hb, h.spill h0⟩
    · refine .inr ⟨by omega, ?_⟩
      rw [Engine.flush, if_neg hb, Engine.sortBuffer, if_pos (.inl (by omega))]
      rfl

theorem flush (h : Sound p e) (accepted : (Engine.flush p e).answer = .ok ()) :
    Spilled p (Engine.flush p e).state e := by
  rcases h.flush_eq with ⟨e', heq, hspilled⟩ | ⟨-, heq⟩
  · rw [heq]
    exact hspilled
  · rw [heq] at accepted
    cases accepted

omit [Std.TransCmp p.compare] in
theorem Spilled.flip {e' : Engine α} (h : Spilled p e' e) (hr : e.reader = none) :
    Sound p { e' with flipped := true } ∧
      ({ e' with flipped := true } : Engine α).due.Perm e.due := by
  refine ⟨of_tame ?_ rfl h.sound.untouched h.sound.unread, ?_⟩
  · exact Tame.of_row (h.sound.tame (h.live ▸ .nil)) rfl ⟨h.sound.window, h.live ▸ .nil⟩
  · have hdue := h.due
    rw [aside_of_no_reader hr, List.append_nil, due_eq] at hdue
    rw [due_eq]
    exact hdue

/-- Feeding ends, or the engine is left as it is because it was fetched from and still has something
buffered. -/
theorem flip_eq (h : Sound p e) :
    (∃ e', Engine.flip p e = ⟨e', .ok (), []⟩ ∧ Sound p e' ∧ e'.flipped = true ∧
      e'.due.Perm e.due ∧ e'.draining = e.draining ∧ e'.renewed = e.renewed) ∨
    0 < e.fetched ∧ Engine.flip p e = Step.fault (.sortAfterFetch e.fetched) e := by
  by_cases hf : e.flipped = true
  · exact .inl ⟨e, by rw [Engine.flip, if_pos hf], h, hf, .refl _, rfl, rfl⟩
  · have hr := (h.feeding (by simpa using hf)).1
    rcases h.flush_eq with ⟨e', heq, hspilled⟩ | ⟨hpos, heq⟩
    · obtain ⟨hsound, hdue⟩ := hspilled.flip hr
      refine .inl ⟨{ e' with flipped := true }, flip_of_flush hf heq, hsound, rfl, hdue,
        hspilled.draining, ?_⟩
      rw [renewed_of_no_reader hr]
      exact renewed_of_no_reader (hspilled.reader.trans hr)
    · refine .inr ⟨hpos, ?_⟩
      rw [Engine.flip, if_neg hf, heq]
      rfl

theorem flip (h : Sound p e) :
    Sound p (Engine.flip p e).state ∧ (Engine.flip p e).state.due.Perm e.due := by
  rcases h.flip_eq with ⟨e', heq, hsound, -, hdue, -, -⟩ | ⟨-, heq⟩
  · rw [heq]
    exact ⟨hsound, hdue⟩
  · rw [heq]
    exact ⟨h, .refl _⟩

/-! ### Feeding and adopting -/

theorem feed (h : Sound p e) {x : α} (accepted : (Engine.feed p x e).answer = .ok ()) :
    Sound p (Engine.feed p x e).state ∧ (Engine.feed p x e).state.due.Perm (e.due ++ [x]) := by
  have h0 : e.fetched = 0 := by
    by_contra h0
    rw [Engine.feed, if_pos (by omega)] at accepted
    cases accepted
  have hf : e.flipped = false := by
    by_contra hf
    rw [Engine.feed, if_neg (by omega), if_pos (by simpa using hf)] at accepted
    cases accepted
  obtain ⟨hpush, hdue⟩ := h.push hf h0 x
  rw [feed_of_open h0 hf] at accepted ⊢
  split at accepted
  · rename_i hfull
    rw [if_pos hfull]
    have hspilled := hpush.flush accepted
    have hr : (Engine.push p x e).reader = none := (h.feeding hf).1
    have hdue' := hspilled.due
    rw [aside_of_no_reader hr, List.append_nil] at hdue'
    exact ⟨hspilled.sound, hdue'.trans hdue⟩
  · rename_i hroom
    rw [if_neg hroom]
    exact ⟨hpush, hdue⟩

/-- What an engine is made into when another one adopts it. -/
theorem freeze (h : Sound p e) (fit : Fit p e) :
    ∃ e', Engine.freeze p e = ⟨e', .ok (), []⟩ ∧ Tame p e' ∧ e'.due.Perm e.due := by
  by_cases hf : e.flipped = true
  · exact ⟨e, by rw [Engine.freeze, if_pos (.inl hf)], h.tame (h.sorted hf), .refl _⟩
  · by_cases h0 : e.fetched = 0
    · have hopen : ¬(e.flipped = true ∨ 0 < e.fetched) := by simp [hf, h0]
      by_cases hruns : e.runs.isEmpty ∧ e.reader.isNone
      · obtain ⟨hsound, hdue⟩ := h.inOrder h0
        have hrow : (Engine.sorted p e).live.Pairwise (p.le · ·) := by
          rw [(h.live_sorted h0).2]
          exact Policy.pairwise_mergeSort e.live
        refine ⟨{ Engine.sorted p e with flipped := true }, ?_, ?_, ?_⟩
        · rw [Engine.freeze, if_neg hopen, if_pos hruns, h.sortBuffer_eq h0, Outcome.bind_ok_nil]
        · exact Tame.of_row (hsound.tame hrow) rfl ⟨hsound.window, hrow⟩
        · rw [due_eq] at hdue ⊢
          exact hdue
      · rcases h.flip_eq with ⟨e', heq, hsound, hf', hdue, -, -⟩ | ⟨hpos, -⟩
        · refine ⟨e', ?_, hsound.tame (hsound.sorted hf'), hdue⟩
          rw [Engine.freeze, if_neg hopen, if_neg hruns, heq]
        · omega
    · refine ⟨e, by rw [Engine.freeze, if_pos (.inr (by omega))], h.tame ?_, .refl _⟩
      rcases fit with fit | fit | fit
      · exact absurd fit hf
      · exact absurd fit h0
      · exact fit

/-- An adopted run is merged, or left aside if there is a reader. -/
theorem addRun (h : Sound p e) {r : Engine α} (hr : Sound p r) (fit : Fit p r)
    (accepted : (Engine.addRun p r e).answer = .ok ()) :
    Sound p (Engine.addRun p r e).state ∧
      ((Engine.addRun p r e).state.due ++ e.aside r.due).Perm (e.due ++ r.due) := by
  have hd : ¬ e.draining = true := by
    intro hd
    rw [Engine.addRun, if_pos hd] at accepted
    cases accepted
  have h0 := h.unread (by simpa using hd)
  obtain ⟨r', heq, htame, hdue⟩ := hr.freeze fit
  rw [addRun_of_unread hd heq]
  refine ⟨⟨h.window, h.sources.append fun _ => htame, h.sorted, fun hn => ?_, h.untouched,
    h.unread⟩, ?_⟩
  · exact ⟨(h.feeding hn).1, fun hpos => absurd h0 (Nat.ne_of_gt hpos)⟩
  · show (({ e with runs := e.runs ++ [r'] } : Engine α).due ++ e.aside r.due).Perm _
    rw [due_eq, due_eq e, beyond, beyond, aside]
    show (e.live ++ _ ++ _).Perm _
    cases hreader : e.reader with
    | none =>
      simp only [Option.isSome_none, Bool.false_eq_true, if_false, List.append_nil]
      rw [dueAll_append, dueAll, dueAll, List.append_nil, ← List.append_assoc]
      exact hdue.append_left _
    | some reader => exact .refl _

/-! ### Reading -/

theorem refill (h : Sound p e) (hb : e.buffered = 0) :
    ∃ e' n es, Engine.refill p e = ⟨e', .ok n, es⟩ ∧ Sound p e' ∧ Kept p e e' n := by
  have hl : e.live = [] := List.eq_nil_of_length_eq_zero (h.buffered_eq ▸ hb)
  obtain ⟨e', n, es, heq, hkept⟩ := refill_tame (h.tame (hl ▸ .nil)) hb
  have hframed := hkept.framed
  refine ⟨e', n, es, heq, ⟨hkept.tame.row.window, hkept.tame.cleared,
    fun _ => hkept.tame.row.sorted, fun hn => ?_, fun _ => hframed.tick, fun hn => ?_⟩, hkept⟩
  · obtain ⟨hreader, hruns⟩ := h.feeding (hframed.flipped ▸ hn)
    have hnone := hframed.reader
    rw [hreader] at hnone
    exact ⟨by simpa using hnone, fun hpos => hframed.runs (hruns (hframed.fetched ▸ hpos))⟩
  · rw [hframed.draining] at hn
    cases hn

/-- An engine that is about to be read, if it has anything left to give. -/
structure Poised (p : Policy α) (e' e : Engine α) : Prop where
  sound : Sound p e'
  draining : e'.draining = true
  runs : e'.flipped = false → e'.runs = []
  due : e'.due.Perm (e.due ++ e.renewed)
  more : e'.live ≠ [] → e.renewed = []
  none_left : e'.live = [] → e.due = []

/-- Reading begins: an engine with runs is flipped, which is never refused. -/
theorem prepareRead_eq (h : Sound p e) :
    ∃ e', prepareRead p e = ⟨e', .ok (), []⟩ ∧ Sound p e' ∧ e'.draining = true ∧
      (e'.flipped = false → e'.runs = []) ∧ e'.due.Perm e.due ∧ e'.renewed = e.renewed := by
  obtain ⟨hsound, hdue, hrenewed⟩ := h.setDraining
  by_cases hf : e.flipped = false ∧ e.runs ≠ []
  · -- an engine that was fetched from before it was flipped has no runs
    have hpos : ¬ 0 < e.fetched := fun hpos => hf.2 ((h.feeding hf.1).2 hpos)
    rcases hsound.flip_eq with ⟨e', heq, hsound', hf', hdue', hd', hrenewed'⟩ | ⟨hpos', -⟩
    · refine ⟨e', ?_, hsound', hd', fun hn => ?_, hdue' |>.trans (hdue ▸ .refl _),
        hrenewed'.trans hrenewed⟩
      · rw [prepareRead, ← heq]
        simp [hf.1, hf.2]
      · rw [hf'] at hn
        cases hn
    · exact absurd hpos' hpos
  · refine ⟨{ e with draining := true }, ?_, hsound, rfl, fun hn => ?_, hdue ▸ .refl _, hrenewed⟩
    · rw [prepareRead, if_neg]
      simpa using hf
    · by_contra hruns
      exact hf ⟨hn, hruns⟩

theorem ready_eq (h : Sound p e) :
    ∃ e' es, ready p e = ⟨e', .ok (!e'.live.isEmpty), es⟩ ∧ Poised p e' e := by
  obtain ⟨e₁, heq, hsound, hd, hruns, hdue, hrenewed⟩ := h.prepareRead_eq
  have hbuffered : e₁.buffer.slots.length ≤ e₁.tick ↔ e₁.buffered = 0 := by
    rw [Core.buffered]
    omega
  by_cases hb : e₁.buffered = 0
  · obtain ⟨e', n, es, heq', hsound', hkept⟩ := hsound.refill hb
    have hdue' := hkept.due
    rw [hrenewed] at hdue'
    have hanswer := hkept.refilled.answer
    refine ⟨e', es, ?_, hsound', hkept.framed.draining, fun hn => ?_,
      hdue'.trans (hdue.append_right _), fun hlive => ?_, fun hnil => ?_⟩
    · rw [ready, heq, Outcome.bind_ok_nil, if_pos (hbuffered.mpr hb), heq', Outcome.bind_ok,
        hanswer]
      cases e'.live <;> simp
    · exact hkept.framed.runs (hruns (hkept.framed.flipped ▸ hn))
    · -- what was due before is due again, so nothing can have come in addition
      have hsame := (hkept.refilled.same (.inl (hanswer ▸ List.length_pos_iff.mpr hlive))).due
      have hlen := (hdue'.symm.trans hsame).length_eq
      rw [List.length_append] at hlen
      exact List.eq_nil_of_length_eq_zero (by omega)
    · have hnone := hkept.refilled.none_due (by rw [hanswer, hnil]; rfl)
      exact (hnone ▸ hdue).nil_eq.symm
  · have hlive : e₁.live ≠ [] := fun hnil => hb (by rw [hsound.buffered_eq, hnil]; rfl)
    have hnone : e.renewed = [] := by
      rw [← hrenewed, renewed]
      cases e₁.reader with
      | none => rfl
      | some r => exact if_neg fun h0 => hb h0.1
    refine ⟨e₁, [], ?_, hsound, hd, hruns, ?_, fun _ => hnone, fun hnil => absurd hnil hlive⟩
    · rw [ready, heq, Outcome.bind_ok_nil, if_neg (mt hbuffered.mp hb)]
      simp [hlive]
    · rw [hnone, List.append_nil]
      exact hdue

omit [Std.TransCmp p.compare] in
/-- A poised engine gives the first item it has buffered. -/
theorem Poised.dropHead {e' : Engine α} {x : α} {items : List α} (h : Poised p e' e)
    (hl : e'.live = x :: items) : Sound p (dropHead e') ∧ (x :: (dropHead e').due).Perm e.due := by
  obtain ⟨hw, hlive⟩ := live_dropHead h.sound.window hl
  have hnone := h.more (by simp [hl])
  refine ⟨⟨by rw [hlive, hw], h.sound.sources.of_row rfl ⟨rfl, .nil⟩, fun hn => ?_, fun hn => ?_,
    fun h0 => ?_, fun hn => ?_⟩, ?_⟩
  · have hsorted := h.sound.sorted hn
    rw [hl] at hsorted
    rw [hlive]
    exact hsorted.of_cons
  · exact ⟨(h.sound.feeding hn).1, fun _ => h.runs hn⟩
  · -- something was fetched now
    cases h0
  · have : e'.draining = false := hn
    rw [h.draining] at this
    cases this
  · have hdue := h.due
    rw [hnone, List.append_nil] at hdue
    exact due_dropHead h.sound.window hl ▸ hdue

theorem peek (h : Sound p e) : ∃ e' item es, Engine.peek p e = ⟨e', .ok item, es⟩ ∧ Sound p e' ∧
    e'.due.Perm (e.due ++ e.renewed) := by
  obtain ⟨e', es, heq, hpoised⟩ := h.ready_eq
  exact ⟨e', _, es, (read_of_ready heq).1, hpoised.sound, hpoised.due⟩

/-- A fetch takes an item out of what is due, or finds that nothing is. -/
theorem fetch (h : Sound p e) :
    ∃ e' item es, Engine.fetch p e = ⟨e', .ok item, es⟩ ∧ Sound p e' ∧
      (item.toList ++ e'.due).Perm (e.due ++ e.renewed) ∧ (item = none → e.due = []) ∧
      (item ≠ none → e.renewed = []) := by
  obtain ⟨e', es, heq, hpoised⟩ := h.ready_eq
  have hfetch := (read_of_ready heq).2
  cases hl : e'.live with
  | nil =>
    rw [hl] at hfetch
    exact ⟨e', none, es, hfetch, hpoised.sound, hpoised.due, fun _ => hpoised.none_left hl,
      fun hn => absurd rfl hn⟩
  | cons x items =>
    obtain ⟨hsound, hdue⟩ := hpoised.dropHead hl
    have hnone := hpoised.more (by simp [hl])
    rw [hl] at hfetch
    refine ⟨Engine.dropHead e', some x, es, ?_, hsound, ?_, by simp, fun _ => hnone⟩
    · rw [hfetch, ← head?_of_live hpoised.sound.window hl]
      rfl
    · rw [hnone, List.append_nil]
      exact hdue

end

end Sound

/-! ### Fetching until nothing is left -/

theorem fetchUpTo_none {e e' : Engine α} {es : List Event}
    (h : fetch p e = ⟨e', .ok none, es⟩) (n : Nat) : (fetchUpTo p (n + 1) e).answer = .ok [] := by
  rw [fetchUpTo, Step.bind_apply, h]
  rfl

theorem fetchUpTo_some {e e' : Engine α} {x : α} {es : List Event}
    (h : fetch p e = ⟨e', .ok (some x), es⟩) (n : Nat) :
    (fetchUpTo p (n + 1) e).answer = (fetchUpTo p n e').answer.map (x :: ·) := by
  rw [fetchUpTo, Step.bind_apply, h]
  show ((fetchUpTo p n >>= fun xs => pure (x :: xs)) e').answer = _
  rw [Step.bind_apply]
  rcases fetchUpTo p n e' with ⟨s, (stop | xs), es'⟩ <;> rfl

/-- A sound engine gives all that is due, and then nothing. -/
theorem Sound.fetchUpTo_eq [Std.TransCmp p.compare] {e : Engine α} (h : Sound p e) :
    ∃ out, out.Perm e.due ∧ ∀ k, (fetchUpTo p (out.length + 1 + k) e).answer = .ok out := by
  generalize hn : e.due.length = n
  induction n generalizing e with
  | zero =>
    have hdue := List.eq_nil_of_length_eq_zero hn
    obtain ⟨e', item, es, heq, -, hperm, -, hsome⟩ := h.fetch
    cases item with
    | none =>
      refine ⟨[], hdue ▸ .refl _, fun k => ?_⟩
      rw [List.length_nil, Nat.zero_add, Nat.add_comm]
      exact fetchUpTo_none heq k
    | some x =>
      rw [hdue, hsome (by simp)] at hperm
      exact absurd hperm.eq_nil (by simp)
  | succ n ih =>
    obtain ⟨e', item, es, heq, hsound, hperm, hnone, hsome⟩ := h.fetch
    cases item with
    | none =>
      rw [hnone rfl] at hn
      cases hn
    | some x =>
      rw [hsome (by simp), List.append_nil] at hperm
      have hcons : (x :: e'.due).Perm e.due := hperm
      have hlen : e'.due.length = n := by
        have := hcons.length_eq
        rw [List.length_cons, hn] at this
        omega
      obtain ⟨out, hout, hfetch⟩ := ih hsound hlen
      refine ⟨x :: out, (hout.cons x).trans hcons, fun k => ?_⟩
      have hcount : (x :: out).length + 1 + k = out.length + 1 + k + 1 := by
        rw [List.length_cons]
        omega
      rw [hcount, fetchUpTo_some heq, hfetch k]
      rfl

end ObjectSystem.Sorting.Engine
