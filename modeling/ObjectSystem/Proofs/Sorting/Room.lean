import ObjectSystem.Proofs.Sorting.Phases

/-! # Where items are kept

Items move about in an engine without anything being fetched: giving back spare room closes the gap
that was emptied before them, and more room is made for them in advance.  `Alike e' e` says of two
engines that they differ in nothing else, at any level of their trees.

Two engines that are alike answer every call alike and are alike afterwards (`perform_matches`), and
so are two engines that came about by the same calls when room was made and given back for one of
them in between (`Padded.alike`). -/

namespace ObjectSystem.Sorting

variable {α : Type}

/-- Both hold the same items, and nothing differs but where these are: the room for them, the slots
that were emptied before them, and the scratch row. -/
structure Core.Alike (c' c : Core α) : Prop where
  window : c'.window = c.window
  reader : c'.reader = c.reader
  memThresh : c'.memThresh = c.memThresh
  memConsumed : c'.memConsumed = c.memConsumed
  itemCost : c'.itemCost = c.itemCost
  fetched : c'.fetched = c.fetched
  flipped : c'.flipped = c.flipped
  draining : c'.draining = c.draining

namespace Core.Alike

variable {c' c : Core α}

theorem live (h : c'.Alike c) : c'.live = c.live := congrArg (List.filterMap id) h.window

theorem buffered (h : c'.Alike c) : c'.buffered = c.buffered := by
  rw [← length_window, ← length_window, h.window]

theorem restart (h : c'.Alike c) : c'.restart.Alike c.restart := by
  refine { h with window := rfl, memConsumed := rfl, draining := rfl }

end Core.Alike

namespace Engine

variable {p : Policy α} {e e' r r' : Engine α}

/-- At every level nothing differs but where the items are kept. -/
def Alike (e' e : Engine α) : Prop := shrunk e' = shrunk e

namespace Alike

theorem refl (e : Engine α) : Alike e e := rfl

theorem symm (h : Alike e' e) : Alike e e' := Eq.symm h

theorem trans {e'' : Engine α} (h : Alike e'' e') (h' : Alike e' e) : Alike e'' e := Eq.trans h h'

theorem iff_core : Alike e' e ↔
    e'.toCore.Alike e.toCore ∧ e'.runs.map shrunk = e.runs.map shrunk := by
  rcases e' with ⟨core', runs'⟩
  rcases e with ⟨core, runs⟩
  rw [Alike, shrunk, shrunk, shrunkAll_eq_map, shrunkAll_eq_map]
  constructor
  · intro h
    obtain ⟨hcore, hruns⟩ := Engine.mk.inj h
    refine ⟨⟨?_, ?_, ?_, ?_, ?_, ?_, ?_, ?_⟩, hruns⟩
    · exact congrArg (·.buffer.slots) hcore
    · exact congrArg (·.reader) hcore
    · exact congrArg (·.memThresh) hcore
    · exact congrArg (·.memConsumed) hcore
    · exact congrArg (·.itemCost) hcore
    · exact congrArg (·.fetched) hcore
    · exact congrArg (·.flipped) hcore
    · exact congrArg (·.draining) hcore
  · rintro ⟨h, hruns⟩
    have hb := h.buffered
    obtain ⟨hw, hr, ht, hm, hc, hf, hflip, hd⟩ := h
    simp only at hw hr ht hm hc hf hflip hd hb hruns
    rw [hruns, hw, hr, ht, hm, hc, hf, hflip, hd, hb]

theorem core (h : Alike e' e) : e'.toCore.Alike e.toCore := (iff_core.mp h).1

theorem runs (h : Alike e' e) : e'.runs.map shrunk = e.runs.map shrunk := (iff_core.mp h).2

theorem of_core (h : Alike e' e) {core' core : Core α} (hcore : core'.Alike core) :
    Alike ⟨core', e'.runs⟩ ⟨core, e.runs⟩ := iff_core.mpr ⟨hcore, h.runs⟩

theorem append (h : Alike e' e) (hr : Alike r' r) :
    Alike { e' with runs := e'.runs ++ [r'] } { e with runs := e.runs ++ [r] } := by
  refine iff_core.mpr ⟨h.core, ?_⟩
  show (e'.runs ++ [r']).map shrunk = (e.runs ++ [r]).map shrunk
  rw [List.map_append, List.map_append, h.runs, List.map_singleton, List.map_singleton,
    show shrunk r' = shrunk r from hr]

end Alike

mutual

theorem alike_shrunk : (e : Engine α) → Alike (shrunk e) e
  | ⟨core, runs⟩ => by
    rw [shrunk]
    exact Alike.iff_core.mpr ⟨⟨rfl, rfl, rfl, rfl, rfl, rfl, rfl, rfl⟩, map_shrunk_shrunkAll runs⟩

theorem map_shrunk_shrunkAll : (runs : List (Engine α)) →
    (shrunkAll runs).map shrunk = runs.map shrunk
  | [] => rfl
  | r :: rs => by
    rw [shrunkAll, List.map_cons, List.map_cons, map_shrunk_shrunkAll rs]
    exact congrArg (· :: _) (alike_shrunk r)

end

theorem map_shrunk_map_shrunk (runs : List (Engine α)) :
    (runs.map shrunk).map shrunk = runs.map shrunk :=
  (congrArg (List.map shrunk) (shrunkAll_eq_map runs)).symm.trans (map_shrunk_shrunkAll runs)

theorem alike_growBuffer (n : Nat) (e : Engine α) :
    Alike { e with buffer := e.buffer.grow n } e :=
  Alike.iff_core.mpr ⟨⟨rfl, rfl, rfl, rfl, rfl, rfl, rfl, rfl⟩, rfl⟩

/-! ### What is asked of engines that are alike -/

namespace Alike

theorem numRuns (h : Alike e' e) : e'.numRuns = e.numRuns := by
  have hlen := congrArg List.length h.runs
  rwa [List.length_map, List.length_map] at hlen

theorem runs_isEmpty (h : Alike e' e) : e'.runs.isEmpty = e.runs.isEmpty := by
  rw [Bool.eq_iff_iff, List.isEmpty_iff_length_eq_zero, List.isEmpty_iff_length_eq_zero,
    show e'.runs.length = e.runs.length from h.numRuns]

theorem describe (h : Alike e' e) : e'.describe = e.describe := by
  rw [Engine.describe, Engine.describe, h.core.buffered, h.numRuns, h.core.reader, h.core.fetched,
    h.core.flipped]

end Alike

mutual

theorem contents_shrunk : (e : Engine α) → (shrunk e).contents = e.contents
  | ⟨core, runs⟩ => by
    rw [shrunk, contents, contents, contentsAll_shrunkAll runs]
    rfl

theorem contentsAll_shrunkAll : (runs : List (Engine α)) →
    contentsAll (shrunkAll runs) = contentsAll runs
  | [] => rfl
  | r :: rs => by rw [shrunkAll, contentsAll, contentsAll, contents_shrunk r, contentsAll_shrunkAll rs]

end

theorem Alike.contents (h : Alike e' e) : e'.contents = e.contents := by
  rw [← contents_shrunk e', ← contents_shrunk e, show shrunk e' = shrunk e from h]

/-- Two outcomes that differ in nothing but where the items are kept. -/
structure Matches {β : Type} (o' o : Outcome (Engine α) β) : Prop where
  state : Alike o'.state o.state
  answer : o'.answer = o.answer
  events : o'.events = o.events

namespace Matches

variable {β γ : Type} {o o' : Outcome (Engine α) β}

theorem done (h : Alike e' e) (a : Except Stop β) (es : List Event) :
    Matches (⟨e', a, es⟩ : Outcome (Engine α) β) ⟨e, a, es⟩ := ⟨h, rfl, rfl⟩

theorem fault (h : Alike e' e) (f : Fault) :
    Matches (Step.fault f e' : Outcome (Engine α) β) (Step.fault f e) := ⟨h, rfl, rfl⟩

theorem bind {f : β → Engine α → Outcome (Engine α) γ} (h : Matches o' o)
    (hf : ∀ b, o.answer = .ok b → Matches (f b o'.state) (f b o.state)) :
    Matches (o'.bind f) (o.bind f) := by
  rcases o' with ⟨s', a', es'⟩
  rcases o with ⟨s, a, es⟩
  obtain ⟨hs, rfl, rfl⟩ := h
  cases a' with
  | error stop => exact ⟨hs, rfl, rfl⟩
  | ok b =>
    obtain ⟨hs', ha, he⟩ := hf b rfl
    exact ⟨hs', ha, congrArg (es' ++ ·) he⟩

end Matches

/-! ### Before reading -/

theorem window_push (h : Intact e) (x : α) :
    (push p x e).window = e.window ++ [some x] := by
  have hle : e.tick ≤ e.buffer.slots.length := by
    rw [h.filled.slots]
    simp
  show List.drop e.tick (push p x e).buffer.slots = _
  rw [slots_push, List.drop_append_of_le_length hle]
  rfl

namespace Alike

theorem push (h : Alike e' e) (hi' : Intact e') (hi : Intact e) (x : α) :
    Alike (Engine.push p x e') (Engine.push p x e) := by
  refine h.of_core { h.core with window := ?_, memConsumed := ?_ }
  · show (Engine.push p x e').window = (Engine.push p x e).window
    rw [window_push hi', window_push hi, h.core.window]
  · show charge e'.memConsumed (e'.itemCost x) = charge e.memConsumed (e.itemCost x)
    rw [h.core.memConsumed, h.core.itemCost]

theorem slots (h : Alike e' e) (ht' : e'.tick = 0) (ht : e.tick = 0) :
    e'.buffer.slots = e.buffer.slots := by
  have hw := h.core.window
  rwa [Core.window, Core.window, ht', ht, List.drop_zero, List.drop_zero] at hw

theorem sorted (h : Alike e' e) (ht' : e'.tick = 0) (ht : e.tick = 0) :
    Alike (Engine.sorted p e') (Engine.sorted p e) := by
  refine h.of_core { h.core with window := ?_ }
  show List.drop e'.tick (e'.buffer.slots.mergeSort p.leSlots) =
    List.drop e.tick (e.buffer.slots.mergeSort p.leSlots)
  rw [ht', ht, h.slots ht' ht]

theorem clear (h : Alike e' e) :
    Alike { e' with toCore := e'.toCore.clear } { e with toCore := e.toCore.clear } :=
  h.of_core { h.core with window := rfl, memConsumed := rfl }

theorem spill (h : Alike e' e) (ht' : e'.tick = 0) (ht : e.tick = 0) :
    Alike (Engine.spill e') (Engine.spill e) := by
  have hrun : ∀ {run' run : Core α}, run'.Alike run → Alike ⟨run', []⟩ ⟨run, []⟩ :=
    fun hrun => iff_core.mpr ⟨hrun, rfl⟩
  refine h.clear.append (hrun ?_)
  exact ⟨h.slots ht' ht, rfl, h.core.memThresh, rfl, h.core.itemCost, rfl, rfl, rfl⟩

theorem setFlipped (h : Alike e' e) :
    Alike { e' with flipped := true } { e with flipped := true } :=
  h.of_core { h.core with flipped := rfl }

theorem setDraining (h : Alike e' e) :
    Alike { e' with draining := true } { e with draining := true } :=
  h.of_core { h.core with draining := rfl }

end Alike

section

variable (h' : Coherent e') (h : Coherent e) (ha : Alike e' e)

include h' h ha

theorem sortBuffer_matches : Matches (sortBuffer p e') (sortBuffer p e) := by
  by_cases h0 : e.fetched = 0
  · have h0' : e'.fetched = 0 := ha.core.fetched.trans h0
    rw [h'.sortBuffer_eq h0', h.sortBuffer_eq h0]
    exact .done (ha.sorted (h'.untouched h0') (h.untouched h0)) _ _
  · have h0' : 0 < e'.fetched := ha.core.fetched ▸ Nat.pos_of_ne_zero h0
    rw [sortBuffer_refused h0', sortBuffer_refused (Nat.pos_of_ne_zero h0), ha.core.fetched]
    exact .fault ha _

theorem flush_matches : Matches (flush p e') (flush p e) := by
  by_cases hb : e.buffered = 0
  · rw [flush_of_empty hb, flush_of_empty (ha.core.buffered.trans hb)]
    exact .done ha.clear _ _
  · have hb' : e'.buffered ≠ 0 := ha.core.buffered ▸ hb
    by_cases h0 : e.fetched = 0
    · have h0' : e'.fetched = 0 := ha.core.fetched.trans h0
      have ht' := h'.untouched h0'
      have ht := h.untouched h0
      rw [flush_of_untaken h0' ht' hb', flush_of_untaken h0 ht hb]
      exact .done ((ha.sorted ht' ht).spill ht' ht) _ _
    · have hpos := Nat.pos_of_ne_zero h0
      rw [flush_refused (ha.core.fetched ▸ hpos) (Nat.pos_of_ne_zero hb'),
        flush_refused hpos (Nat.pos_of_ne_zero hb), ha.core.fetched]
      exact .fault ha _

theorem flip_matches : Matches (flip p e') (flip p e) := by
  unfold flip
  rw [ha.core.flipped]
  split
  · exact .done ha _ _
  · exact (flush_matches h' h ha).bind fun _ _ =>
      .done (flush_matches h' h ha).state.setFlipped _ _

theorem feed_matches (x : α) : Matches (feed p x e') (feed p x e) := by
  by_cases hpos : 0 < e.fetched
  · rw [feed_refused_of_fetched hpos, feed_refused_of_fetched (ha.core.fetched ▸ hpos),
      ha.core.fetched]
    exact .fault ha _
  · have hpos' : ¬ 0 < e'.fetched := ha.core.fetched ▸ hpos
    cases hf : e.flipped with
    | true =>
      rw [feed_refused_of_flipped hpos hf,
        feed_refused_of_flipped hpos' (ha.core.flipped.trans hf)]
      exact .fault ha _
    | false =>
      have h0 := Nat.eq_zero_of_not_pos hpos
      have h0' := Nat.eq_zero_of_not_pos hpos'
      have hpush := ha.push (p := p) h'.intact h.intact x
      rw [feed_of_open h0 hf, feed_of_open h0' (ha.core.flipped.trans hf), ha.core.memThresh,
        ha.core.memConsumed, ha.core.itemCost]
      split
      · exact flush_matches (h'.push h0' x) (h.push h0 x) hpush
      · exact .done hpush _ _

theorem freeze_matches : Matches (freeze p e') (freeze p e) := by
  unfold freeze
  rw [ha.core.flipped, ha.core.fetched, ha.runs_isEmpty, ha.core.reader]
  split
  · exact .done ha _ _
  · split
    · exact (sortBuffer_matches h' h ha).bind fun _ _ =>
        .done (sortBuffer_matches h' h ha).state.setFlipped _ _
    · exact flip_matches h' h ha

omit h' h in
theorem addRun_matches (hr : Matches (freeze p r') (freeze p r)) :
    Matches (addRun p r' e') (addRun p r e) := by
  unfold addRun
  rw [ha.core.draining]
  split
  · rw [ha.core.fetched]
    exact .fault ha _
  · simp only [hr.answer, hr.events]
    cases (freeze p r).answer with
    | error stop => exact .done ha _ _
    | ok _ => exact .done (ha.append hr.state) _ _

end

/-! ### Refilling -/

/-- A run that was refilled if it was used up. -/
def stocked (p : Policy α) (r : Engine α) : Engine α :=
  if 0 < r.buffered then r else (refill p r).state

theorem stocked_intact (h : Intact r) : Intact (stocked p r) := by
  by_cases hb : 0 < r.buffered
  · rw [stocked, if_pos hb]
    exact h
  · obtain ⟨r', n, es, heq, -, h', -⟩ := refill_intact (p := p) h (by omega)
    rw [stocked, if_neg hb, heq]
    exact h'

/-- Before runs are merged they are refilled, and those that have nothing to give are dropped. -/
theorem refillRuns_intact : ∀ {runs : List (Engine α)}, (∀ r ∈ runs, Intact r) →
    ∃ es, refillRuns p runs = ⟨(runs.map (stocked p)).filter (0 < ·.buffered), .ok (), es⟩
  | [], _ => ⟨[], rfl⟩
  | r :: runs, h => by
    obtain ⟨hr, htail⟩ := List.forall_mem_cons.mp h
    obtain ⟨es, heq⟩ := refillRuns_intact htail
    rw [refillRuns, heq, List.map_cons]
    by_cases hb : 0 < r.buffered
    · have hsame : stocked p r = r := if_pos hb
      rw [if_pos hb, hsame, List.filter_cons_of_pos (by simpa using hb)]
      exact ⟨es, rfl⟩
    · obtain ⟨r', n, es', heq', hn, -⟩ := refill_intact (p := p) hr (by omega)
      have hrefilled : stocked p r = r' := by rw [stocked, if_neg hb, heq']
      rw [if_neg hb, heq', hrefilled]
      by_cases hpos : 0 < n
      · rw [List.filter_cons_of_pos (by simpa [hn] using hpos)]
        exact ⟨es' ++ es, by simp only [if_pos hpos]⟩
      · rw [List.filter_cons_of_neg (by simpa [hn] using hpos)]
        exact ⟨es' ++ p.disposals r'.contents.length ++ es, by simp only [if_neg hpos]⟩

theorem mem_stocked {runs : List (Engine α)} (h : ∀ r ∈ runs, Intact r) :
    ∀ r ∈ (runs.map (stocked p)).filter (0 < ·.buffered), Intact r ∧ 0 < r.buffered := by
  intro r hr
  obtain ⟨hmem, hb⟩ := List.mem_filter.mp hr
  obtain ⟨r₀, hr₀, rfl⟩ := List.mem_map.mp hmem
  exact ⟨stocked_intact (h r₀ hr₀), of_decide_eq_true hb⟩

theorem lastBuffered_alike (h' : Intact r') (h : Intact r) (ha : Alike r' r)
    (hb : 0 < r.buffered) : r'.lastBuffered = r.lastBuffered := by
  have hne : r.live ≠ [] := by
    rw [h.filled.buffered] at hb
    exact List.length_pos_iff.mp hb
  have hlast := List.getLast?_eq_getLast_of_ne_nil hne
  rw [lastBuffered_eq h.filled.window hlast,
    lastBuffered_eq h'.filled.window ((congrArg _ ha.core.live).trans hlast)]

/-- Some runs are those of others, all of which have something buffered, but for where the items
are kept. -/
structure Stocked (runs' runs : List (Engine α)) : Prop where
  alike : List.Forall₂ Alike runs' runs
  left : ∀ r ∈ runs', Intact r ∧ 0 < r.buffered
  right : ∀ r ∈ runs, Intact r ∧ 0 < r.buffered

theorem Stocked.map_eq {β : Type} {f : Engine α → β} {runs' runs : List (Engine α)}
    (h : Stocked runs' runs)
    (hf : ∀ r' r, Intact r' → Intact r → Alike r' r → 0 < r.buffered → f r' = f r) :
    runs'.map f = runs.map f := by
  obtain ⟨halike, hleft, hright⟩ := h
  induction halike with
  | nil => rfl
  | cons hr _ ih =>
    obtain ⟨⟨hi', -⟩, hleft⟩ := List.forall_mem_cons.mp hleft
    obtain ⟨⟨hi, hb⟩, hright⟩ := List.forall_mem_cons.mp hright
    rw [List.map_cons, List.map_cons, hf _ _ hi' hi hr hb, ih hleft hright]

theorem endpost_alike {runs' runs : List (Engine α)} (h : Stocked runs' runs) :
    endpost p runs' = endpost p runs := by
  obtain ⟨halike, hleft, hright⟩ := h
  unfold endpost
  generalize (none : Option α) = least
  induction halike generalizing least with
  | nil => rfl
  | cons hr _ ih =>
    obtain ⟨⟨hi', -⟩, hleft⟩ := List.forall_mem_cons.mp hleft
    obtain ⟨⟨hi, hb⟩, hright⟩ := List.forall_mem_cons.mp hright
    rw [List.foldlM_cons, List.foldlM_cons, lastBuffered_alike hi' hi hr hb]
    exact bind_congr fun least => ih hleft hright least

theorem Alike.dropFront (h : Alike r' r) {n : Nat} (hn : n ≤ r.window.length) :
    Alike (Engine.dropFront n r') (Engine.dropFront n r) := by
  refine h.of_core { h.core with window := ?_ }
  show (Engine.dropFront n r').window = (Engine.dropFront n r).window
  have hn' : n ≤ r'.window.length := h.core.window.symm ▸ hn
  rw [window_dropFront hn', window_dropFront hn, h.core.window]

theorem slices_alike {core' core : Core α} {runs' runs : List (Engine α)}
    (h : Stocked runs' runs) (post : α) :
    slices p post ⟨core', runs'⟩ = slices p post ⟨core, runs⟩ := by
  unfold slices
  refine congrArg (List.filter _) (h.map_eq fun r' r _ _ ha _ => ?_)
  rw [front, front, sliceSize, sliceSize, ha.core.window]

theorem absorb_alike {core' core : Core α} {runs' runs : List (Engine α)} (hcore : core'.Alike core)
    (ht' : core'.tick = 0) (ht : core.tick = 0) (h : Stocked runs' runs) (post : α) :
    Alike (absorb p post ⟨core', runs'⟩) (absorb p post ⟨core, runs⟩) := by
  refine Alike.iff_core.mpr ⟨{ hcore with window := ?_ }, ?_⟩
  · show List.drop core'.tick (mergeAll p.leSlots (slices p post ⟨core', runs'⟩)) =
      List.drop core.tick (mergeAll p.leSlots (slices p post ⟨core, runs⟩))
    rw [ht', ht, slices_alike h]
  · show (runs'.map fun r => dropFront (sliceSize p post r) r).map shrunk =
      (runs.map fun r => dropFront (sliceSize p post r) r).map shrunk
    rw [List.map_map, List.map_map]
    refine h.map_eq fun r' r _ _ ha _ => ?_
    have hsize : sliceSize p post r' = sliceSize p post r := by
      rw [sliceSize, sliceSize, ha.core.window]
    rw [Function.comp_apply, Function.comp_apply, hsize]
    exact ha.dropFront (partitionPoint_le _ _)

theorem mergeRuns_matches {core' core : Core α} {runs' runs : List (Engine α)}
    (hcore : core'.Alike core) (ht' : core'.tick = 0) (ht : core.tick = 0)
    (h : Stocked runs' runs) :
    Matches (mergeRuns p ⟨core', runs'⟩) (mergeRuns p ⟨core, runs⟩) := by
  unfold mergeRuns
  rw [show endpost p (⟨core', runs'⟩ : Engine α).runs = endpost p runs from endpost_alike h]
  have halike : Alike ⟨core', runs'⟩ ⟨core, runs⟩ :=
    Alike.iff_core.mpr ⟨hcore, h.map_eq fun _ _ _ _ ha _ => ha⟩
  simp only
  split
  · exact .fault halike _
  · exact .done halike _ _
  · rename_i post _
    have hslices : slices p post ⟨core', runs'⟩ = slices p post ⟨core, runs⟩ := slices_alike h post
    refine ⟨absorb_alike hcore ht' ht h post, rfl, ?_⟩
    simp only [absorbed, hslices]
    rw [show runs'.length = runs.length from halike.numRuns]

/-- What becomes of used-up runs does not depend on where their items are kept. -/
structure Restocks (p : Policy α) (runs : List (Engine α)) (rs' rs : List (Engine α))
    (es : List Event) : Prop where
  left : refillRuns p (runs.map shrunk) = ⟨rs', .ok (), es⟩
  right : refillRuns p runs = ⟨rs, .ok (), es⟩
  stocked : Stocked rs' rs

theorem refillRuns_shrunk : ∀ {runs : List (Engine α)},
    (∀ r ∈ runs, Intact r ∧ (r.buffered = 0 → Matches (refill p (shrunk r)) (refill p r))) →
    ∃ rs' rs es, Restocks p runs rs' rs es
  | [], _ => ⟨[], [], [], rfl, rfl, .nil, by simp, by simp⟩
  | r :: runs, h => by
    obtain ⟨⟨hr, hrefill⟩, htail⟩ := List.forall_mem_cons.mp h
    obtain ⟨rs', rs, es, hleft, hright, halike, hl, hrr⟩ := refillRuns_shrunk htail
    have hb : (shrunk r).buffered = r.buffered := (alike_shrunk r).core.buffered
    by_cases hpos : 0 < r.buffered
    · refine ⟨shrunk r :: rs', r :: rs, es, ?_, ?_, .cons (alike_shrunk r) halike, ?_, ?_⟩
      · rw [List.map_cons, refillRuns, if_pos (hb ▸ hpos), hleft]
        rfl
      · rw [refillRuns, if_pos hpos, hright]
        rfl
      · exact List.forall_mem_cons.mpr ⟨⟨hr.shrunk, hb ▸ hpos⟩, hl⟩
      · exact List.forall_mem_cons.mpr ⟨⟨hr, hpos⟩, hrr⟩
    · obtain ⟨r₂, n, es₂, heq, hn, hr₂, -⟩ := refill_intact (p := p) hr (by omega)
      obtain ⟨r₁, m, es₁, heq', hm, hr₁, -⟩ := refill_intact (p := p) hr.shrunk (by omega)
      have hmatch := hrefill (by omega)
      rw [heq, heq'] at hmatch
      obtain ⟨hstate, hanswer, hevents⟩ := hmatch
      obtain rfl : m = n := Except.ok.inj hanswer
      obtain rfl : es₁ = es₂ := hevents
      have hnone : ¬ 0 < (shrunk r).buffered := hb ▸ hpos
      by_cases hgiven : 0 < m
      · refine ⟨r₁ :: rs', r₂ :: rs, es₁ ++ es, ?_, ?_, .cons hstate halike, ?_, ?_⟩
        · rw [List.map_cons, refillRuns, if_neg hnone, heq', hleft]
          simp only [if_pos hgiven]
        · rw [refillRuns, if_neg hpos, heq, hright]
          simp only [if_pos hgiven]
        · exact List.forall_mem_cons.mpr ⟨⟨hr₁, hm ▸ hgiven⟩, hl⟩
        · exact List.forall_mem_cons.mpr ⟨⟨hr₂, hn ▸ hgiven⟩, hrr⟩
      · refine ⟨rs', rs, es₁ ++ p.disposals r₂.contents.length ++ es, ?_, ?_, halike, hl, hrr⟩
        · rw [List.map_cons, refillRuns, if_neg hnone, heq', hleft, ← hstate.contents]
          simp only [if_neg hgiven]
        · rw [refillRuns, if_neg hpos, heq, hright]
          simp only [if_neg hgiven]

theorem refill_of_used_up {core : Core α} (runs : List (Engine α)) (hb : core.buffered = 0) :
    refill p ⟨core, runs⟩ =
      match core.reader with
      | some r => ⟨⟨core.restart.takeBatch r, runs⟩, .ok (core.restart.takeBatch r).buffered, []⟩
      | none =>
        ((refillRuns p runs).mapState (Engine.mk core.restart)).bind fun _ e =>
          (mergeRuns p e).bind fun _ e => ⟨e, .ok e.buffered, []⟩ := by
  rw [refill, if_neg (by omega)]
  rfl

theorem exists_shrunk (core : Core α) (runs : List (Engine α)) :
    ∃ core', shrunk ⟨core, runs⟩ = ⟨core', runs.map shrunk⟩ ∧ core'.Alike core := by
  have hcore := (alike_shrunk ⟨core, runs⟩).core
  rw [shrunk, shrunkAll_eq_map] at hcore ⊢
  exact ⟨_, rfl, hcore⟩

/-- A used-up engine is refilled with the same items after room was given back. -/
theorem refill_shrunk (h : Intact e) (hb : e.buffered = 0) :
    Matches (refill p (shrunk e)) (refill p e) := by
  induction h with
  | @mk core runs filled runs_intact ih =>
    obtain ⟨core', heq, hcore⟩ := exists_shrunk core runs
    have hb' : core'.buffered = 0 := hcore.buffered.trans hb
    rw [heq, refill_of_used_up runs hb, refill_of_used_up _ hb', hcore.reader]
    cases hreader : core.reader with
    | some r =>
      have hbatch : (core'.restart.takeBatch r).Alike (core.restart.takeBatch r) :=
        { hcore.restart with window := rfl, reader := rfl }
      exact .done (Alike.iff_core.mpr ⟨hbatch, map_shrunk_map_shrunk runs⟩) _ _
    | none =>
      obtain ⟨rs', rs, es, hleft, hright, hstocked⟩ := refillRuns_shrunk fun r hr =>
        ⟨runs_intact r hr, ih r hr⟩
      have hmerge := mergeRuns_matches (p := p) hcore.restart rfl rfl hstocked
      have hmerged : Matches
          ((mergeRuns p ⟨core'.restart, rs'⟩).bind fun _ e => ⟨e, .ok e.buffered, []⟩)
          ((mergeRuns p ⟨core.restart, rs⟩).bind fun _ e => ⟨e, .ok e.buffered, []⟩) :=
        hmerge.bind fun _ _ => ⟨hmerge.state, congrArg Except.ok hmerge.state.core.buffered, rfl⟩
      rw [hleft, hright]
      exact ⟨hmerged.state, hmerged.answer, congrArg (es ++ ·) hmerged.events⟩

theorem refill_matches (h' : Coherent e') (h : Coherent e) (ha : Alike e' e) :
    Matches (refill p e') (refill p e) := by
  by_cases hb : e.buffered = 0
  · have hb' : e'.buffered = 0 := ha.core.buffered.trans hb
    obtain ⟨hstate, hanswer, hevents⟩ := refill_shrunk (p := p) h.intact hb
    obtain ⟨hstate', hanswer', hevents'⟩ := refill_shrunk (p := p) h'.intact hb'
    rw [show shrunk e' = shrunk e from ha] at hstate' hanswer' hevents'
    exact ⟨hstate'.symm.trans hstate, hanswer'.symm.trans hanswer, hevents'.symm.trans hevents⟩
  · have hpos := Nat.pos_of_ne_zero hb
    rw [refill_refused hpos, refill_refused (ha.core.buffered ▸ hpos), ha.core.buffered]
    exact .fault ha _

/-! ### Reading -/

theorem prepareRead_matches (h' : Coherent e') (h : Coherent e) (ha : Alike e' e) :
    Matches (prepareRead p e') (prepareRead p e) := by
  unfold prepareRead
  have hopen : (!e'.flipped && !e'.runs.isEmpty) = (!e.flipped && !e.runs.isEmpty) := by
    rw [ha.core.flipped, ha.runs_isEmpty]
  simp only [hopen]
  split
  · exact flip_matches h'.setDraining h.setDraining ha.setDraining
  · exact .done ha.setDraining _ _

theorem ready_matches (h' : Coherent e') (h : Coherent e) (ha : Alike e' e) :
    Matches (ready p e') (ready p e) := by
  obtain ⟨e₁, heq, hbegun⟩ := h.prepareRead_eq (p := p)
  obtain ⟨e₁', heq', hbegun'⟩ := h'.prepareRead_eq (p := p)
  have hmatch := prepareRead_matches (p := p) h' h ha
  rw [heq, heq'] at hmatch
  have hused : e₁'.buffer.slots.length ≤ e₁'.tick ↔ e₁.buffer.slots.length ≤ e₁.tick := by
    have hb : e₁'.buffered = e₁.buffered := hmatch.state.core.buffered
    rw [Core.buffered, Core.buffered] at hb
    omega
  rw [ready, ready, heq, heq', Outcome.bind_ok_nil, Outcome.bind_ok_nil]
  simp only [hused]
  split
  · have hrefill := refill_matches (p := p) hbegun'.coherent hbegun.coherent hmatch.state
    exact hrefill.bind fun _ _ => .done hrefill.state _ _
  · exact .done hmatch.state _ _

theorem head?_alike (ha : Alike e' e) : head? e' = head? e := by
  have hw := congrArg (·[0]?) ha.core.window
  simp only [Core.window, List.getElem?_drop, Nat.add_zero] at hw
  rw [head?, head?, hw]

theorem peek_matches (h' : Coherent e') (h : Coherent e) (ha : Alike e' e) :
    Matches (peek p e') (peek p e) := by
  have hready := ready_matches (p := p) h' h ha
  refine hready.bind fun found _ => ?_
  rw [head?_alike hready.state]
  exact .done hready.state _ _

theorem Alike.dropHead (ha : Alike e' e) : Alike (Engine.dropHead e') (Engine.dropHead e) := by
  have hwindow : ∀ e : Engine α, (Engine.dropHead e).window = e.window.drop 1 := by
    intro e
    show List.drop (e.tick + 1) (e.buffer.slots.set e.tick none) = List.drop 1 (List.drop e.tick _)
    rw [List.drop_set_of_lt (by omega), List.drop_drop]
  refine ha.of_core { ha.core with window := ?_, fetched := congrArg (· + 1) ha.core.fetched }
  show (Engine.dropHead e').window = (Engine.dropHead e).window
  rw [hwindow, hwindow, ha.core.window]

theorem fetch_matches (h' : Coherent e') (h : Coherent e) (ha : Alike e' e) :
    Matches (fetch p e') (fetch p e) := by
  have hready := ready_matches (p := p) h' h ha
  refine hready.bind fun found _ => ?_
  cases found with
  | false => exact .done hready.state _ _
  | true =>
    simp only [if_true]
    rw [head?_alike hready.state]
    exact .done hready.state.dropHead _ _

/-! ### Calls -/

theorem silent_matches {β : Type} {x x' : Step (Engine α) β} (h : Matches (x' e') (x e)) :
    Matches (silent x' e') (silent x e) :=
  h.bind fun _ _ => .done h.state _ _

/-- Engines that are alike answer every call alike, whether it is refused or carried out, and are
alike afterwards. -/
theorem perform_matches (h' : Coherent e') (h : Coherent e) (ha : Alike e' e) (c : Call α) :
    Matches (perform p c e') (perform p c e) := by
  cases c with
  | feed x => exact silent_matches (feed_matches h' h ha x)
  | sortBuffer => exact silent_matches (sortBuffer_matches h' h ha)
  | flush => exact silent_matches (flush_matches h' h ha)
  | flip => exact silent_matches (flip_matches h' h ha)
  | addRun r => exact silent_matches (addRun_matches ha (.done (.refl _) _ _))
  | fetch => exact fetch_matches h' h ha
  | peek => exact silent_matches (peek_matches h' h ha)
  | refill => exact silent_matches (refill_matches h' h ha)
  | clearBuffer => exact silent_matches (.done ha.clear _ _)
  | growBuffer n =>
    have hgrown := (alike_growBuffer n e').trans (ha.trans (alike_growBuffer n e).symm)
    exact silent_matches (.done hgrown _ _)
  | shrink =>
    have hshrunk := (alike_shrunk e').trans (ha.trans (alike_shrunk e).symm)
    exact silent_matches (.done hshrunk _ _)
  | setMemThresh bytes =>
    have hset : Alike { e' with memThresh := bytes } { e with memThresh := bytes } :=
      ha.of_core { ha.core with memThresh := rfl }
    exact silent_matches (.done hset _ _)
  | setItemCost cost =>
    have hset : Alike { e' with itemCost := cost } { e with itemCost := cost } :=
      ha.of_core { ha.core with itemCost := rfl }
    exact silent_matches (.done hset _ _)

/-- Two engines came about by the same calls, but room was made and given back for the first of them
in between, and for the runs that it adopted. -/
inductive Padded (p : Policy α) : Engine α → Engine α → Prop
  | new (memThresh : Nat) (itemCost : α → Nat) :
      Padded p (Engine.new memThresh itemCost) (Engine.new memThresh itemCost)
  | fromSorted (memThresh : Nat) (itemCost : α → Nat) (items : List α) :
      Padded p (Engine.fromSorted memThresh itemCost items)
        (Engine.fromSorted memThresh itemCost items)
  | fromReader (memThresh : Nat) (itemCost : α → Nat) (reader : Reader α) :
      Padded p (Engine.fromReader memThresh itemCost reader)
        (Engine.fromReader memThresh itemCost reader)
  | call {e' e : Engine α} (c : Call α) (padded : Padded p e' e) (alone : c.adopted = none) :
      Padded p (perform p c e').state (perform p c e).state
  | adopt {e' e r' r : Engine α} (padded : Padded p e' e) (run : Padded p r' r) :
      Padded p (Engine.addRun p r' e').state (Engine.addRun p r e).state
  | shrink {e' e : Engine α} (padded : Padded p e' e) :
      Padded p (perform p .shrink e').state e
  | growBuffer {e' e : Engine α} (n : Nat) (padded : Padded p e' e) :
      Padded p (perform p (.growBuffer n) e').state e

/-- Both engines came about by calls. -/
theorem Padded.called (h : Padded p e' e) :
    (∃ taken read, Called p e' taken read) ∧ ∃ taken read, Called p e taken read := by
  induction h with
  | new memThresh itemCost => exact ⟨⟨_, _, .new _ _⟩, ⟨_, _, .new _ _⟩⟩
  | fromSorted memThresh itemCost items =>
    exact ⟨⟨_, _, .fromSorted _ _ _⟩, ⟨_, _, .fromSorted _ _ _⟩⟩
  | fromReader memThresh itemCost reader =>
    exact ⟨⟨_, _, .fromReader _ _ _⟩, ⟨_, _, .fromReader _ _ _⟩⟩
  | call c _ alone ih =>
    obtain ⟨⟨_, _, h'⟩, ⟨_, _, h⟩⟩ := ih
    exact ⟨⟨_, _, h'.call c alone⟩, ⟨_, _, h.call c alone⟩⟩
  | adopt _ _ ih ihr =>
    obtain ⟨⟨_, _, h'⟩, ⟨_, _, h⟩⟩ := ih
    obtain ⟨⟨_, _, hr'⟩, ⟨_, _, hr⟩⟩ := ihr
    exact ⟨⟨_, _, h'.adopt hr'⟩, ⟨_, _, h.adopt hr⟩⟩
  | shrink _ ih =>
    obtain ⟨⟨_, _, h'⟩, h⟩ := ih
    exact ⟨⟨_, _, h'.call .shrink rfl⟩, h⟩
  | growBuffer n _ ih =>
    obtain ⟨⟨_, _, h'⟩, h⟩ := ih
    exact ⟨⟨_, _, h'.call (.growBuffer n) rfl⟩, h⟩

theorem Padded.coherent (h : Padded p e' e) : Coherent e' ∧ Coherent e := by
  obtain ⟨⟨_, _, h'⟩, ⟨_, _, h⟩⟩ := h.called
  exact ⟨h'.coherent.1, h.coherent.1⟩

/-- The two engines differ in nothing but where their items are kept. -/
theorem Padded.alike (h : Padded p e' e) : Alike e' e := by
  induction h with
  | new memThresh itemCost => exact .refl _
  | fromSorted memThresh itemCost items => exact .refl _
  | fromReader memThresh itemCost reader => exact .refl _
  | call c padded _ ih =>
    obtain ⟨h', h⟩ := padded.coherent
    exact (perform_matches h' h ih c).state
  | adopt padded run ih ihr =>
    obtain ⟨hr', hr⟩ := run.coherent
    exact (addRun_matches ih (freeze_matches hr' hr ihr)).state
  | @shrink e' e _ ih => exact (alike_shrunk e').trans ih
  | @growBuffer e' e n _ ih => exact (alike_growBuffer n e').trans ih

end Engine

end ObjectSystem.Sorting
