import ObjectSystem.Proofs.Sorting.Rounds
import Mathlib.Data.List.Induction

/-! # Refilling

What a refill does to an engine that is ready (`refill_ready`): it ends without a fault, leaves the
engine ready, and rearranges what is due without losing anything, ties in the same portions; only
when nothing is due does it come back with nothing.

The least of the last buffered items of the runs is found (`endpost_eq`); what does not exceed it
is taken from every run and merged (`absorb_row`); and the runs that have nothing left are dropped
beforehand (`refillRuns_survivors`).  For this much the runs need only have their buffers in order.
The induction is on the tree of runs. -/

namespace ObjectSystem.Sorting.Engine

variable {α : Type} {p : Policy α} [Std.TransCmp p.compare] {steady : Prop}

/-! ### The endpost -/

omit [Std.TransCmp p.compare] in
theorem lastBuffered_eq {e : Engine α} (h : e.window = e.live.map some) {last : α}
    (hl : e.live.getLast? = some last) : e.lastBuffered = .ok last := by
  have hlen : e.window.length = e.buffer.slots.length - e.tick := List.length_drop
  have hpos : 0 < e.live.length := List.length_pos_iff.mpr fun h0 => by simp [h0] at hl
  have hne : ¬ e.buffer.slots.length ≤ e.tick := by
    rw [h, List.length_map] at hlen
    omega
  have hlast : e.buffer.slots.getLast? = some (some last) := by
    have := List.getLast?_drop (l := e.buffer.slots) (i := e.tick)
    rw [if_neg hne] at this
    rw [← this]
    show e.window.getLast? = _
    rw [h, List.getLast?_map, hl]
    rfl
  unfold lastBuffered
  rw [if_neg (by omega), hlast]

omit [Std.TransCmp p.compare] in
theorem endpost_append (runs : List (Engine α)) (r : Engine α) :
    endpost p (runs ++ [r]) = (endpost p runs).bind fun least => r.lastBuffered.bind fun last =>
      match least with
      | some x => if p.compare last x != .lt then pure (some x) else pure (some last)
      | none => pure (some last) := by
  unfold endpost
  rw [List.foldlM_append]
  refine congrArg (Except.bind _) (funext fun least => ?_)
  rw [List.foldlM_cons]
  exact bind_pure _

/-- The endpost of runs that all have something buffered is the least of their last buffered
items. -/
theorem endpost_least : ∀ {runs : List (Engine α)},
    (∀ r ∈ runs, r.toCore.InRow p ∧ r.live ≠ []) → runs ≠ [] →
    ∃ post, endpost p runs = .ok (some post) ∧ (∃ r ∈ runs, r.live.getLast? = some post) ∧
      ∀ r ∈ runs, ∀ last, r.live.getLast? = some last → p.le post last := by
  intro runs
  induction runs using List.reverseRecOn with
  | nil => exact fun _ h => absurd rfl h
  | append_singleton runs r ih =>
    intro h _
    obtain ⟨hr, hne⟩ := h r (by simp)
    have hlast := List.getLast?_eq_getLast_of_ne_nil hne
    generalize r.live.getLast hne = last at hlast
    have hself : ∀ {x}, p.le x last → ∀ last', r.live.getLast? = some last' → p.le x last' := by
      intro x hle last' hlast'
      rwa [Option.some.inj (hlast'.symm.trans hlast)]
    rw [endpost_append, lastBuffered_eq hr.window hlast]
    by_cases hruns : runs = []
    · subst hruns
      exact ⟨last, rfl, ⟨r, by simp, hlast⟩, by simpa using hself (Policy.le_refl last)⟩
    · obtain ⟨post, hpost, ⟨s, hs, hsl⟩, hmin⟩ := ih (fun s hs => h s (by simp [hs])) hruns
      rw [hpost]
      by_cases hlt : p.compare last post = .lt
      · refine ⟨last, by simp [Except.bind, hlt, pure, Except.pure], ⟨r, by simp, hlast⟩, ?_⟩
        intro t ht
        rcases List.mem_append.mp ht with ht | ht
        · exact fun x hx => Policy.le_trans _ _ _ (Policy.le_of_lt hlt) (hmin t ht x hx)
        · obtain rfl := List.mem_singleton.mp ht
          exact hself (Policy.le_refl last)
      · refine ⟨post, by simp [Except.bind, hlt, pure, Except.pure], ⟨s, by simp [hs], hsl⟩, ?_⟩
        intro t ht
        rcases List.mem_append.mp ht with ht | ht
        · exact hmin t ht
        · obtain rfl := List.mem_singleton.mp ht
          refine hself ?_
          by_contra hgt
          exact hlt (Policy.lt_of_not_le hgt)

/-- The endpost of runs that all have something buffered is an item of one of them, and does not
exceed the last buffered item of any. -/
theorem endpost_eq {runs : List (Engine α)} (h : ∀ r ∈ runs, r.toCore.InRow p ∧ r.live ≠ [])
    (hne : runs ≠ []) :
    ∃ post, endpost p runs = .ok (some post) ∧ (∃ r ∈ runs, post ∈ r.live) ∧
      ∀ r ∈ runs, ∃ last ∈ r.live, p.le post last := by
  obtain ⟨post, hpost, ⟨r, hr, hlast⟩, hmin⟩ := endpost_least h hne
  refine ⟨post, hpost, ⟨r, hr, List.mem_of_getLast? hlast⟩, fun s hs => ?_⟩
  have hlast' := List.getLast?_eq_getLast_of_ne_nil (h s hs).2
  exact ⟨_, List.mem_of_getLast? hlast', hmin s hs _ hlast'⟩

/-! ### Merging the slices -/

theorem slices_eq {post : α} {e : Engine α} (h : ∀ r ∈ e.runs, r.toCore.InRow p) :
    slices p post e =
      ((e.runs.map fun r => r.live.filter (p.le · post)).filter (!·.isEmpty)).map
        (·.map some) := by
  have hmap : (e.runs.map fun r => front (sliceSize p post r) r) =
      (e.runs.map fun r => r.live.filter (p.le · post)).map (·.map some) := by
    rw [List.map_map]
    exact List.map_congr_left fun r hr => (h r hr).front_eq post
  rw [slices, hmap, List.filter_map]
  simp [Function.comp_def]

/-- Absorbing what does not exceed `post` from all runs puts it into the buffer in order, ties in
the order of the runs. -/
theorem absorb_row {core : Core α} {runs : List (Engine α)} {post : α} (ht : core.tick = 0)
    (h : ∀ r ∈ runs, r.toCore.InRow p) :
    (absorb p post ⟨core, runs⟩).toCore.InRow p ∧
      p.Rearranges True (absorb p post ⟨core, runs⟩).live
        (runs.flatMap fun r => r.live.filter (p.le · post)) := by
  let rows := (runs.map fun r => r.live.filter (p.le · post)).filter (!·.isEmpty)
  have hrows : ∀ l ∈ rows, l.Pairwise (p.le · ·) := by
    intro l hl
    obtain ⟨r, hr, rfl⟩ := List.mem_map.mp (List.mem_filter.mp hl).1
    exact (h r hr).sorted.sublist List.filter_sublist
  have hw : (absorb p post ⟨core, runs⟩).toCore.window = (mergeAll p.le rows).map some := by
    show List.drop core.tick (mergeAll p.leSlots (slices p post ⟨core, runs⟩)) = _
    rw [ht, List.drop_zero, slices_eq h]
    exact mergeAll_map (fun a b => p.leSlots_some a b) rows
  have hmerged := Policy.rearranges_mergeAll hrows
  rw [List.flatten_filter_not_isEmpty, ← List.flatMap_def] at hmerged
  refine ⟨.of_window hw (Policy.pairwise_mergeAll hrows), ?_⟩
  rw [show (absorb p post ⟨core, runs⟩).live = mergeAll p.le rows from Core.live_eq hw]
  exact hmerged

theorem mem_absorb {core : Core α} {runs : List (Engine α)} {post : α} (ht : core.tick = 0)
    (h : ∀ r ∈ runs, r.toCore.InRow p) (x : α) :
    x ∈ (absorb p post ⟨core, runs⟩).live ↔ ∃ r ∈ runs, x ∈ r.live ∧ p.le x post := by
  rw [(absorb_row ht h).2.perm.mem_iff, List.mem_flatMap]
  simp only [List.mem_filter]

omit [Std.TransCmp p.compare] in
theorem due_absorb {core : Core α} {runs : List (Engine α)} {post : α} (hr : core.reader = none) :
    (absorb p post ⟨core, runs⟩).due = (absorb p post ⟨core, runs⟩).live ++
      runs.flatMap fun r => (dropFront (sliceSize p post r) r).due := by
  have hbeyond : (absorb p post ⟨core, runs⟩).beyond =
      dueAll (runs.map fun r => dropFront (sliceSize p post r) r) :=
    beyond_of_no_reader hr
  rw [due_eq, hbeyond, dueAll_eq_flatMap, List.flatMap_map]

theorem dueAll_split {runs : List (Engine α)} (post : α) (h : ∀ r ∈ runs, r.toCore.InRow p) :
    dueAll runs = runs.flatMap fun r =>
      r.live.filter (p.le · post) ++ (dropFront (sliceSize p post r) r).due := by
  rw [dueAll_eq_flatMap]
  exact List.flatMap_congr fun r hr => (h r hr).due_split post

omit [Std.TransCmp p.compare] in
theorem mergeRuns_of_endpost (core : Core α) {runs : List (Engine α)} {post : α}
    (h : endpost p runs = .ok (some post)) :
    ∃ es, mergeRuns p ⟨core, runs⟩ = ⟨absorb p post ⟨core, runs⟩, .ok (), es⟩ := by
  refine ⟨[.bufferRefilled runs.length (absorbed p post ⟨core, runs⟩).1
    (absorbed p post ⟨core, runs⟩).2], ?_⟩
  unfold mergeRuns
  rw [h]

theorem mergeRuns_eq {core : Core α} {runs : List (Engine α)}
    (h : ∀ r ∈ runs, r.toCore.InRow p ∧ r.live ≠ []) (hruns : runs ≠ []) :
    ∃ post es, mergeRuns p ⟨core, runs⟩ = ⟨absorb p post ⟨core, runs⟩, .ok (), es⟩ ∧
      (∃ r ∈ runs, post ∈ r.live) ∧ ∀ r ∈ runs, ∃ last ∈ r.live, p.le post last := by
  obtain ⟨post, hpost, hmem, hmin⟩ := endpost_eq h hruns
  obtain ⟨es, heq⟩ := mergeRuns_of_endpost core hpost
  exact ⟨post, es, heq, hmem, hmin⟩

/-! ### Refilling the runs -/

/-- What a refill that answers `n` makes of an engine, if `Same e' e` says that `e'` stands for
`e`.  A reader that hands over an empty batch is given up, whatever it would hand over later. -/
structure Refilled (Same : Engine α → Engine α → Prop) (e e' : Engine α) (n : Nat) : Prop where
  answer : n = e'.live.length
  none_due : n = 0 → e.due = []
  reader : e'.reader.isSome = e.reader.isSome
  draining : e'.draining = true
  same : 0 < n ∨ e.reader = none → Same e' e

/-- The first runs stand for the second ones, of which those were left out from which nothing was
due. -/
inductive Survivors (Same : Engine α → Engine α → Prop) :
    List (Engine α) → List (Engine α) → Prop
  | nil : Survivors Same [] []
  | keep {r' r : Engine α} {rs runs : List (Engine α)} (same : Same r' r) (some_live : r'.live ≠ [])
      (rest : Survivors Same rs runs) : Survivors Same (r' :: rs) (r :: runs)
  | drop {r : Engine α} {rs runs : List (Engine α)} (none_due : r.due = [])
      (rest : Survivors Same rs runs) : Survivors Same rs (r :: runs)

section

omit [Std.TransCmp p.compare]

variable {Same : Engine α → Engine α → Prop} {rs runs : List (Engine α)}

theorem Survivors.exists_of_mem (h : Survivors Same rs runs) :
    ∀ r' ∈ rs, r'.live ≠ [] ∧ ∃ r ∈ runs, Same r' r := by
  induction h with
  | nil => simp
  | keep same some_live _ ih =>
    refine List.forall_mem_cons.mpr ⟨⟨some_live, _, List.mem_cons_self, same⟩, fun s hs => ?_⟩
    obtain ⟨hlive, r, hr, hsame⟩ := ih s hs
    exact ⟨hlive, r, List.mem_cons_of_mem _ hr, hsame⟩
  | drop _ _ ih =>
    intro s hs
    obtain ⟨hlive, r, hr, hsame⟩ := ih s hs
    exact ⟨hlive, r, List.mem_cons_of_mem _ hr, hsame⟩

theorem Survivors.due (h : Survivors Same rs runs)
    (hsame : ∀ r' r, Same r' r → p.Rearranges steady r'.due r.due) :
    p.Rearranges steady (dueAll rs) (dueAll runs) := by
  induction h with
  | nil => exact .refl _
  | keep same _ _ ih => exact (hsame _ _ same).append ih
  | drop none_due _ ih =>
    rw [dueAll, none_due]
    exact ih

theorem Survivors.portions {c : α} (h : Survivors Same rs runs)
    (hsame : ∀ r' r, Same r' r → r'.portions p c = r.portions p c) :
    portionsAll p c rs = portionsAll p c runs := by
  induction h with
  | nil => rfl
  | keep same _ _ ih => rw [portionsAll, portionsAll, hsame _ _ same, ih]
  | @drop r rs runs none_due _ ih =>
    have hnil : r.portions p c = [] := portions_eq_nil r (by rw [none_due]; rfl)
    rw [portionsAll, hnil]
    exact ih

/-- If every used-up run can be refilled, what is left of the runs stands for them. -/
theorem refillRuns_survivors : ∀ {runs : List (Engine α)},
    (∀ r ∈ runs, r.buffered = r.live.length ∧ Same r r ∧
      (r.buffered = 0 → r.live = [] →
        ∃ r' n es, refill p r = ⟨r', .ok n, es⟩ ∧ Refilled Same r r' n)) →
    ∃ rs es, refillRuns p runs = ⟨rs, .ok (), es⟩ ∧ Survivors Same rs runs
  | [], _ => ⟨[], [], rfl, .nil⟩
  | r :: runs, h => by
    obtain ⟨⟨hlen, hsame, hrefill⟩, htail⟩ := List.forall_mem_cons.mp h
    obtain ⟨rs, es, heq, hrs⟩ := refillRuns_survivors htail
    rw [refillRuns]
    by_cases hb : 0 < r.buffered
    · rw [if_pos hb, heq]
      exact ⟨r :: rs, es, rfl, .keep hsame (List.length_pos_iff.mp (hlen ▸ hb)) hrs⟩
    · have hnone : r.live = [] := List.eq_nil_of_length_eq_zero (by omega)
      obtain ⟨r', n, es', heq', hr'⟩ := hrefill (by omega) hnone
      rw [if_neg hb, heq', heq]
      by_cases hn : 0 < n
      · refine ⟨r' :: rs, es' ++ es, by simp [hn], .keep (hr'.same (.inl hn)) ?_ hrs⟩
        rw [← List.length_pos_iff, ← hr'.answer]
        exact hn
      · exact ⟨rs, _, by simp only [hn, if_false]; rfl, .drop (hr'.none_due (by omega)) hrs⟩

theorem refill_of_reader {core : Core α} {r : Reader α} (hr : core.reader = some r)
    (hb : core.buffered = 0) :
    ∃ c : Core α, refill p ⟨core, runs⟩ = ⟨⟨c, runs⟩, .ok r.next.1.items.length, []⟩ ∧
      c.window = r.next.1.items.map some ∧ c.reader = some r.next.2 ∧
      c.flipped = core.flipped ∧ c.fetched = core.fetched ∧ c.tick = 0 ∧ c.draining = true ∧
      c.scratch = core.scratch := by
  have hcleared : core.clear.reader = some r := hr
  refine ⟨{ core.clear with draining := true }.takeBatch r, ?_, rfl, rfl, rfl, rfl, rfl, rfl, rfl⟩
  rw [refill, if_neg (by rw [hb]; omega)]
  simp only [hcleared]
  exact congrArg (fun n => (⟨_, .ok n, []⟩ : Outcome (Engine α) Nat)) (List.length_map some)

theorem due_of_reader {core : Core α} {r : Reader α} (hr : core.reader = some r)
    (hl : core.live = []) : (⟨core, runs⟩ : Engine α).due = r.promised := by
  rw [due, hl, hr]
  rfl

theorem refill_of_runs {core : Core α} {e' : Engine α} {es es' : List Event}
    (hr : core.reader = none) (hb : core.buffered = 0)
    (hruns : refillRuns p runs = ⟨rs, .ok (), es⟩)
    (hmerge : mergeRuns p ⟨{ core.clear with draining := true }, rs⟩ = ⟨e', .ok (), es'⟩) :
    refill p ⟨core, runs⟩ = ⟨e', .ok e'.buffered, es ++ es'⟩ := by
  have hcleared : core.clear.reader = none := hr
  rw [refill, if_neg (by rw [hb]; omega)]
  simp only [hcleared] at hmerge ⊢
  rw [hruns]
  simp [Outcome.mapState, hmerge]

end

/-! ### Refilling an engine that is ready -/

/-- What is still to come is the same, up to a rearrangement in which ties keep their portions, and
the engine is ready. -/
structure Continues (p : Policy α) (steady : Prop) (e' e : Engine α) : Prop where
  ready : Ready p steady e'
  due : p.Rearranges steady e'.due e.due
  portions : ∀ c, e'.portions p c = e.portions p c

omit [Std.TransCmp p.compare] in
theorem used_up (p : Policy α) {core : Core α} (runs : List (Engine α)) (hr : core.reader = none)
    (hl : core.live = []) :
    (⟨core, runs⟩ : Engine α).due = dueAll runs ∧
      ∀ c, (⟨core, runs⟩ : Engine α).portions p c = portionsAll p c runs := by
  constructor
  · rw [due, hl, hr]
    rfl
  · intro c
    rw [portions, hl, hr]
    exact if_pos rfl

/-- Absorbing what does not exceed `post` from all runs leaves an engine that is ready. -/
theorem absorb_ready {core : Core α} {runs : List (Engine α)} {post : α}
    (hf : core.flipped = true) (hr : core.reader = none) (ht : core.tick = 0)
    (h : ∀ r ∈ runs, Ready p steady r) (hmin : ∀ r ∈ runs, ∃ last ∈ r.live, p.le post last) :
    Ready p steady (absorb p post ⟨core, runs⟩) ∧
      p.Rearranges steady (absorb p post ⟨core, runs⟩).due (dueAll runs) := by
  have hrow : ∀ r ∈ runs, r.toCore.InRow p := fun r hr => (h r hr).inRow
  obtain ⟨hinRow, hmerged⟩ := absorb_row ht hrow
  have hprec : ∀ x, p.le x post → ∀ r ∈ runs,
      ∀ y ∈ (dropFront (sliceSize p post r) r).due, p.Precedes steady x y := by
    intro x hx r hr y hy
    obtain ⟨last, hlast, hle⟩ := hmin r hr
    exact .of_le hx ((h r hr).precedes_dropFront hlast hle y hy)
  refine ⟨.merging hf hinRow.window hinRow.sorted hr ?_ ?_, ?_⟩
  · exact List.forall_mem_map.mpr fun r hr => (h r hr).dropFront post
  · intro x hx y hy
    obtain ⟨_, _, _, hx⟩ := (mem_absorb ht hrow x).mp hx
    rw [dueAll_eq_flatMap, List.flatMap_map, List.mem_flatMap] at hy
    obtain ⟨r, hr, hy⟩ := hy
    exact hprec x hx r hr y hy
  · rw [due_absorb hr, dueAll_split post hrow]
    refine (hmerged.of_steady.append (.refl _)).trans (Policy.rearranges_flatMap_append
      (fun r => r.live.filter (p.le · post))
      (fun r => (dropFront (sliceSize p post r) r).due) runs ?_)
    intro r hr y hy r' _ x hx hs
    exact (hprec x (List.mem_filter.mp hx).2 r hr y hy).2 hs

/-- The portions that are taken from the runs at a time are the next one of the engine. -/
theorem absorb_portions {core : Core α} {runs : List (Engine α)} {post : α}
    (hr : core.reader = none) (ht : core.tick = 0) (h : ∀ r ∈ runs, Ready p steady r)
    (hmin : ∀ r ∈ runs, ∃ last ∈ r.live, p.le post last) (c : α) :
    (absorb p post ⟨core, runs⟩).portions p c = portionsAll p c runs := by
  have hrow : ∀ r ∈ runs, r.toCore.InRow p := fun r hr => (h r hr).inRow
  have hties := (@absorb_row _ p _ core runs post ht hrow).2.ties trivial c
  rw [List.filter_flatMap] at hties
  have hlater : (absorb p post ⟨core, runs⟩).later p c =
      weave (runs.map fun r => (dropFront (sliceSize p post r) r).portions p c) := by
    have hnone : (absorb p post ⟨core, runs⟩).reader = none := hr
    rw [later, hnone]
    refine (portionsAll_eq p c _).trans (congrArg weave ?_)
    exact List.map_map
  rw [portions_eq, hties, hlater, portionsAll_eq]
  by_cases hc : p.le c post
  · have hhead : (runs.flatMap fun r => (r.live.filter (p.le · post)).filter (p.tied c)) =
        (weave (runs.map (portions p c))).headD [] := by
      rw [headD_weave, List.flatMap_map]
      refine List.flatMap_congr fun r hr => ?_
      obtain ⟨last, hlast, hle⟩ := hmin r hr
      exact ((h r hr).portions_dropFront_of_le hlast hle hc).1.symm
    have htail : weave (runs.map fun r => (dropFront (sliceSize p post r) r).portions p c) =
        (weave (runs.map (portions p c))).tail := by
      rw [tail_weave, List.map_map]
      refine congrArg weave (List.map_congr_left fun r hr => ?_)
      obtain ⟨last, hlast, hle⟩ := hmin r hr
      exact ((h r hr).portions_dropFront_of_le hlast hle hc).2.symm
    rw [hhead, htail]
    exact lead_headD_tail (not_mem_weave (List.forall_mem_map.mpr fun r _ => not_mem_portions r))
  · have hnone : (runs.flatMap fun r => (r.live.filter (p.le · post)).filter (p.tied c)) = [] :=
      List.flatMap_eq_nil_iff.mpr fun r hr => ((h r hr).portions_dropFront_of_gt hc).1
    rw [hnone, lead, if_pos rfl]
    exact congrArg weave
      (List.map_congr_left fun r hr => ((h r hr).portions_dropFront_of_gt hc).2)

/-- Merging from runs that all have something buffered leaves nothing only if nothing is due. -/
theorem mergeRuns_ready {core : Core α} {runs : List (Engine α)} (hf : core.flipped = true)
    (hr : core.reader = none) (hb : core.buffer.slots = []) (ht : core.tick = 0)
    (h : ∀ r ∈ runs, Ready p steady r ∧ r.live ≠ []) :
    ∃ e es, mergeRuns p ⟨core, runs⟩ = ⟨e, .ok (), es⟩ ∧ e.reader = none ∧
      e.draining = core.draining ∧ Continues p steady e ⟨core, runs⟩ ∧
      (e.live = [] → dueAll runs = []) := by
  have hlive : core.live = [] := by simp [Core.live, Core.window, hb]
  by_cases hruns : runs = []
  · subst hruns
    refine ⟨⟨core, []⟩, [], rfl, hr, rfl,
      ⟨.merging hf ?_ ?_ hr (by simp) (by simp [dueAll]), .refl _, fun _ => rfl⟩, fun _ => rfl⟩
    · simp [hlive, Core.window, hb]
    · rw [hlive]
      exact .nil
  · have hready : ∀ r ∈ runs, Ready p steady r := fun r hr => (h r hr).1
    have hrow : ∀ r ∈ runs, r.toCore.InRow p := fun r hr => (hready r hr).inRow
    obtain ⟨post, es, heq, ⟨r, hrmem, hmem⟩, hmin⟩ :=
      mergeRuns_eq (fun r hr => ⟨hrow r hr, (h r hr).2⟩) hruns
    obtain ⟨hready', hdue⟩ := absorb_ready hf hr ht hready hmin
    obtain ⟨hsource, hportions⟩ := used_up p runs hr hlive
    refine ⟨_, es, heq, hr, rfl, ⟨hready', hsource ▸ hdue, fun c => ?_⟩, fun hnil => ?_⟩
    · rw [hportions]
      exact absorb_portions hr ht hready hmin c
    · have hpost := (mem_absorb ht hrow post).mpr ⟨r, hrmem, hmem, Policy.le_refl post⟩
      rw [hnil] at hpost
      cases hpost

omit [Std.TransCmp p.compare] in
/-- An engine that serves a reader takes the next batch, which continues what it had. -/
theorem refill_reading {core : Core α} {runs : List (Engine α)} {r : Reader α}
    (flipped : core.flipped = true) (reader : core.reader = some r) (unsteady : ¬ steady)
    (promised : r.promised.Pairwise (p.le · ·)) (hb : core.buffered = 0) (hlive : core.live = []) :
    ∃ e' n, refill p ⟨core, runs⟩ = ⟨e', .ok n, []⟩ ∧
      Refilled (Continues p steady) ⟨core, runs⟩ e' n := by
  obtain ⟨c, heq, hw, hreader, hflip, -, -, hdraining, -⟩ :=
    @refill_of_reader _ p runs core r reader hb
  have hl := Core.live_eq hw
  have hdue : (⟨core, runs⟩ : Engine α).due = r.promised := due_of_reader reader hlive
  refine ⟨⟨c, runs⟩, _, heq, ?_, fun hn => ?_, ?_, hdraining, ?_⟩
  · rw [hl]
  · rw [hdue, r.promised_eq, List.eq_nil_of_length_eq_zero hn]
    rfl
  · show c.reader.isSome = core.reader.isSome
    rw [hreader, reader]
    rfl
  · rintro (hn | hn)
    · have hsome : r.next.1.items ≠ [] := List.length_pos_iff.mp hn
      have hpromised : r.promised = r.next.1.items ++ r.next.2.promised := by
        rw [r.promised_eq, if_neg hsome]
      rw [hpromised, List.pairwise_append] at promised
      refine ⟨.reading (hflip.trans flipped) (by rw [hl, hw]) (hl ▸ promised.1) hreader unsteady
        promised.2.1 ?_, ?_, fun d => ?_⟩
      · exact fun x hx y hy => ⟨promised.2.2 x (hl ▸ hx) y hy, fun hs => absurd hs unsteady⟩
      · rw [hdue, hpromised, due, hl, hreader]
        exact .refl _
      · have hportions : r.portions p d =
            lead (r.next.1.items.filter (p.tied d)) (r.next.2.portions p d) := by
          rw [r.portions_eq, if_neg hsome]
        rw [portions, portions, hl, hlive, hreader, reader]
        exact hportions.symm.trans (if_pos rfl).symm
    · have hnone : core.reader = none := hn
      rw [hnone] at reader
      cases reader

/-- A refill of an engine that is ready. -/
theorem refill_ready {e : Engine α} (h : Ready p steady e) (hb : e.buffered = 0) :
    ∃ e' n es, refill p e = ⟨e', .ok n, es⟩ ∧ Refilled (Continues p steady) e e' n := by
  have hlive : e.live = [] := List.eq_nil_of_length_eq_zero (h.buffered_eq ▸ hb)
  induction h with
  | @merging core runs flipped window sorted reader runs_ready precedes ih =>
    have hself : ∀ r ∈ runs, Continues p steady r r := fun r hr =>
      ⟨runs_ready r hr, .refl _, fun _ => rfl⟩
    obtain ⟨rs, es, heq, hrs⟩ := refillRuns_survivors fun r hr =>
      ⟨(runs_ready r hr).buffered_eq, hself r hr, ih r hr⟩
    have hfit : ∀ r ∈ rs, Ready p steady r ∧ r.live ≠ [] := fun r hr => by
      obtain ⟨hlive, _, _, hsame⟩ := hrs.exists_of_mem r hr
      exact ⟨hsame.ready, hlive⟩
    obtain ⟨e', es', heq', hreader, hdraining, hcontinues, hnil⟩ :=
      @mergeRuns_ready _ _ _ _ { core.clear with draining := true } _ flipped reader rfl rfl hfit
    have hdue : p.Rearranges steady (dueAll rs) (dueAll runs) := hrs.due fun _ _ h => h.due
    obtain ⟨hbefore, hportions⟩ := used_up p runs reader hlive
    obtain ⟨hcleared, hportions'⟩ :=
      @used_up _ p { core.clear with draining := true } rs reader rfl
    refine ⟨e', e'.buffered, es ++ es', refill_of_runs reader hb heq heq',
      hcontinues.ready.buffered_eq, fun hn => ?_, ?_, hdraining,
      fun _ => ⟨hcontinues.ready, ?_, fun c => ?_⟩⟩
    · have hrest := hnil (List.eq_nil_of_length_eq_zero (hcontinues.ready.buffered_eq ▸ hn))
      rw [hbefore]
      exact (hrest ▸ hdue.perm).nil_eq.symm
    · rw [hreader]
      exact (congrArg Option.isSome reader).symm
    · rw [hbefore]
      exact (hcleared ▸ hcontinues.due).trans hdue
    · rw [hcontinues.portions c, hportions', hportions]
      exact hrs.portions fun _ _ h => h.portions c
  | @reading core runs r flipped window sorted reader unsteady promised precedes =>
    obtain ⟨e', n, heq, hrefilled⟩ :=
      @refill_reading _ p steady core runs r flipped reader unsteady promised hb hlive
    exact ⟨e', n, [], heq, hrefilled⟩

end ObjectSystem.Sorting.Engine
