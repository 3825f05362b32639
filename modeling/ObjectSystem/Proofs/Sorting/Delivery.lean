import ObjectSystem.Proofs.Sorting.Interludes

/-! # What a run delivers

`Delivers p r items` says what comes out of an engine when it is fetched from until it gives
nothing.  An engine that is a run of another one is never fetched from; its parent takes slots off
its front and refills it.  The two views agree: taking `n` items off the front leaves a run that
delivers all but the first `n` (`Delivers.dropFront`), and a run delivers something exactly if there
is something in it once it was refilled (`Delivers.stocked`).

This needs no more than that the run is `Closed`, as are all runs of an engine that came about by
calls (`Called.runs_closed`). -/

namespace ObjectSystem.Sorting.Engine

variable {α : Type} {p : Policy α} {e e' r : Engine α}

/-- Fetching until there is nothing gives these items. -/
inductive Delivers (p : Policy α) : Engine α → List α → Prop
  | nothing {e e' : Engine α} {es : List Event} (answered : fetch p e = ⟨e', .ok none, es⟩) :
      Delivers p e []
  | item {e e' : Engine α} {x : α} {items : List α} {es : List Event}
      (answered : fetch p e = ⟨e', .ok (some x), es⟩) (rest : Delivers p e' items) :
      Delivers p e (x :: items)

/-- Nothing is out of place, and the engine is not flipped when it is read. -/
structure Closed (e : Engine α) : Prop where
  intact : Intact e
  settled : e.flipped = true ∨ e.runs = []

/-- The engine with another account of how it was read. -/
def marked (n : Nat) (d : Bool) (e : Engine α) : Engine α :=
  { e with fetched := n, draining := d }

theorem marked_marked (n m : Nat) (d d' : Bool) (e : Engine α) :
    marked n d (marked m d' e) = marked n d e := rfl

theorem marked_self (e : Engine α) : marked e.fetched e.draining e = e := by
  rcases e with ⟨core, runs⟩
  rfl

namespace Closed

theorem window (h : Closed e) : e.window = e.live.map some := h.intact.filled.window

theorem buffered (h : Closed e) : e.buffered = e.live.length := h.intact.filled.buffered

theorem marked (h : Closed e) (n : Nat) (d : Bool) : Closed (marked n d e) :=
  ⟨h.intact.of_filled (h.intact.filled.congr rfl rfl rfl), h.settled⟩

theorem refill_eq (h : Closed e) (hb : e.buffered = 0) :
    ∃ e' n es, refill p e = ⟨e', .ok n, es⟩ ∧ n = e'.buffered ∧ Closed e' ∧
      e'.draining = true := by
  obtain ⟨e', n, es, heq, hn, h', hframed⟩ := refill_intact (p := p) h.intact hb
  exact ⟨e', n, es, heq, hn, ⟨h', h.settled.imp hframed.flipped.trans hframed.runs⟩,
    hframed.draining⟩

theorem ready_eq (h : Closed e) :
    ∃ e' es, ready p e = ⟨e', .ok (decide (0 < e'.buffered)), es⟩ ∧ Closed e' ∧
      e'.draining = true := by
  by_cases hb : 0 < e.buffered
  · refine ⟨{ e with draining := true }, [], ?_, h.marked e.fetched true, rfl⟩
    rw [ready_of_buffered h.settled hb]
    exact congrArg (fun found => (⟨_, .ok found, []⟩ : Outcome (Engine α) Bool))
      (decide_eq_true hb).symm
  · have hb0 : e.buffered = 0 := by omega
    obtain ⟨e', n, es, heq, hn, h', hd⟩ := h.refill_eq (p := p) hb0
    refine ⟨e', es, ?_, h', hd⟩
    rw [ready_of_used_up h.settled hb0 ((refill_setDraining hb0).trans heq), hn]

theorem dropFront (h : Closed e) {n : Nat} (hn : n ≤ e.live.length) :
    Closed (dropFront n e) := by
  have hle : n ≤ e.window.length := by rwa [h.window, List.length_map]
  exact ⟨h.intact.dropFront hle, h.settled⟩

theorem dropHead {x : α} {items : List α} (h : Closed e) (hl : e.live = x :: items) :
    Closed (dropHead e) :=
  ⟨h.intact.dropHead hl, h.settled⟩

end Closed

/-! ### Taking slots off the front -/

theorem live_dropFront {n : Nat} (h : Intact e) (hn : n ≤ e.live.length) :
    (dropFront n e).live = e.live.drop n := by
  have hle : n ≤ e.window.length := by rwa [h.filled.window, List.length_map]
  refine Core.live_eq ?_
  rw [window_dropFront hle, h.filled.window, List.map_drop]

theorem dropFront_eq {n : Nat} (h : Intact e) (hn : n ≤ e.live.length) :
    dropFront n e =
      { e with
        buffer := { e.buffer with
          slots := List.replicate (e.tick + n) none ++ (e.live.drop n).map some }
        tick := e.tick + n } := by
  have hle : n ≤ e.window.length := by rwa [h.filled.window, List.length_map]
  have hslots : (dropFront n e).buffer.slots =
      List.replicate (e.tick + n) none ++ (dropFront n e).live.map some :=
    (h.dropFront hle).filled.slots
  rw [live_dropFront h hn] at hslots
  rw [← hslots]
  rfl

theorem dropFront_dropFront {n m : Nat} (h : Closed e) (hn : n + m ≤ e.live.length) :
    dropFront m (dropFront n e) = dropFront (n + m) e := by
  have hm : m ≤ (dropFront n e).live.length := by
    rw [live_dropFront h.intact (by omega), List.length_drop]
    omega
  rw [dropFront_eq (h.dropFront (by omega)).intact hm, dropFront_eq h.intact hn,
    live_dropFront h.intact (by omega), List.drop_drop, ← Nat.add_assoc]
  rfl

theorem dropHead_eq {x : α} {items : List α} (h : Closed e) (hl : e.live = x :: items) :
    dropHead e = marked (e.fetched + 1) e.draining (dropFront 1 e) := by
  have hslots : (dropHead e).buffer.slots =
      List.replicate (e.tick + 1) none ++ (dropHead e).live.map some :=
    (h.dropHead hl).intact.filled.slots
  rw [(live_dropHead h.window hl).2] at hslots
  rw [dropFront_eq h.intact (by simp [hl]), hl, List.drop_one, List.tail_cons, ← hslots]
  rfl

/-! ### Fetching and taking off the front -/

theorem mergeRuns_marked (e : Engine α) (n : Nat) (d : Bool) :
    mergeRuns p (marked n d e) = (mergeRuns p e).mapState (marked n d) := by
  unfold mergeRuns
  rw [show (marked n d e).runs = e.runs from rfl]
  split <;> rfl

theorem refill_of_restart {core core' : Core α} (runs : List (Engine α)) {n : Nat}
    (hb : core.buffered = 0) (hb' : core'.buffered = 0) (hreader : core'.reader = core.reader)
    (hrestart : core'.restart = { core.restart with fetched := n }) :
    refill p ⟨core', runs⟩ = (refill p ⟨core, runs⟩).mapState (marked n true) := by
  rw [refill_of_used_up runs hb, refill_of_used_up runs hb', hreader, hrestart]
  cases core.reader with
  | some r => rfl
  | none =>
    rcases refillRuns p runs with ⟨rs, stop | -, es⟩
    · rfl
    · have hmerge : mergeRuns p ⟨{ core.restart with fetched := n }, rs⟩ =
          (mergeRuns p ⟨core.restart, rs⟩).mapState (marked n true) :=
        mergeRuns_marked ⟨core.restart, rs⟩ n true
      simp only [Outcome.mapState, Outcome.bind_ok] at hmerge ⊢
      rw [hmerge]
      rcases mergeRuns p ⟨core.restart, rs⟩ with ⟨e', stop | -, es'⟩ <;> rfl

theorem refill_marked (hb : e.buffered = 0) (n : Nat) (d : Bool) :
    refill p (marked n d e) = (refill p e).mapState (marked n true) := by
  rcases e with ⟨core, runs⟩
  exact @refill_of_restart _ p core { core with fetched := n, draining := d } runs n hb hb rfl rfl

/-- How an engine was read before does not matter to a fetch. -/
theorem fetch_marked (h : Closed e) {item : Option α} {es : List Event}
    (heq : fetch p e = ⟨e', .ok item, es⟩) (n : Nat) (d : Bool) :
    ∃ m, fetch p (marked n d e) = ⟨marked m true e', .ok item, es⟩ := by
  by_cases hb : 0 < e.buffered
  · have hready := ready_of_buffered (p := p) h.settled hb
    have hready' := ready_of_buffered (p := p) (h.marked n d).settled hb
    obtain ⟨rfl, hitem, rfl⟩ := Outcome.mk.inj ((read_of_ready hready).2.symm.trans heq)
    refine ⟨n + 1, (read_of_ready hready').2.trans ?_⟩
    rw [← hitem]
    rfl
  · have hb0 : e.buffered = 0 := by omega
    obtain ⟨e₁, k, es₁, hrefill, -, -, -⟩ := h.refill_eq (p := p) hb0
    have hready := ready_of_used_up h.settled hb0 ((refill_setDraining hb0).trans hrefill)
    have hrefill' : refill p (marked n d e) = ⟨marked n true e₁, .ok k, es₁⟩ := by
      rw [refill_marked hb0, hrefill]
      rfl
    have hready' := ready_of_used_up (e := marked n d e) (h.marked n d).settled hb0
      ((refill_setDraining (e := marked n d e) hb0).trans hrefill')
    obtain ⟨rfl, hitem, rfl⟩ := Outcome.mk.inj ((read_of_ready hready).2.symm.trans heq)
    rw [(read_of_ready hready').2, ← hitem]
    by_cases hk : 0 < k
    · refine ⟨n + 1, ?_⟩
      rw [decide_eq_true hk]
      rfl
    · refine ⟨n, ?_⟩
      rw [decide_eq_false hk]
      rfl

theorem Closed.fetch_eq (h : Closed e) :
    ∃ e' item es, fetch p e = ⟨e', .ok item, es⟩ ∧ Closed e' := by
  obtain ⟨e', es, hready, h', -⟩ := h.ready_eq (p := p)
  have hfetch := (read_of_ready hready).2
  by_cases hb : 0 < e'.buffered
  · obtain ⟨x, items, hl⟩ : ∃ x items, e'.live = x :: items := by
      rw [h'.buffered] at hb
      exact List.exists_cons_of_length_pos hb
    rw [decide_eq_true hb] at hfetch
    exact ⟨_, _, es, hfetch, h'.dropHead hl⟩
  · rw [decide_eq_false hb] at hfetch
    exact ⟨_, _, es, hfetch, h'⟩

namespace Delivers

variable {items items' : List α}

theorem unique (h : Delivers p e items) (h' : Delivers p e items') : items = items' := by
  induction h generalizing items' with
  | nothing answered =>
    cases h' with
    | nothing _ => rfl
    | item answered' _ => exact absurd (answered.symm.trans answered') (by simp)
  | item answered _ ih =>
    cases h' with
    | nothing answered' => exact absurd (answered.symm.trans answered') (by simp)
    | item answered' rest' =>
      obtain ⟨rfl, hitem, -⟩ := Outcome.mk.inj (answered.symm.trans answered')
      rw [ih rest', Option.some.inj (Except.ok.inj hitem)]

theorem marked (h : Delivers p e items) (hc : Closed e) (n : Nat) (d : Bool) :
    Delivers p (marked n d e) items := by
  induction h generalizing n d with
  | nothing answered =>
    obtain ⟨m, hm⟩ := fetch_marked hc answered n d
    exact .nothing hm
  | item answered _ ih =>
    obtain ⟨m, hm⟩ := fetch_marked hc answered n d
    obtain ⟨e₁, item, es, heq, h₁⟩ := hc.fetch_eq (p := p)
    obtain ⟨rfl, -, -⟩ := Outcome.mk.inj (heq.symm.trans answered)
    exact .item hm (ih h₁ m true)

theorem of_marked {n : Nat} {d : Bool} (h : Delivers p (Engine.marked n d e) items)
    (hc : Closed e) : Delivers p e items := by
  have h' := h.marked (hc.marked n d) e.fetched e.draining
  rwa [marked_marked, marked_self] at h'

/-- The first buffered item is delivered first. -/
theorem dropFront_one {x : α} {rest : List α} (h : Delivers p e items) (hc : Closed e)
    (hl : e.live = x :: rest) :
    ∃ items', items = x :: items' ∧ Delivers p (Engine.dropFront 1 e) items' := by
  have hc' := hc.marked e.fetched true
  have hfetch := (read_of_ready (ready_of_buffered (p := p) hc.settled
    (buffered_pos hc.window hl))).2
  have hhead : head? ({ e with draining := true } : Engine α) = some x := head?_of_live hc.window hl
  simp only [if_true, hhead] at hfetch
  cases h with
  | nothing answered => exact absurd (hfetch.symm.trans answered) (by simp)
  | @item _ e' y items' es answered hrest =>
    obtain ⟨rfl, hitem, -⟩ := Outcome.mk.inj (hfetch.symm.trans answered)
    refine ⟨items', by rw [Option.some.inj (Except.ok.inj hitem)], ?_⟩
    have hone : 1 ≤ e.live.length := by simp [hl]
    have hdrop : Engine.dropHead ({ e with draining := true } : Engine α) =
        Engine.marked (e.fetched + 1) true (Engine.dropFront 1 e) :=
      dropHead_eq hc' hl
    rw [hdrop] at hrest
    exact hrest.of_marked (hc.dropFront hone)

/-- After slots are taken off the front everything else is delivered as before. -/
theorem dropFront (h : Delivers p e items) (hc : Closed e) {n : Nat} (hn : n ≤ e.live.length) :
    ∃ rest, items = e.live.take n ++ rest ∧ Delivers p (Engine.dropFront n e) rest := by
  induction n with
  | zero => exact ⟨items, rfl, (dropFront_zero e).symm ▸ h⟩
  | succ n ih =>
    obtain ⟨rest, rfl, hrest⟩ := ih (by omega)
    have hlive := live_dropFront hc.intact (n := n) (by omega)
    have hcons : (Engine.dropFront n e).live = e.live[n] :: e.live.drop (n + 1) := by
      rw [hlive, List.drop_eq_getElem_cons]
    obtain ⟨rest', rfl, hrest'⟩ := hrest.dropFront_one (hc.dropFront (by omega)) hcons
    refine ⟨rest', ?_, ?_⟩
    · rw [List.take_succ_eq_append_getElem hn, List.append_assoc]
      rfl
    · rwa [dropFront_dropFront hc hn] at hrest'

theorem live_isPrefix (h : Delivers p e items) (hc : Closed e) : e.live <+: items := by
  obtain ⟨rest, heq, -⟩ := h.dropFront hc (Nat.le_refl e.live.length)
  rw [List.take_length] at heq
  exact ⟨rest, heq.symm⟩

/-- A run that is refilled when it is used up holds something exactly if it delivers something, and
delivers it as before. -/
theorem stocked (h : Delivers p e items) (hc : Closed e) :
    Closed (stocked p e) ∧ ((stocked p e).live = [] ↔ items = []) ∧
      (items ≠ [] → Delivers p (stocked p e) items) := by
  by_cases hb : 0 < e.buffered
  · rw [Engine.stocked, if_pos hb]
    have hlive : e.live ≠ [] := List.length_pos_iff.mp (hc.buffered ▸ hb)
    obtain ⟨rest, rfl⟩ := h.live_isPrefix hc
    exact ⟨hc, by simp [hlive], fun _ => h⟩
  · have hb0 : e.buffered = 0 := by omega
    obtain ⟨e', n, es, hrefill, hn, hc', hd⟩ := hc.refill_eq (p := p) hb0
    have hfetch := (read_of_ready (ready_of_used_up hc.settled hb0
      ((refill_setDraining hb0).trans hrefill))).2
    rw [Engine.stocked, if_neg hb, hrefill]
    refine ⟨hc', ?_⟩
    by_cases hpos : 0 < n
    · -- the fetch takes from the refilled buffer what the next fetch would take from it
      have hb' : 0 < e'.buffered := hn ▸ hpos
      have hlive : e'.live ≠ [] := List.length_pos_iff.mp (hc'.buffered ▸ hb')
      obtain ⟨x, items', hl⟩ := List.exists_cons_of_ne_nil hlive
      have hfetch' := (read_of_ready (ready_again (p := p) hc'.settled hd hb')).2
      simp only [decide_eq_true hpos, if_true, head?_of_live hc'.window hl] at hfetch hfetch'
      cases h with
      | nothing answered => exact absurd (hfetch.symm.trans answered) (by simp)
      | item answered hrest =>
        obtain ⟨rfl, hitem, -⟩ := Outcome.mk.inj (hfetch.symm.trans answered)
        obtain rfl := Option.some.inj (Except.ok.inj hitem)
        exact ⟨by simp [hlive], fun _ => .item hfetch' hrest⟩
    · have hlive : e'.live = [] := List.eq_nil_of_length_eq_zero (by rw [← hc'.buffered]; omega)
      simp only [decide_eq_false hpos] at hfetch
      cases h with
      | nothing answered => exact ⟨by simp [hlive], fun hne => absurd rfl hne⟩
      | item answered hrest =>
        exact absurd (hfetch.symm.trans answered) (by simp)

end Delivers

/-! ### The runs of an engine -/

/-- No run is flipped when it is read. -/
def RunsSettled (e : Engine α) : Prop := ∀ r ∈ e.runs, r.flipped = true ∨ r.runs = []

namespace RunsSettled

theorem append (h : RunsSettled e) (hr : r.flipped = true ∨ r.runs = []) :
    RunsSettled { e with runs := e.runs ++ [r] } := by
  intro s hs
  rcases List.mem_append.mp hs with hs | hs
  · exact h s hs
  · rwa [List.mem_singleton.mp hs]

theorem bind {β γ : Type} {o : Outcome (Engine α) β} {f : β → Engine α → Outcome (Engine α) γ}
    (h : RunsSettled o.state) (hf : ∀ b, RunsSettled (f b o.state).state) :
    RunsSettled (o.bind f).state := by
  rcases o with ⟨s, stop | b, es⟩
  · exact h
  · exact hf b

theorem flush (h : RunsSettled e) : RunsSettled (flush p e).state := by
  unfold Engine.flush sortBuffer
  split
  · exact h
  · split
    · exact h
    · exact h.append (.inl rfl)

theorem flip (h : RunsSettled e) : RunsSettled (flip p e).state := by
  unfold Engine.flip
  split
  · exact h
  · exact h.flush.bind fun _ => h.flush (p := p)

theorem feed (h : RunsSettled e) (x : α) : RunsSettled (feed p x e).state := by
  unfold Engine.feed
  split
  · exact h
  · split
    · exact h
    · have hpush : RunsSettled (push p x e) := h
      simp only
      split
      · exact hpush.flush
      · exact hpush

theorem shrunk (h : RunsSettled e) : RunsSettled (shrunk e) := by
  rcases e with ⟨core, runs⟩
  rw [Engine.shrunk, shrunkAll_eq_map]
  refine List.forall_mem_map.mpr fun r hr => ?_
  have hcore := (alike_shrunk r).core.flipped
  have hruns := (alike_shrunk r).numRuns
  refine (h r hr).imp hcore.trans fun hnone => ?_
  exact List.eq_nil_of_length_eq_zero (hruns.trans (congrArg List.length hnone))

/-- Once a used-up engine was refilled, its runs are what is left of those that it had. -/
theorem refill (h : RunsSettled e) (hi : Intact e) (hb : e.buffered = 0) :
    RunsSettled (refill p e).state := by
  rcases e with ⟨core, runs⟩
  rw [refill_of_used_up runs hb]
  cases core.reader with
  | some r => exact h
  | none =>
    obtain ⟨es, hruns⟩ := refillRuns_intact (p := p) hi.runs_intact
    have hstocked : RunsSettled ⟨core.restart, (runs.map (stocked p)).filter (0 < ·.buffered)⟩ := by
      intro r hr
      obtain ⟨r₀, hr₀, rfl⟩ := List.mem_map.mp (List.mem_filter.mp hr).1
      unfold stocked
      split
      · exact h r₀ hr₀
      · obtain ⟨r', n, es, heq, -, -, hframed⟩ :=
          refill_intact (p := p) (hi.runs_intact r₀ hr₀) (by omega)
        rw [heq]
        exact (h r₀ hr₀).imp hframed.flipped.trans hframed.runs
    simp only [hruns, Outcome.mapState, Outcome.bind_ok]
    generalize (runs.map (stocked p)).filter (0 < ·.buffered) = rs at hstocked
    unfold mergeRuns
    split
    · exact hstocked
    · exact hstocked
    · exact List.forall_mem_map.mpr hstocked

theorem ready (h : RunsSettled e) (hc : Coherent e) : RunsSettled (ready p e).state := by
  obtain ⟨e', heq, hbegun⟩ := hc.prepareRead_eq (p := p)
  have hprepared : RunsSettled (prepareRead p e).state := by
    have hset : RunsSettled { e with draining := true } := h
    unfold prepareRead
    simp only
    split
    · exact hset.flip
    · exact hset
  rw [heq] at hprepared
  rw [Engine.ready, heq, Outcome.bind_ok_nil]
  split
  · have hb : e'.buffered = 0 := by
      unfold Core.buffered
      omega
    have hrefill := hprepared.refill (p := p) hbegun.coherent.intact hb
    exact hrefill.bind fun _ => hrefill
  · exact hprepared

theorem fetch (h : RunsSettled e) (hc : Coherent e) : RunsSettled (fetch p e).state := by
  have hready := h.ready (p := p) hc
  refine hready.bind fun found => ?_
  cases found <;> exact hready

theorem peek (h : RunsSettled e) (hc : Coherent e) : RunsSettled (peek p e).state :=
  (h.ready (p := p) hc).bind fun _ => h.ready hc

theorem addRun (h : RunsSettled e) (hr : Coherent r) : RunsSettled (addRun p r e).state := by
  have hsettled : (freeze p r).state.flipped = true ∨ (freeze p r).state.runs = [] := by
    by_cases hdone : r.flipped = true ∨ 0 < r.fetched
    · rw [freeze, if_pos hdone]
      cases hf : r.flipped with
      | true => exact .inl rfl
      | false => exact .inr ((hr.feeding hf).2 (hdone.resolve_left (by simp [hf])))
    · have h0 : r.fetched = 0 := by
        rw [not_or] at hdone
        omega
      rw [freeze, if_neg hdone]
      split
      · rw [hr.sortBuffer_eq h0]
        exact .inl rfl
      · obtain ⟨r', heq, -, -, -, hflipped⟩ := hr.flip_eq (p := p) (.inl h0)
        rw [heq]
        exact .inl hflipped
  unfold Engine.addRun
  simp only
  split
  · exact h
  · split
    · exact h.append hsettled
    · exact h

/-- Whatever is called on an engine, its runs stay settled. -/
theorem perform (h : RunsSettled e) (hc : Coherent e) {c : Call α} (alone : c.adopted = none) :
    RunsSettled (perform p c e).state := by
  have hsilent : ∀ {β : Type} {x : Step (Engine α) β}, RunsSettled (x e).state →
      RunsSettled (silent x e).state := fun hx => hx.bind fun _ => hx
  cases c with
  | feed x => exact hsilent (h.feed x)
  | sortBuffer =>
    refine hsilent ?_
    unfold sortBuffer
    split
    · exact h
    · exact h
  | flush => exact hsilent h.flush
  | flip => exact hsilent h.flip
  | addRun r => cases alone
  | fetch => exact h.fetch hc
  | peek => exact hsilent (h.peek hc)
  | refill =>
    refine hsilent ?_
    by_cases hb : 0 < e.buffered
    · rw [refill_refused hb]
      exact h
    · exact h.refill hc.intact (by omega)
  | shrink => exact hsilent h.shrunk
  | clearBuffer | growBuffer | setMemThresh | setItemCost => exact hsilent h

end RunsSettled

end ObjectSystem.Sorting.Engine
