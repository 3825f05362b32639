import ObjectSystem.Proofs.Sorting.Account
import ObjectSystem.Proofs.Sorting.Stable
import ObjectSystem.Proofs.Sorting.Whole

/-! # Buffers that are not merged

What an engine has buffered when it is first read is handed out as it is, before anything is merged
from its runs (`exists_used_up`).  When the engine is flipped by hand its buffer becomes a run first;
but there are two ways around that.

A leaf over items in order is flipped from the start and has its items in the buffer.  Whatever it
adopts comes out behind them, in order among itself (`yields_of_adopted`).

An engine that is fed and then read at once is flipped by the first read only if it has runs, that
is, if feeding it brought about a spill.  Otherwise its items come out as they were fed
(`yields_of_fed`). -/

namespace ObjectSystem.Sorting.Engine

variable {α : Type} {p : Policy α} {e : Engine α} {items : List α}

/-! ### Handing out the buffer -/

/-- An engine that is flipped or has no runs hands out its buffer, and then goes on as the engine
that is left when the buffer is used up. -/
theorem exists_used_up (h : e.flipped = true ∨ e.runs = []) (hw : e.window = items.map some) :
    ∃ e', e'.window = [] ∧ e'.flipped = e.flipped ∧ e'.reader = e.reader ∧ e'.runs = e.runs ∧
      ∀ out, Yields p e' out → Yields p e (items ++ out) := by
  induction items generalizing e with
  | nil => exact ⟨e, hw, rfl, rfl, rfl, fun out hy => hy⟩
  | cons x items ih =>
    have hw' : ({ e with draining := true } : Engine α).window = (x :: items).map some := hw
    have hl := Core.live_eq hw'
    have hfull : ({ e with draining := true } : Engine α).window =
        ({ e with draining := true } : Engine α).live.map some := by rw [hl, hw']
    obtain ⟨e', hused, hflipped, hreader, hruns, hrest⟩ :=
      @ih (dropHead { e with draining := true }) h (live_dropHead hfull hl).1
    refine ⟨e', hused, hflipped, hreader, hruns, fun out hy => ?_⟩
    have hb := buffered_pos hfull hl
    have hcons : Yields p { e with draining := true } (x :: (items ++ out)) :=
      (hrest out hy).cons h hfull rfl hl
    exact hcons.of_ready (ready_of_buffered h hb) (ready_again h rfl hb)

/-- An engine that has nothing at all answers nothing, flipped or not. -/
theorem yields_nil_of_leaf (hr : e.reader = none) (hruns : e.runs = []) (hw : e.window = []) :
    Yields p e [] := by
  intro rs
  induction rs generalizing e with
  | nil =>
    cases e
    rfl
  | cons r rs ih =>
    rcases e with ⟨core, runs⟩
    obtain rfl : runs = [] := hruns
    have hb : core.buffered = 0 := by
      rw [← Core.length_window]
      exact congrArg List.length hw
    have hnone : refillRuns p [] = ⟨[], .ok (), []⟩ := by rw [refillRuns]
    have hmerge : mergeRuns p ⟨{ core.clear with draining := true }, []⟩ =
        ⟨⟨{ core.clear with draining := true }, []⟩, .ok (), []⟩ := rfl
    have hrefill : refill p ⟨{ core with draining := true }, []⟩ =
        ⟨⟨{ core.clear with draining := true }, []⟩, .ok 0, []⟩ := by
      have hr' : ({ core with draining := true } : Core α).reader = none := hr
      have hb' : ({ core with draining := true } : Core α).buffered = 0 := hb
      exact refill_of_runs hr' hb' hnone hmerge
    have hready : ready p ⟨core, []⟩ =
        ⟨⟨{ core.clear with draining := true }, []⟩, .ok (decide (0 < 0)), []⟩ :=
      ready_of_used_up (.inr rfl) hb hrefill
    obtain ⟨hpeek, hfetch⟩ := read_of_ready hready
    have hread : read p r ⟨core, []⟩ =
        ⟨⟨{ core.clear with draining := true }, []⟩, .ok none, []⟩ := by
      cases r
      · exact hfetch
      · exact hpeek
    rw [readAll_cons hread, @ih ⟨{ core.clear with draining := true }, []⟩ hr rfl rfl]
    cases r <;> rfl

theorem yields_of_leaf (hr : e.reader = none) (hruns : e.runs = []) (hw : e.window = items.map some) :
    Yields p e items := by
  obtain ⟨e', hused, -, hreader, hruns', hrest⟩ := exists_used_up (p := p) (.inr hruns) hw
  have hnone := yields_nil_of_leaf (p := p) (hreader.trans hr) (hruns'.trans hruns) hused
  have hall := hrest [] hnone
  rwa [List.append_nil] at hall

/-! ### Leaves that adopt runs -/

/-- The leaves over some items that have adopted engines which came about by accepted calls. -/
inductive Adopted (p : Policy α) : Engine α → (items given taken : List α) → Prop
  | leaf (memThresh : Nat) (itemCost : α → Nat) (items : List α) :
      Adopted p (fromSorted memThresh itemCost items) items [] []
  | addRun {phase : Phase} {e r : Engine α} {items given taken given' taken' : List α}
      (adopted : Adopted p e items given taken) (run : Made p phase r given' taken')
      (accepted : (Engine.addRun p r e).answer = .ok ()) :
      Adopted p (Engine.addRun p r e).state items (given ++ given') (taken ++ taken')

/-- An engine that is flipped and was not read, with a buffer before runs that are in order. -/
structure Prefilled (p : Policy α) (e : Engine α) (items : List α) : Prop where
  flipped : e.flipped = true
  draining : e.draining = false
  reader : e.reader = none
  window : e.window = items.map some
  runs_ready : ∀ r ∈ e.runs, Ready p False r

section

variable [Std.TransCmp p.compare] {given taken : List α}

/-- Whatever came about by accepted calls is adopted. -/
theorem Prefilled.addRun (h : Prefilled p e items) {phase : Phase} {r : Engine α}
    (hr : Made p phase r given taken) :
    ∃ r', Engine.addRun p r e = ⟨{ e with runs := e.runs ++ [r'] }, .ok (), []⟩ ∧
      Prefilled p { e with runs := e.runs ++ [r'] } items ∧ (taken ++ r'.due).Perm given := by
  obtain ⟨r', heq, hready, hperm⟩ := hr.accounts.freeze
  refine ⟨r', addRun_of_unread (by simp [h.draining]) heq, ?_, hperm⟩
  constructor
  · exact h.flipped
  · exact h.draining
  · exact h.reader
  · exact h.window
  · intro s hs
    rcases List.mem_append.mp hs with hs | hs
    · exact h.runs_ready s hs
    · rw [List.mem_singleton.mp hs]
      exact hready

/-- The buffer comes out first, and then what is due from the runs, in order. -/
theorem Prefilled.yields (h : Prefilled p e items) :
    ∃ out, out.Pairwise (p.le · ·) ∧ out.Perm (dueAll e.runs) ∧ Yields p e (items ++ out) := by
  obtain ⟨⟨core, runs⟩, hused, hflipped, hreader, hruns, hrest⟩ :=
    exists_used_up (p := p) (.inl h.flipped) h.window
  obtain rfl : runs = e.runs := hruns
  have hlive : core.live = [] := by
    apply Core.live_eq
    exact hused
  have hr : core.reader = none := hreader.trans h.reader
  have hready : Ready p False ⟨core, e.runs⟩ := by
    refine .merging (hflipped.trans h.flipped) ?_ ?_ hr h.runs_ready ?_
    · rw [hlive]
      exact hused
    · rw [hlive]
      exact .nil
    · rw [hlive]
      simp
  obtain ⟨out, hsorted, hout, -, hy⟩ := hready.readAll_eq hr
  refine ⟨out, hsorted, ?_, hrest out hy⟩
  rw [← (used_up p e.runs hr hlive).1]
  exact hout.perm

/-- A leaf that adopted runs is prefilled, and what was given to the runs is due from them, but for
what was taken before. -/
theorem Adopted.prefilled (h : Adopted p e items given taken) :
    Prefilled p e items ∧ (taken ++ dueAll e.runs).Perm given := by
  induction h with
  | leaf memThresh itemCost items => exact ⟨⟨rfl, rfl, rfl, rfl, by simp [fromSorted]⟩, .refl _⟩
  | @addRun phase e r items given taken given' taken' _ run _ ih =>
    obtain ⟨hprefilled, hperm⟩ := ih
    obtain ⟨r', heq, hprefilled', hperm'⟩ := hprefilled.addRun run
    rw [heq]
    refine ⟨hprefilled', ?_⟩
    show (taken ++ taken' ++ dueAll (e.runs ++ [r'])).Perm (given ++ given')
    rw [dueAll_append, dueAll, dueAll, List.append_nil]
    calc (taken ++ taken' ++ (dueAll e.runs ++ r'.due)).Perm
          (taken ++ dueAll e.runs ++ (taken' ++ r'.due)) := by
            rw [List.append_assoc, List.append_assoc]
            exact (List.perm_append_comm_assoc taken' (dueAll e.runs) r'.due).append_left taken
      (taken ++ dueAll e.runs ++ (taken' ++ r'.due)).Perm (given ++ given') :=
        hperm.append hperm'

/-- A leaf over some items adopts every engine that came about by accepted calls.  When it is read,
its own items come out first, as they are, and then in order what was given to the engines that it
adopted and was not taken from them before.  So all of it comes out in order if and only if the
items are in order and nothing that was adopted belongs before any of them. -/
theorem yields_of_adopted (h : Adopted p e items given taken) :
    (∀ phase r given' taken', Made p phase r given' taken' →
      (Engine.addRun p r e).answer = .ok ()) ∧
    ∃ out, out.Pairwise (p.le · ·) ∧ (taken ++ out).Perm given ∧ Yields p e (items ++ out) ∧
      ((items ++ out).Pairwise (p.le · ·) ↔
        items.Pairwise (p.le · ·) ∧ ∀ x ∈ items, ∀ y ∈ out, p.le x y) := by
  obtain ⟨hprefilled, hperm⟩ := h.prefilled
  constructor
  · intro phase r given' taken' hr
    obtain ⟨r', heq, -⟩ := hprefilled.addRun hr
    rw [heq]
  · obtain ⟨out, hsorted, hout, hy⟩ := hprefilled.yields
    refine ⟨out, hsorted, (hout.append_left taken).trans hperm, hy, ?_⟩
    rw [List.pairwise_append]
    constructor
    · rintro ⟨hitems, -, hbefore⟩
      exact ⟨hitems, hbefore⟩
    · rintro ⟨hitems, hbefore⟩
      exact ⟨hitems, hsorted, hbefore⟩

end

/-- A leaf over 5 adopts a leaf over 1, and is then read as 5 and 1, in no other way. -/
theorem late_leaf_comes_last :
    ∃ e : Engine Nat, addRun ⟨compare, 8, []⟩ (fromSorted 100 (fun _ => 1) [1])
        (fromSorted 100 (fun _ => 1) [5]) = ⟨e, .ok (), []⟩ ∧
      (∀ out, Yields ⟨compare, 8, []⟩ e out ↔ out = [5, 1]) ∧
      ¬ [5, 1].Pairwise (Policy.le ⟨compare, 8, []⟩ · ·) := by
  have leaf : Made (⟨compare, 8, []⟩ : Policy Nat) _ _ [1] [] :=
    .fromSorted 100 (fun _ => 1) (List.pairwise_singleton _ _)
  have adopted := (Adopted.leaf (p := ⟨compare, 8, []⟩) 100 (fun _ => 1) [5]).addRun leaf rfl
  obtain ⟨hprefilled, hperm⟩ := adopted.prefilled
  obtain ⟨out, -, hout, hyields⟩ := hprefilled.yields
  obtain rfl : out = [1] := List.perm_singleton.mp (hout.trans hperm)
  exact ⟨_, rfl, fun out => hyields.iff_eq, by decide⟩

/-- A leaf over 5 adopts a leaf from which 1 was fetched, and then an engine that was fed 7 and 2. -/
theorem yields_of_adopted_mixed :
    ∃ e : Engine Nat, Adopted ⟨compare, 8, []⟩ e [5] [1, 4, 7, 2] [1] ∧
      ∃ out, out.Pairwise (Policy.le ⟨compare, 8, []⟩ · ·) ∧ ([1] ++ out).Perm [1, 4, 7, 2] ∧
        Yields ⟨compare, 8, []⟩ e ([5] ++ out) := by
  have items : [1, 4].Pairwise (Policy.le ⟨compare, 8, []⟩ · ·) := by decide
  have begun := (Made.fromSorted 100 (fun _ => 1) items).fetch (by decide) rfl rfl
  have fed := (Made.feed (p := ⟨compare, 8, []⟩) 7 (.new 100 fun _ => 1) rfl).feed 2 rfl
  have leaf := Adopted.leaf (p := ⟨compare, 8, []⟩) 100 (fun _ => 1) [5]
  have adopted := (leaf.addRun begun rfl).addRun fed rfl
  obtain ⟨-, out, hsorted, hperm, hyields, -⟩ := yields_of_adopted adopted
  exact ⟨_, adopted, out, hsorted, hperm, hyields⟩

/-! ### Feeding and reading at once -/

/-- Feeds items one by one. -/
def feedAll (p : Policy α) : List α → Step (Engine α) Unit
  | [] => pure ()
  | x :: xs => do
    feed p x
    feedAll p xs

theorem feedAll_of_feed {e' : Engine α} {x : α} (heq : feed p x e = ⟨e', .ok (), []⟩) :
    feedAll p (x :: items) e = feedAll p items e' := by
  calc feedAll p (x :: items) e
      = (feed p x e).bind fun _ => feedAll p items := Step.bind_apply _ _ _
    _ = feedAll p items e' := by
        rw [heq]
        exact Outcome.bind_ok_nil _ _ _

/-- An engine that was made with a threshold and a cost and only fed.  It has runs if and only if
some first items of what was fed reach the threshold; otherwise all are in the buffer as they were
fed. -/
structure Feeding (p : Policy α) (memThresh : Nat) (itemCost : α → Nat) (e : Engine α)
    (fed : List α) : Prop where
  only : Fed p e fed
  threshold : e.memThresh = memThresh
  cost : e.itemCost = itemCost
  flipped : e.flipped = false
  spilled : e.runs ≠ [] → ¬ Under memThresh (account itemCost) fed
  unspilled : e.runs = [] → Under memThresh (account itemCost) fed ∧
    e.window = fed.map some ∧ e.memConsumed = account itemCost fed

theorem flip_setDraining (p : Policy α) (e : Engine α) :
    flip p { e with draining := true } = (flip p e).mapState ({ · with draining := true }) := by
  unfold flip flush sortBuffer clearBuffer Core.buffered
  by_cases hf : e.flipped = true
  · simp [hf, Outcome.mapState]
  · by_cases hb : e.buffer.slots.length - e.tick = 0
    · simp [hf, hb, Outcome.mapState, Step.modify, Core.clear]
    · by_cases ht : 0 < e.fetched ∨ e.tick ≠ 0
      · simp [hf, hb, ht, Outcome.mapState, Step.fault]
      · simp [hf, hb, ht, Outcome.mapState, spill, sorted]

/-- An engine with runs that is not flipped yet is flipped when it is first read. -/
theorem Yields.of_flip {e' : Engine α} {out : List α} (hflipped : e.flipped = false)
    (hruns : e.runs ≠ []) (heq : flip p e = ⟨e', .ok (), []⟩) (hf : e'.flipped = true)
    (hy : Yields p e' out) : Yields p e out := by
  have hprepare : prepareRead p e = prepareRead p e' := by
    have hopen : (!e.flipped && !e.runs.isEmpty) = true := by simp [hflipped, hruns]
    rw [prepareRead_of_flipped (.inl hf), prepareRead]
    simp only [hopen, if_true]
    rw [flip_setDraining, heq]
    rfl
  have hready : ready p e = ready p e' := by
    rw [ready, ready, hprepare]
  intro rs
  cases rs with
  | nil => rfl
  | cons r rs =>
    have hread : read p r e = read p r e' := by
      cases r
      · show fetch p e = fetch p e'
        rw [fetch, fetch, hready]
      · show peek p e = peek p e'
        rw [peek, peek, hready]
    rw [← hy (r :: rs)]
    show (readAll p (r :: rs) e).answer = (readAll p (r :: rs) e').answer
    simp only [readAll, Step.bind_apply, hread]

section

variable [Std.TransCmp p.compare] {memThresh : Nat} {itemCost : α → Nat} {fed : List α}

/-- An item is accepted.  It is spilled with all that is buffered when the threshold is reached. -/
theorem Feeding.feed (h : Feeding p memThresh itemCost e fed) (x : α) :
    ∃ e', Engine.feed p x e = ⟨e', .ok (), []⟩ ∧
      Feeding p memThresh itemCost e' (fed ++ [x]) := by
  obtain ⟨runs, pending, hgrown, -⟩ := h.only.grown
  have ha := hgrown.assembling
  have hopen := feed_of_open (p := p) ha.fetched h.flipped x
  rw [h.threshold, h.cost] at hopen
  by_cases hfull : memThresh ≤ charge e.memConsumed (itemCost x)
  · have hb : (push p x e).buffered ≠ 0 := by
      rw [(ha.push h.flipped x).buffered_eq]
      simp
    rw [if_pos hfull, flush_of_untaken (e := push p x e) ha.fetched ha.tick hb] at hopen
    refine ⟨_, hopen, ?_⟩
    constructor
    · have hfed := h.only.feed x (by rw [hopen])
      rwa [hopen] at hfed
    · exact h.threshold
    · exact h.cost
    · exact h.flipped
    · intro _ hunder
      obtain ⟨hbefore, hroom⟩ := under_concat.mp hunder
      by_cases hruns : e.runs = []
      · rw [(h.unspilled hruns).2.2, charge_account] at hfull
        omega
      · exact h.spilled hruns hbefore
    · intro hruns
      exact absurd hruns (List.append_ne_nil_of_right_ne_nil _ (List.cons_ne_nil _ []))
  · rw [if_neg hfull] at hopen
    refine ⟨_, hopen, ?_⟩
    constructor
    · have hfed := h.only.feed x (by rw [hopen])
      rwa [hopen] at hfed
    · exact h.threshold
    · exact h.cost
    · exact h.flipped
    · intro hruns hunder
      exact h.spilled hruns (under_concat.mp hunder).1
    · intro hruns
      obtain ⟨hunder, hw, hconsumed⟩ := h.unspilled hruns
      rw [hconsumed, charge_account] at hfull
      refine ⟨under_concat.mpr ⟨hunder, Nat.not_le.mp hfull⟩, ?_, ?_⟩
      · show List.drop e.tick (push p x e).buffer.slots = _
        have hslots : e.buffer.slots = fed.map some := by
          rw [← hw, Core.window, ha.tick, List.drop_zero]
        rw [ha.tick, List.drop_zero, slots_push, hslots, List.map_append]
        rfl
      · show charge e.memConsumed (e.itemCost x) = _
        rw [hconsumed, h.cost, charge_account]

theorem Feeding.feedAll (h : Feeding p memThresh itemCost e fed) (items : List α) :
    ∃ e', Engine.feedAll p items e = ⟨e', .ok (), []⟩ ∧
      Feeding p memThresh itemCost e' (fed ++ items) := by
  induction items generalizing e fed with
  | nil =>
    rw [List.append_nil]
    exact ⟨e, rfl, h⟩
  | cons x items ih =>
    obtain ⟨e', heq, h'⟩ := h.feed x
    obtain ⟨e'', heq', h''⟩ := ih h'
    rw [List.append_assoc] at h''
    exact ⟨e'', (feedAll_of_feed heq).trans heq', h''⟩

omit [Std.TransCmp p.compare] in
theorem Feeding.fresh (memThresh : Nat) (itemCost : α → Nat) :
    Feeding p memThresh itemCost (new memThresh itemCost) [] := by
  constructor
  · exact .new memThresh itemCost
  · rfl
  · rfl
  · rfl
  · intro hruns
    exact absurd rfl hruns
  · intro _
    exact ⟨under_nil, rfl, rfl⟩

theorem Feeding.drains (h : Feeding p memThresh itemCost e fed) :
    Drains p e (fed.mergeSort p.le) := by
  obtain ⟨runs, pending, hgrown, rfl⟩ := h.only.grown
  exact hgrown.drains

theorem Feeding.yields_of_under (h : Feeding p memThresh itemCost e fed)
    (hunder : Under memThresh (account itemCost) fed) : Yields p e fed := by
  obtain ⟨runs, pending, hgrown, -⟩ := h.only.grown
  have hruns : e.runs = [] := by
    by_contra hne
    exact h.spilled hne hunder
  exact yields_of_leaf hgrown.assembling.reader hruns (h.unspilled hruns).2.1

theorem Feeding.yields_of_reached (h : Feeding p memThresh itemCost e fed)
    (hreached : ¬ Under memThresh (account itemCost) fed) : Yields p e (fed.mergeSort p.le) := by
  obtain ⟨runs, pending, hgrown, -⟩ := h.only.grown
  have hruns : e.runs ≠ [] := fun hnil => hreached (h.unspilled hnil).1
  obtain ⟨e', heq, -, hflipped⟩ := hgrown.assembling.flip
  have hy := h.drains.2
  rw [heq] at hy
  exact hy.of_flip h.flipped hruns heq hflipped

/-- An engine accepts all items that it is fed.  If it is flipped before it is read, they come out
in order.  If it is read at once, they do so when some first items of them reached the threshold, so
that something was spilled; otherwise they come out as they were fed.  So they come out in order
only if they were fed in order, or there were enough of them.  If the threshold and any cost fit into
a word together, there are enough if all of them cost as much as the threshold. -/
theorem yields_of_fed (p : Policy α) [Std.TransCmp p.compare] (memThresh : Nat)
    (itemCost : α → Nat) (items : List α) :
    ∃ e out, Engine.feedAll p items (new memThresh itemCost) = ⟨e, .ok (), []⟩ ∧
      Drains p e (items.mergeSort p.le) ∧ Yields p e out ∧
      (Under memThresh (account itemCost) items ∧ out = items ∨
        ¬ Under memThresh (account itemCost) items ∧ out = items.mergeSort p.le) ∧
      (out.Pairwise (p.le · ·) ↔
        items.Pairwise (p.le · ·) ∨ ¬ Under memThresh (account itemCost) items) ∧
      (Fits memThresh itemCost items → (Under memThresh (account itemCost) items ↔
        items = [] ∨ (items.map itemCost).sum < memThresh)) := by
  obtain ⟨e, heq, h⟩ := (Feeding.fresh memThresh itemCost).feedAll (p := p) items
  rw [List.nil_append] at h
  by_cases hunder : Under memThresh (account itemCost) items
  · refine ⟨e, items, heq, h.drains, h.yields_of_under hunder, .inl ⟨hunder, rfl⟩, ?_,
      under_iff_of_fits⟩
    exact ⟨.inl, fun hor => hor.resolve_right (not_not.mpr hunder)⟩
  · refine ⟨e, _, heq, h.drains, h.yields_of_reached hunder, .inr ⟨hunder, rfl⟩, ?_,
      under_iff_of_fits⟩
    exact ⟨fun _ => .inr hunder, fun _ => Policy.pairwise_mergeSort items⟩

end

/-- Of the same two items the one that was fed first comes out first if the threshold is high, and
the lesser one if it is low, or if the engine is flipped before. -/
theorem fed_two_unsorted :
    ∃ e e' : Engine Nat,
      feedAll ⟨compare, 8, []⟩ [2, 1] (new 100 fun _ => 1) = ⟨e, .ok (), []⟩ ∧
      feedAll ⟨compare, 8, []⟩ [2, 1] (new 2 fun _ => 1) = ⟨e', .ok (), []⟩ ∧
      (∀ out, Yields ⟨compare, 8, []⟩ e out ↔ out = [2, 1]) ∧
      (∀ out, Yields ⟨compare, 8, []⟩ e' out ↔ out = [1, 2]) ∧
      Drains ⟨compare, 8, []⟩ e [1, 2] := by
  have hmerge : [2, 1].mergeSort (Policy.le ⟨compare, 8, []⟩) = [1, 2] := by
    have hgt : Policy.le (⟨compare, 8, []⟩ : Policy Nat) 2 1 = false := rfl
    simp [List.mergeSort, hgt]
  obtain ⟨e, heq, h⟩ :=
    (Feeding.fresh 100 fun _ => 1).feedAll (p := (⟨compare, 8, []⟩ : Policy Nat)) [2, 1]
  obtain ⟨e', heq', h'⟩ :=
    (Feeding.fresh 2 fun _ => 1).feedAll (p := (⟨compare, 8, []⟩ : Policy Nat)) [2, 1]
  have hdrains := h.drains
  have hyields := h.yields_of_under (under_of_price_lt (by decide))
  have hyields' := h'.yields_of_reached fun hunder =>
    absurd (hunder 2 (by decide) (by decide)) (by decide)
  rw [List.nil_append, hmerge] at hdrains
  rw [List.nil_append] at hyields
  rw [List.nil_append, hmerge] at hyields'
  exact ⟨e, e', heq, heq', fun out => hyields.iff_eq, fun out => hyields'.iff_eq, hdrains⟩

/-- Three numbers that reach the threshold come out in order when they are read at once. -/
theorem yields_of_fed_spilled :
    ∃ (e : Engine Nat) (out : List Nat),
      feedAll ⟨compare, 8, []⟩ [3, 1, 2] (new 3 fun _ => 1) = ⟨e, .ok (), []⟩ ∧
      Yields ⟨compare, 8, []⟩ e out ∧ out.Pairwise (Policy.le ⟨compare, 8, []⟩ · ·) := by
  obtain ⟨e, out, heq, -, hyields, -, hiff, hsum⟩ :=
    yields_of_fed (⟨compare, 8, []⟩ : Policy Nat) 3 (fun _ => 1) [3, 1, 2]
  have hroom : 3 + 1 < wordLimit := by decide
  have hreached : ¬ Under 3 (account fun _ => 1) [3, 1, 2] := fun hunder =>
    absurd ((hsum fun _ _ => hroom).mp hunder) (by decide)
  exact ⟨e, out, heq, hyields, hiff.mpr (.inr hreached)⟩

end ObjectSystem.Sorting.Engine
