import ObjectSystem.Proofs.Sorting.Strict
import ObjectSystem.Proofs.Sorting.Reads

/-! # Phases

An engine is put together first and read afterwards, and a call that comes out of its phase is
refused.  Which calls those are is said by `Call.refusal`, from four things alone: how many items
were fetched, whether the engine was read at all, whether it is flipped, and how many items it has
buffered.

`Called p e taken read` says that an engine came about by calls in any order, those that were
refused among them, over any items, readers and runs: `taken` are the items that were fetched, and
`read` tells whether it was read.  The invariant of such engines is `Coherent`, which ties together
what the guards of the calls look at.  The main statement is `refused_of_called`: a call is refused
exactly by the rule, and then leaves the engine as it was; no call stops in any other way, so
neither a spill while an item is fed nor the flip with which reading begins is ever refused. -/

namespace ObjectSystem.Sorting.Engine

variable {α : Type}

/-! ### Calls -/

/-- What can be asked of an engine. -/
inductive Call (α : Type)
  | feed (x : α)
  | sortBuffer
  | flush
  | flip
  | addRun (r : Engine α)
  | fetch
  | peek
  | refill
  | clearBuffer
  | growBuffer (n : Nat)
  | shrink
  | setMemThresh (bytes : Nat)
  | setItemCost (cost : α → Nat)

/-- How far an engine has come. -/
structure Stage where
  /-- How many items were fetched. -/
  fetched : Nat
  /-- A fetch, a peek or a refill took place. -/
  read : Bool
  flipped : Bool
  /-- How many items are buffered. -/
  buffered : Nat

namespace Call

/-- The run that is to be adopted. -/
def adopted : Call α → Option (Engine α)
  | addRun r => some r
  | _ => none

/-- Whether reading begins with the call. -/
def isRead : Call α → Bool
  | fetch | peek | refill => true
  | _ => false

/-- Why a call is refused, if it is. -/
def refusal (s : Stage) : Call α → Option Fault
  | feed _ =>
    if 0 < s.fetched then some (.feedAfterFetch s.fetched)
    else if s.flipped then some .feedAfterFlip
    else none
  | sortBuffer => if 0 < s.fetched then some (.sortAfterFetch s.fetched) else none
  | flush => if 0 < s.fetched ∧ 0 < s.buffered then some (.sortAfterFetch s.fetched) else none
  | flip =>
    if 0 < s.fetched ∧ 0 < s.buffered ∧ s.flipped = false then some (.sortAfterFetch s.fetched)
    else none
  | addRun _ => if s.read then some (.addRunAfterFetch s.fetched) else none
  | refill => if 0 < s.buffered then some (.refillNotEmpty s.buffered) else none
  | fetch | peek | clearBuffer | growBuffer _ | shrink | setMemThresh _ | setItemCost _ => none

end Call

/-- Carries out a call that hands over no item. -/
def silent {β : Type} (x : Step (Engine α) β) : Step (Engine α) (Option α) := do
  let _ ← x
  pure none

/-- Carries out a call.  Answers the item that is handed over, if one is. -/
def perform (p : Policy α) : Call α → Step (Engine α) (Option α)
  | .feed x => silent (feed p x)
  | .sortBuffer => silent (sortBuffer p)
  | .flush => silent (flush p)
  | .flip => silent (flip p)
  | .addRun r => silent (addRun p r)
  | .fetch => fetch p
  | .peek => silent (peek p)
  | .refill => silent (refill p)
  | .clearBuffer => silent clearBuffer
  | .growBuffer n => silent (growBuffer n)
  | .shrink => silent shrink
  | .setMemThresh bytes => silent (setMemThresh bytes)
  | .setItemCost cost => silent (setItemCost cost)

/-- The engine after some calls, one after another. -/
def after (p : Policy α) : List (Call α) → Engine α → Engine α
  | [], e => e
  | c :: cs, e => after p cs (perform p c e).state

/-- The items that an answer hands over. -/
def handed : Except Stop (Option α) → List α
  | .ok item => item.toList
  | .error _ => []

/-- The engines that come about by calls, refused or not, with the items that were fetched and
whether they were read. -/
inductive Called (p : Policy α) : Engine α → (taken : List α) → (read : Bool) → Prop
  | new (memThresh : Nat) (itemCost : α → Nat) : Called p (Engine.new memThresh itemCost) [] false
  | fromSorted (memThresh : Nat) (itemCost : α → Nat) (items : List α) :
      Called p (Engine.fromSorted memThresh itemCost items) [] false
  | fromReader (memThresh : Nat) (itemCost : α → Nat) (reader : Reader α) :
      Called p (Engine.fromReader memThresh itemCost reader) [] false
  | call {e : Engine α} {taken : List α} {read : Bool} (c : Call α) (called : Called p e taken read)
      (alone : c.adopted = none) :
      Called p (perform p c e).state (taken ++ handed (perform p c e).answer)
        (read || c.isRead && (perform p c e).answer.isOk)
  | adopt {e r : Engine α} {taken taken' : List α} {read read' : Bool}
      (called : Called p e taken read) (run : Called p r taken' read') :
      Called p (Engine.addRun p r e).state taken read

/-! ### The invariant -/

/-- What holds of an engine whatever was called on it.  Before anything is fetched all slots hold
items; an engine that is not flipped has no reader, and if something was fetched from it then no
runs; and what was fetched was read. -/
structure Coherent (e : Engine α) : Prop where
  intact : Intact e
  untouched : e.fetched = 0 → e.tick = 0
  feeding : e.flipped = false → e.reader = none ∧ (0 < e.fetched → e.runs = [])
  unread : e.draining = false → e.fetched = 0

/-- The engine as it was, as far as phases go. -/
structure SamePhase (e' e : Engine α) : Prop where
  fetched : e'.fetched = e.fetched
  draining : e'.draining = e.draining
  flipped : e'.flipped = e.flipped

/-! ### Calls that are refused -/

section

variable {p : Policy α} {e : Engine α}

theorem feed_refused_of_fetched {x : α} (h : 0 < e.fetched) :
    feed p x e = Step.fault (.feedAfterFetch e.fetched) e := by
  rw [feed, if_pos h]

theorem feed_refused_of_flipped {x : α} (h : ¬ 0 < e.fetched) (hf : e.flipped = true) :
    feed p x e = Step.fault .feedAfterFlip e := by
  rw [feed, if_neg h, if_pos hf]

theorem sortBuffer_refused (h : 0 < e.fetched) :
    sortBuffer p e = Step.fault (.sortAfterFetch e.fetched) e := by
  rw [sortBuffer, if_pos (.inl h)]

theorem flush_refused (h : 0 < e.fetched) (hb : 0 < e.buffered) :
    flush p e = Step.fault (.sortAfterFetch e.fetched) e := by
  rw [flush, if_neg (by omega), sortBuffer_refused h]
  rfl

theorem flip_refused (h : 0 < e.fetched) (hb : 0 < e.buffered) (hf : e.flipped = false) :
    flip p e = Step.fault (.sortAfterFetch e.fetched) e := by
  rw [flip, if_neg (by simp [hf]), flush_refused h hb]
  rfl

theorem addRun_refused {r : Engine α} (h : e.draining = true) :
    addRun p r e = Step.fault (.addRunAfterFetch e.fetched) e := by
  rw [addRun, if_pos h]

theorem refill_refused (h : 0 < e.buffered) :
    refill p e = Step.fault (.refillNotEmpty e.buffered) e := by
  rcases e with ⟨core, runs⟩
  rw [refill, if_pos h]

/-- The stage of an engine, as far as it can tell. -/
def stage (e : Engine α) : Stage := ⟨e.fetched, e.draining, e.flipped, e.buffered⟩

theorem silent_fault {β : Type} {x : Step (Engine α) β} {f : Fault}
    (h : x e = Step.fault f e) : silent x e = Step.fault f e := by
  rw [silent, Step.bind_apply, h]
  rfl

/-- A call that is refused changes nothing. -/
theorem perform_refused {c : Call α} {f : Fault} (h : c.refusal e.stage = some f) :
    perform p c e = ⟨e, .error (.fault f), [.faulted f]⟩ := by
  show perform p c e = Step.fault f e
  cases c with
  | feed x =>
    apply silent_fault
    simp only [Call.refusal] at h
    by_cases hpos : 0 < e.stage.fetched
    · rw [if_pos hpos] at h
      rw [feed_refused_of_fetched hpos, ← Option.some.inj h]
      rfl
    · rw [if_neg hpos] at h
      obtain ⟨hflipped, hf⟩ := Option.ite_none_right_eq_some.mp h
      rw [feed_refused_of_flipped hpos hflipped, ← Option.some.inj hf]
  | sortBuffer =>
    apply silent_fault
    obtain ⟨hpos, hf⟩ := Option.ite_none_right_eq_some.mp h
    rw [sortBuffer_refused hpos, ← Option.some.inj hf]
    rfl
  | flush =>
    apply silent_fault
    obtain ⟨⟨hpos, hb⟩, hf⟩ := Option.ite_none_right_eq_some.mp h
    rw [flush_refused hpos hb, ← Option.some.inj hf]
    rfl
  | flip =>
    apply silent_fault
    obtain ⟨⟨hpos, hb, hflipped⟩, hf⟩ := Option.ite_none_right_eq_some.mp h
    rw [flip_refused hpos hb hflipped, ← Option.some.inj hf]
    rfl
  | addRun r =>
    apply silent_fault
    obtain ⟨hread, hf⟩ := Option.ite_none_right_eq_some.mp h
    rw [addRun_refused hread, ← Option.some.inj hf]
    rfl
  | refill =>
    apply silent_fault
    obtain ⟨hb, hf⟩ := Option.ite_none_right_eq_some.mp h
    rw [refill_refused hb, ← Option.some.inj hf]
    rfl
  | fetch | peek | clearBuffer | growBuffer | shrink | setMemThresh | setItemCost => cases h

end

namespace Coherent

variable {p : Policy α} {e : Engine α}

theorem buffered_eq (h : Coherent e) : e.buffered = e.live.length := h.intact.filled.buffered

theorem of_filled (h : Coherent e) {core : Core α} (hfilled : core.Filled)
    (ht : core.fetched = 0 → core.tick = 0) (hf : core.fetched = e.fetched)
    (hd : core.draining = e.draining) (hflip : core.flipped = e.flipped)
    (hr : core.reader = e.reader) : Coherent ⟨core, e.runs⟩ := by
  constructor
  · exact h.intact.of_filled hfilled
  · exact ht
  · intro hn
    obtain ⟨hreader, hruns⟩ := h.feeding (hflip ▸ hn)
    exact ⟨hr.trans hreader, fun hpos => hruns (hf ▸ hpos)⟩
  · intro hn
    exact hf.trans (h.unread (hd ▸ hn))

theorem congr (h : Coherent e) {core : Core α} (hs : core.buffer.slots = e.buffer.slots)
    (ht : core.tick = e.tick) (hscratch : core.scratch.slots = e.scratch.slots)
    (hf : core.fetched = e.fetched) (hd : core.draining = e.draining)
    (hflip : core.flipped = e.flipped) (hr : core.reader = e.reader) :
    Coherent ⟨core, e.runs⟩ :=
  h.of_filled (h.intact.filled.congr hs ht hscratch)
    (fun h0 => ht.trans (h.untouched (hf.symm.trans h0))) hf hd hflip hr

theorem setDraining (h : Coherent e) : Coherent { e with draining := true } := by
  constructor
  · exact h.intact.of_filled (h.intact.filled.congr rfl rfl rfl)
  · exact h.untouched
  · exact h.feeding
  · intro hn
    cases hn

theorem setFlipped (h : Coherent e) : Coherent { e with flipped := true } := by
  constructor
  · exact h.intact.of_filled (h.intact.filled.congr rfl rfl rfl)
  · exact h.untouched
  · intro hn
    cases hn
  · exact h.unread

/-! ### Feeding -/

theorem push (h : Coherent e) (h0 : e.fetched = 0) (x : α) : Coherent (Engine.push p x e) :=
  h.of_filled (h.intact.push x).filled (fun _ => h.untouched h0) rfl rfl rfl rfl

theorem sorted (h : Coherent e) (h0 : e.fetched = 0) : Coherent (Engine.sorted p e) :=
  h.of_filled (h.intact.sorted (h.untouched h0)).filled (fun _ => h.untouched h0) rfl rfl rfl rfl

theorem clear (h : Coherent e) : Coherent { e with toCore := e.toCore.clear } :=
  h.of_filled h.intact.clear.filled (fun _ => rfl) rfl rfl rfl rfl

theorem spill (h : Coherent e) (h0 : e.fetched = 0) : Coherent (Engine.spill e) := by
  constructor
  · exact h.intact.spill (h.untouched h0)
  · intro _
    rfl
  · intro hn
    exact ⟨(h.feeding hn).1, fun hpos => absurd h0 (Nat.ne_of_gt hpos)⟩
  · exact h.unread

theorem shrunk (h : Coherent e) : Coherent (Engine.shrunk e) ∧ SamePhase (Engine.shrunk e) e := by
  have hintact := h.intact.shrunk
  rcases e with ⟨core, runs⟩
  rw [Engine.shrunk] at hintact ⊢
  refine ⟨⟨hintact, fun _ => rfl, fun hn => ?_, h.unread⟩, ⟨rfl, rfl, rfl⟩⟩
  obtain ⟨hreader, hruns⟩ := h.feeding hn
  refine ⟨hreader, fun hpos => ?_⟩
  have hnone : runs = [] := hruns hpos
  subst hnone
  rfl

theorem sortBuffer_eq (h : Coherent e) (h0 : e.fetched = 0) :
    Engine.sortBuffer p e = ⟨Engine.sorted p e, .ok (), []⟩ :=
  sortBuffer_of_untaken h0 (h.untouched h0)

theorem flush_eq (h : Coherent e) (h0 : e.fetched = 0 ∨ e.buffered = 0) :
    ∃ e', Engine.flush p e = ⟨e', .ok (), []⟩ ∧ Coherent e' ∧ SamePhase e' e := by
  by_cases hb : e.buffered = 0
  · exact ⟨_, flush_of_empty hb, h.clear, ⟨rfl, rfl, rfl⟩⟩
  · have hzero : e.fetched = 0 := h0.resolve_right hb
    exact ⟨_, flush_of_untaken hzero (h.untouched hzero) hb, (h.sorted hzero).spill hzero,
      ⟨rfl, rfl, rfl⟩⟩

theorem flip_eq (h : Coherent e)
    (h0 : e.fetched = 0 ∨ e.buffered = 0 ∨ e.flipped = true) :
    ∃ e', Engine.flip p e = ⟨e', .ok (), []⟩ ∧ Coherent e' ∧ e'.fetched = e.fetched ∧
      e'.draining = e.draining ∧ e'.flipped = true := by
  by_cases hf : e.flipped = true
  · exact ⟨e, by rw [Engine.flip, if_pos hf], h, rfl, rfl, hf⟩
  · have hflush : e.fetched = 0 ∨ e.buffered = 0 := by
      rcases h0 with h0 | h0 | h0
      · exact .inl h0
      · exact .inr h0
      · exact absurd h0 hf
    obtain ⟨e', heq, h', hsame⟩ := h.flush_eq (p := p) hflush
    exact ⟨_, flip_of_flush hf heq, h'.setFlipped, hsame.fetched, hsame.draining, rfl⟩

theorem feed_eq (h : Coherent e) (h0 : e.fetched = 0) (hf : e.flipped = false) (x : α) :
    ∃ e', Engine.feed p x e = ⟨e', .ok (), []⟩ ∧ Coherent e' ∧ SamePhase e' e := by
  have hpush := h.push (p := p) h0 x
  rw [feed_of_open h0 hf]
  split
  · obtain ⟨e', heq, h', hsame⟩ := hpush.flush_eq (p := p) (.inl h0)
    exact ⟨e', heq, h', ⟨hsame.fetched, hsame.draining, hsame.flipped⟩⟩
  · exact ⟨Engine.push p x e, rfl, hpush, ⟨rfl, rfl, rfl⟩⟩

/-! ### Adopting -/

theorem freeze_eq (h : Coherent e) :
    ∃ e', Engine.freeze p e = ⟨e', .ok (), []⟩ ∧ Intact e' := by
  by_cases hdone : e.flipped = true ∨ 0 < e.fetched
  · exact ⟨e, by rw [Engine.freeze, if_pos hdone], h.intact⟩
  · have h0 : e.fetched = 0 := by
      rw [not_or] at hdone
      omega
    rw [Engine.freeze, if_neg hdone]
    by_cases hleaf : e.runs.isEmpty ∧ e.reader.isNone
    · refine ⟨{ Engine.sorted p e with flipped := true }, ?_, (h.sorted h0).setFlipped.intact⟩
      rw [if_pos hleaf, h.sortBuffer_eq h0]
      rfl
    · obtain ⟨e', heq, h', -⟩ := h.flip_eq (p := p) (.inl h0)
      exact ⟨e', by rw [if_neg hleaf, heq], h'.intact⟩

theorem addRun_eq (h : Coherent e) {r : Engine α} (hr : Coherent r) (hd : e.draining = false) :
    ∃ e', Engine.addRun p r e = ⟨e', .ok (), []⟩ ∧ Coherent e' ∧ SamePhase e' e := by
  obtain ⟨r', heq, hr'⟩ := hr.freeze_eq (p := p)
  refine ⟨{ e with runs := e.runs ++ [r'] }, ?_, ?_, ⟨rfl, rfl, rfl⟩⟩
  · exact addRun_of_unread (by simp [hd]) heq
  · constructor
    · exact h.intact.append hr'
    · exact h.untouched
    · intro hn
      exact ⟨(h.feeding hn).1, fun hpos => absurd (h.unread hd) (Nat.ne_of_gt hpos)⟩
    · exact h.unread

/-! ### Reading -/

/-- Reading has begun, and an engine that is not flipped has no runs. -/
structure Begun (e' e : Engine α) : Prop where
  coherent : Coherent e'
  fetched : e'.fetched = e.fetched
  draining : e'.draining = true
  settled : e'.flipped = false → e'.runs = []

theorem refilled (h : Coherent e) {e' : Engine α} (hintact : Intact e') (hframed : Framed e' e) :
    Coherent e' := by
  constructor
  · exact hintact
  · intro _
    exact hframed.tick
  · intro hflipped
    obtain ⟨hreader, hruns⟩ := h.feeding (hframed.flipped ▸ hflipped)
    have hnone := hframed.reader
    rw [hreader] at hnone
    exact ⟨by simpa using hnone, fun hpos => hframed.runs (hruns (hframed.fetched ▸ hpos))⟩
  · intro hd
    rw [hframed.draining] at hd
    cases hd

theorem Begun.dropHead {e' : Engine α} (h : Begun e' e) {x : α} {items : List α}
    (hl : e'.live = x :: items) : Coherent (Engine.dropHead e') := by
  constructor
  · exact h.coherent.intact.dropHead hl
  · intro h0
    cases h0
  · intro hn
    exact ⟨(h.coherent.feeding hn).1, fun _ => h.settled hn⟩
  · intro hn
    have hd : e'.draining = false := hn
    rw [h.draining] at hd
    cases hd

theorem refill_eq (h : Coherent e) (hb : e.buffered = 0) :
    ∃ e' n es, Engine.refill p e = ⟨e', .ok n, es⟩ ∧ n = e'.buffered ∧ Coherent e' ∧
      Framed e' e := by
  obtain ⟨e', n, es, heq, hn, hintact, hframed⟩ := refill_intact (p := p) h.intact hb
  exact ⟨e', n, es, heq, hn, h.refilled hintact hframed, hframed⟩

/-- The flip with which the reading of an engine with runs begins is not refused: if something was
fetched from the engine before it was flipped, it has no runs. -/
theorem prepareRead_eq (h : Coherent e) :
    ∃ e', prepareRead p e = ⟨e', .ok (), []⟩ ∧ Begun e' e := by
  by_cases hdone : e.flipped = true ∨ e.runs = []
  · refine ⟨_, prepareRead_of_flipped hdone, h.setDraining, rfl, rfl, fun hn => ?_⟩
    rcases hdone with hf | hruns
    · rw [show e.flipped = false from hn] at hf
      cases hf
    · exact hruns
  · rw [not_or, Bool.not_eq_true] at hdone
    have h0 : e.fetched = 0 := by
      by_contra hne
      exact hdone.2 ((h.feeding hdone.1).2 (Nat.pos_of_ne_zero hne))
    obtain ⟨e', heq, h', hf, hd, hflipped⟩ := h.setDraining.flip_eq (p := p) (.inl h0)
    refine ⟨e', ?_, h', hf, hd, fun hn => ?_⟩
    · rw [prepareRead, ← heq]
      simp [hdone]
    · rw [hflipped] at hn
      cases hn

theorem ready_eq (h : Coherent e) :
    ∃ e' es, ready p e = ⟨e', .ok (decide (0 < e'.buffered)), es⟩ ∧ Begun e' e := by
  obtain ⟨e₁, heq, hbegun⟩ := h.prepareRead_eq (p := p)
  have hused : e₁.buffer.slots.length ≤ e₁.tick ↔ e₁.buffered = 0 := by
    rw [Core.buffered]
    omega
  by_cases hb : e₁.buffered = 0
  · obtain ⟨e', n, es, heq', hn, h', hframed⟩ := hbegun.coherent.refill_eq (p := p) hb
    refine ⟨e', es, ?_, h', hframed.fetched.trans hbegun.fetched, hframed.draining, fun hf => ?_⟩
    · rw [ready, heq, Outcome.bind_ok_nil, if_pos (hused.mpr hb), heq', Outcome.bind_ok, hn,
        List.append_nil]
    · exact hframed.runs (hbegun.settled (hframed.flipped ▸ hf))
  · refine ⟨e₁, [], ?_, hbegun⟩
    rw [ready, heq, Outcome.bind_ok_nil, if_neg (mt hused.mp hb),
      decide_eq_true (Nat.pos_of_ne_zero hb)]

theorem peek_eq (h : Coherent e) :
    ∃ e' item es, Engine.peek p e = ⟨e', .ok item, es⟩ ∧ Begun e' e := by
  obtain ⟨e', es, heq, hbegun⟩ := h.ready_eq (p := p)
  exact ⟨e', _, es, (read_of_ready heq).1, hbegun⟩

/-- An item is fetched, unless there is none left. -/
theorem fetch_eq (h : Coherent e) :
    ∃ e' item es, Engine.fetch p e = ⟨e', .ok item, es⟩ ∧ Coherent e' ∧
      e'.fetched = e.fetched + item.toList.length ∧ e'.draining = true := by
  obtain ⟨e', es, heq, hbegun⟩ := h.ready_eq (p := p)
  have hfetch := (read_of_ready heq).2
  have hfilled := hbegun.coherent.intact.filled
  cases hl : e'.live with
  | nil =>
    have hb : ¬ 0 < e'.buffered := by
      rw [hfilled.buffered, hl]
      exact Nat.lt_irrefl 0
    rw [decide_eq_false hb] at hfetch
    exact ⟨e', none, es, hfetch, hbegun.coherent, hbegun.fetched, hbegun.draining⟩
  | cons x items =>
    rw [decide_eq_true (buffered_pos hfilled.window hl)] at hfetch
    simp only [if_true, head?_of_live hfilled.window hl] at hfetch
    exact ⟨dropHead e', some x, es, hfetch, hbegun.dropHead hl, congrArg (· + 1) hbegun.fetched,
      hbegun.draining⟩

/-! ### Calls that are carried out -/

/-- What becomes of an engine when a call is carried out that hands over an item, or none. -/
structure Carried (c : Call α) (item : Option α) (e' e : Engine α) : Prop where
  coherent : Coherent e'
  fetched : e'.fetched = e.fetched + item.toList.length
  draining : e'.draining = (e.draining || c.isRead)

theorem silent_ok {β : Type} {x : Step (Engine α) β} {e' : Engine α} {b : β} {es : List Event}
    (h : x e = ⟨e', .ok b, es⟩) : silent x e = ⟨e', .ok none, es⟩ := by
  rw [silent, Step.bind_apply, h]
  exact congrArg (fun es => (⟨e', .ok none, es⟩ : Outcome (Engine α) (Option α)))
    (List.append_nil es)

theorem Carried.still {c : Call α} {e' : Engine α} (h : Coherent e') (hs : SamePhase e' e)
    (hc : c.isRead = false) : Carried c none e' e := by
  constructor
  · exact h
  · exact hs.fetched
  · rw [hs.draining, hc, Bool.or_false]

/-- A call that is not refused is carried out. -/
theorem perform (h : Coherent e) {c : Call α} (hc : c.refusal e.stage = none)
    (hr : ∀ r, c.adopted = some r → Coherent r) :
    ∃ e' item es, Engine.perform p c e = ⟨e', .ok item, es⟩ ∧ Carried c item e' e := by
  cases c with
  | feed x =>
    have h0 : ¬ 0 < e.stage.fetched := fun hpos => by simp [Call.refusal, hpos] at hc
    have hf : e.stage.flipped = false := by simpa [Call.refusal, h0] using hc
    obtain ⟨e', heq, h', hsame⟩ := h.feed_eq (p := p) (Nat.eq_zero_of_not_pos h0) hf x
    exact ⟨e', none, [], silent_ok heq, .still h' hsame rfl⟩
  | sortBuffer =>
    have h0 : e.stage.fetched = 0 := by simpa [Call.refusal] using hc
    exact ⟨_, none, [], silent_ok (h.sortBuffer_eq h0), .still (h.sorted h0) ⟨rfl, rfl, rfl⟩ rfl⟩
  | flush =>
    have h0 : 0 < e.stage.fetched → e.stage.buffered = 0 := by simpa [Call.refusal] using hc
    have hfree : e.fetched = 0 ∨ e.buffered = 0 :=
      (Nat.eq_zero_or_pos e.fetched).imp_right h0
    obtain ⟨e', heq, h', hsame⟩ := h.flush_eq (p := p) hfree
    exact ⟨e', none, [], silent_ok heq, .still h' hsame rfl⟩
  | flip =>
    have h0 : 0 < e.stage.fetched → 0 < e.stage.buffered → e.stage.flipped = true := by
      simpa [Call.refusal] using hc
    have hfree : e.fetched = 0 ∨ e.buffered = 0 ∨ e.flipped = true :=
      (Nat.eq_zero_or_pos e.fetched).imp_right fun hpos =>
        (Nat.eq_zero_or_pos e.buffered).imp_right (h0 hpos)
    obtain ⟨e', heq, h', hf, hd, -⟩ := h.flip_eq (p := p) hfree
    exact ⟨e', none, [], silent_ok heq, h', hf, hd.trans (Bool.or_false _).symm⟩
  | addRun r =>
    have hd : e.stage.read = false := by simpa [Call.refusal] using hc
    obtain ⟨e', heq, h', hsame⟩ := h.addRun_eq (p := p) (hr r rfl) hd
    exact ⟨e', none, [], silent_ok heq, .still h' hsame rfl⟩
  | fetch =>
    obtain ⟨e', item, es, heq, h', hf, hd⟩ := h.fetch_eq (p := p)
    exact ⟨e', item, es, heq, h', hf, hd.trans (Bool.or_true _).symm⟩
  | peek =>
    obtain ⟨e', item, es, heq, hbegun⟩ := h.peek_eq (p := p)
    exact ⟨e', none, es, silent_ok heq, hbegun.coherent, hbegun.fetched,
      hbegun.draining.trans (Bool.or_true _).symm⟩
  | refill =>
    have hb : e.stage.buffered = 0 := by simpa [Call.refusal] using hc
    obtain ⟨e', n, es, heq, -, h', hframed⟩ := h.refill_eq (p := p) hb
    exact ⟨e', none, es, silent_ok heq, h', hframed.fetched,
      hframed.draining.trans (Bool.or_true _).symm⟩
  | clearBuffer => exact ⟨_, none, [], rfl, .still h.clear ⟨rfl, rfl, rfl⟩ rfl⟩
  | growBuffer n =>
    have h' : Coherent { e with buffer := e.buffer.grow n } := h.congr rfl rfl rfl rfl rfl rfl rfl
    exact ⟨_, none, [], rfl, .still h' ⟨rfl, rfl, rfl⟩ rfl⟩
  | shrink => exact ⟨_, none, [], rfl, .still h.shrunk.1 h.shrunk.2 rfl⟩
  | setMemThresh bytes =>
    have h' : Coherent { e with memThresh := bytes } := h.congr rfl rfl rfl rfl rfl rfl rfl
    exact ⟨_, none, [], rfl, .still h' ⟨rfl, rfl, rfl⟩ rfl⟩
  | setItemCost cost =>
    have h' : Coherent { e with itemCost := cost } := h.congr rfl rfl rfl rfl rfl rfl rfl
    exact ⟨_, none, [], rfl, .still h' ⟨rfl, rfl, rfl⟩ rfl⟩

end Coherent

/-! ### Engines and their history -/

section

variable {p : Policy α} {e : Engine α} {taken : List α} {read : Bool}

/-- Whatever was called on an engine, it is coherent, and knows how many items were fetched and
whether it was read. -/
theorem Called.coherent (h : Called p e taken read) :
    Coherent e ∧ e.fetched = taken.length ∧ e.draining = read := by
  induction h with
  | new memThresh itemCost =>
    refine ⟨⟨.leaf (.of_untouched [] rfl rfl rfl), fun _ => rfl, fun _ => ?_, fun _ => rfl⟩, rfl, rfl⟩
    exact ⟨rfl, fun _ => rfl⟩
  | fromSorted memThresh itemCost items =>
    refine ⟨⟨.leaf (.of_untouched items rfl rfl rfl), fun _ => rfl, fun hn => ?_, fun _ => rfl⟩, rfl,
      rfl⟩
    cases hn
  | fromReader memThresh itemCost reader =>
    refine ⟨⟨.leaf (.of_untouched [] rfl rfl rfl), fun _ => rfl, fun hn => ?_, fun _ => rfl⟩, rfl,
      rfl⟩
    cases hn
  | @call e taken read c called alone ih =>
    obtain ⟨hcoherent, hfetched, hread⟩ := ih
    cases hc : c.refusal e.stage with
    | some f =>
      rw [perform_refused hc]
      refine ⟨hcoherent, ?_, ?_⟩
      · show e.fetched = (taken ++ []).length
        rw [List.append_nil, hfetched]
      · show e.draining = (read || c.isRead && false)
        rw [Bool.and_false, Bool.or_false, hread]
    | none =>
      obtain ⟨e', item, es, heq, hcarried⟩ := hcoherent.perform (p := p) hc (by simp [alone])
      rw [heq]
      refine ⟨hcarried.coherent, ?_, ?_⟩
      · rw [hcarried.fetched, hfetched, List.length_append]
        rfl
      · rw [hcarried.draining, hread]
        exact congrArg (read || ·) (Bool.and_true _).symm
  | @adopt e r taken taken' read read' called run ih ih' =>
    obtain ⟨hcoherent, hfetched, hread⟩ := ih
    cases hd : e.draining with
    | true =>
      rw [addRun_refused hd]
      exact ⟨hcoherent, hfetched, hread⟩
    | false =>
      obtain ⟨e', heq, h', hsame⟩ := hcoherent.addRun_eq (p := p) ih'.1 hd
      rw [heq]
      exact ⟨h', hsame.fetched.trans hfetched, hsame.draining.trans hread⟩

/-- Calls are refused by their phase and by nothing else.  Whatever was called on an engine before,
a call for which there is a reason to be refused stops with that reason and leaves the engine
exactly as it was; every other call is carried out, unless it is to adopt something that is not an
engine that came about by calls. -/
theorem refused_of_called (h : Called p e taken read) (c : Call α) :
    (∀ f, c.refusal ⟨taken.length, read, e.flipped, e.live.length⟩ = some f →
      perform p c e = ⟨e, .error (.fault f), [.faulted f]⟩) ∧
    (c.refusal ⟨taken.length, read, e.flipped, e.live.length⟩ = none →
      (∀ r, c.adopted = some r → ∃ taken' read', Called p r taken' read') →
      ∃ item, (perform p c e).answer = .ok item) := by
  obtain ⟨hcoherent, hfetched, hread⟩ := h.coherent
  have hstage : e.stage = ⟨taken.length, read, e.flipped, e.live.length⟩ := by
    rw [stage, hfetched, hread, hcoherent.buffered_eq]
  rw [← hstage]
  constructor
  · intro f hf
    exact perform_refused hf
  · intro hc hr
    obtain ⟨e', item, es, heq, -⟩ := hcoherent.perform (p := p) hc fun r hadopted => by
      obtain ⟨taken', read', hcalled⟩ := hr r hadopted
      exact hcalled.coherent.1
    exact ⟨item, by rw [heq]⟩

end

/-- From a leaf over 1 and 4 the 1 was fetched.  It can be fed nothing and cannot be flushed any
more, or refilled before the 4 is gone; it can be flipped again, and adopted. -/
theorem refused_of_called_opened :
    ∃ e : Engine Nat, Called ⟨compare, 8, []⟩ e [1] true ∧
      perform ⟨compare, 8, []⟩ (.feed 7) e =
        ⟨e, .error (.fault (.feedAfterFetch 1)), [.faulted (.feedAfterFetch 1)]⟩ ∧
      perform ⟨compare, 8, []⟩ .flush e =
        ⟨e, .error (.fault (.sortAfterFetch 1)), [.faulted (.sortAfterFetch 1)]⟩ ∧
      perform ⟨compare, 8, []⟩ .refill e =
        ⟨e, .error (.fault (.refillNotEmpty 1)), [.faulted (.refillNotEmpty 1)]⟩ ∧
      (∃ item, (perform ⟨compare, 8, []⟩ .flip e).answer = .ok item) ∧
      ∃ item, (perform ⟨compare, 8, []⟩ (.addRun e) (new 100 fun _ => 1)).answer = .ok item := by
  have opened : Called (⟨compare, 8, []⟩ : Policy Nat) _ [1] true :=
    (Called.fromSorted 100 (fun _ => 1) [1, 4]).call .fetch rfl
  have empty : Called (⟨compare, 8, []⟩ : Policy Nat) _ [] false := .new 100 fun _ => 1
  refine ⟨_, opened, ?_, ?_, ?_, ?_, ?_⟩
  · exact (refused_of_called opened (.feed 7)).1 _ rfl
  · exact (refused_of_called opened .flush).1 _ rfl
  · exact (refused_of_called opened .refill).1 _ rfl
  · exact (refused_of_called opened .flip).2 rfl fun r h => by cases h
  · refine (refused_of_called empty (.addRun _)).2 rfl fun r h => ?_
    obtain rfl := Option.some.inj h
    exact ⟨_, _, opened⟩

end ObjectSystem.Sorting.Engine
