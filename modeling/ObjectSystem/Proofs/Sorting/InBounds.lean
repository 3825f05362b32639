import ObjectSystem.Proofs.Sorting.Phases

/-! # Staying in bounds

No call reads a slot outside a row, takes an item out of an empty slot, or meets a run whose last
item is missing.  `Reached cut p e` says that an engine came about by calls, with runs, readers and
items of any kind, where runs are cut by `cut`: their items may be in any order, so all that is
known of the cut is that it lies within the window.

The calls are carried out by index (`strictPerform`), which gives nothing where an index is out of
bounds.  `in_bounds_of_reached` says that they always give something, and that all engines of the
tree have their items in place in between. -/

namespace ObjectSystem.Sorting.Engine

variable {α : Type}

/-! ### Calls by index -/

mutual

/-- Gives back spare room, in the engine and in all of its runs. -/
def strictShrunk (e : Engine α) : Option (Engine α) :=
  match e with
  | ⟨core, runs⟩ => do
    let n ← core.counted core.buffered
    let (_, rest) ← halves core.tick core.buffer.slots
    let runs ← strictShrunkAll runs
    some ⟨{ core with buffer := ⟨rest, n⟩, tick := 0, scratch := {} }, runs⟩

/-- Gives back spare room in a row of runs. -/
def strictShrunkAll : List (Engine α) → Option (List (Engine α))
  | [] => some []
  | r :: rs => do
    let r ← strictShrunk r
    let rs ← strictShrunkAll rs
    some (r :: rs)

end

/-- Sees to it that something is buffered.  Answers whether anything is. -/
def strictReady (cut : Cut α) (p : Policy α) (e : Engine α) : Option (Outcome (Engine α) Bool) :=
  Outcome.bindStrict (e.counted (prepareRead p e)) fun _ e =>
    if e.buffer.slots.length ≤ e.tick then
      Outcome.bindStrict (strictRefill cut p e) fun n e => some ⟨e, .ok (0 < n), []⟩
    else some ⟨e, .ok true, []⟩

/-- Answers the item in the first slot that was not emptied, and goes on with `after`.  If anything
is buffered, there has to be such a slot, and an item in it. -/
def strictRead (after : Engine α → Engine α) (cut : Cut α) (p : Policy α) (e : Engine α) :
    Option (Outcome (Engine α) (Option α)) :=
  Outcome.bindStrict (strictReady cut p e) fun found e =>
    if found then do
      let x ← head? e
      some ⟨after e, .ok (some x), []⟩
    else some ⟨e, .ok none, []⟩

/-- Forgets an answer. -/
def quiet {β : Type} (o : Outcome (Engine α) β) : Outcome (Engine α) (Option α) :=
  o.bind fun _ e => ⟨e, .ok none, []⟩

/-- Carries out a call by index.  The calls that read no slot by its index still count what is
buffered, in the engine or in the one that is adopted. -/
def strictPerform (cut : Cut α) (p : Policy α) (c : Call α) (e : Engine α) :
    Option (Outcome (Engine α) (Option α)) :=
  match c with
  | .fetch => strictRead dropHead cut p e
  | .peek => (strictRead id cut p e).map quiet
  | .refill => (strictRefill cut p e).map quiet
  | .shrink => (strictShrunk e).map fun e => ⟨e, .ok none, []⟩
  | .addRun r => r.counted (perform p (.addRun r) e)
  | c => e.counted (perform p c e)

/-- The engines that come about by calls, whatever these answer. -/
inductive Reached (cut : Cut α) (p : Policy α) : Engine α → Prop
  | new (memThresh : Nat) (itemCost : α → Nat) : Reached cut p (Engine.new memThresh itemCost)
  | fromSorted (memThresh : Nat) (itemCost : α → Nat) (items : List α) :
      Reached cut p (Engine.fromSorted memThresh itemCost items)
  | fromReader (memThresh : Nat) (itemCost : α → Nat) (reader : Reader α) :
      Reached cut p (Engine.fromReader memThresh itemCost reader)
  | call {e : Engine α} {o : Outcome (Engine α) (Option α)} (c : Call α) (reached : Reached cut p e)
      (adopted : ∀ r, c.adopted = some r → Reached cut p r)
      (done : strictPerform cut p c e = some o) : Reached cut p o.state

/-- `Within r e`: `r` is an engine of the tree of `e`. -/
inductive Within : Engine α → Engine α → Prop
  | self (e : Engine α) : Within e e
  | run {e r s : Engine α} (adopted : r ∈ e.runs) (within : Within s r) : Within s e

/-- Between calls the items of an engine are in place: exactly the slots before `tick` are empty,
the scratch row is cleared, and a slice that is cut off the window consists of its first items. -/
structure InPlace (cut : Cut α) (p : Policy α) (e : Engine α) : Prop where
  tick_le : e.tick ≤ e.buffer.slots.length
  emptied : ∀ i, (hi : i < e.buffer.slots.length) → (e.buffer.slots[i] = none ↔ i < e.tick)
  scratch : e.scratch.slots = []
  slice : ∀ post, cutSize cut p post e ≤ e.live.length ∧
    takeFront (cutSize cut p post e) e =
      some ((e.live.take (cutSize cut p post e)).map some, dropFront (cutSize cut p post e) e)

variable {cut : Cut α} {p : Policy α} {e r : Engine α}

/-! ### Intact trees -/

theorem Intact.within (h : Intact e) (hr : Within r e) : Intact r := by
  induction hr with
  | self => exact h
  | run adopted _ ih => exact ih (h.runs_intact _ adopted)

theorem Intact.inPlace (h : Intact e) : InPlace cut p e := by
  have hslots := h.filled.slots
  constructor
  · rw [hslots]
    simp
  · intro i hi
    simp only [hslots]
    by_cases hlt : i < e.tick
    · simp [hlt]
    · rw [List.getElem_append_right (by simpa using hlt)]
      simp [hlt]
  · exact h.filled.scratch
  · intro post
    have hle := cutSize_le (p := p) cut post e
    refine ⟨?_, ?_⟩
    · rw [← h.filled.buffered, ← Core.length_window]
      exact hle
    · rw [takeFront_eq h hle, front, h.filled.window, List.map_take]

theorem strictShrunk_eq (h : Intact e) : strictShrunk e = some (shrunk e) := by
  induction h with
  | @mk core runs filled runs_intact ih =>
    have hall : strictShrunkAll runs = some (shrunkAll runs) := by
      clear runs_intact
      induction runs with
      | nil => rfl
      | cons r rs ihs =>
        obtain ⟨hr, hrs⟩ := List.forall_mem_cons.mp ih
        rw [strictShrunkAll, hr, ihs hrs]
        rfl
    have hhalves : halves core.tick core.buffer.slots =
        some (core.buffer.slots.take core.tick, core.window) := by
      refine if_pos ?_
      rw [filled.slots]
      simp
    rw [strictShrunk, filled.counted, hhalves, hall]
    rfl

/-! ### Coherent engines -/

namespace Coherent

theorem strictReady_eq (cut : Cut α) (h : Coherent e) :
    ∃ e' es, Agrees cut (strictReady cut p e) (ready p e)
      ⟨e', .ok (decide (0 < e'.buffered)), es⟩ ∧ Begun e' e := by
  obtain ⟨e₁, heq, hbegun⟩ := h.prepareRead_eq (p := p)
  have hcount : e.counted (prepareRead p e) = some ⟨e₁, .ok (), []⟩ := by
    rw [h.intact.filled.counted, heq]
  by_cases hused : e₁.buffer.slots.length ≤ e₁.tick
  · have hb : e₁.buffered = 0 := by
      rw [Core.buffered]
      omega
    obtain ⟨e', n, es, hagree, hn, hintact, hframed⟩ :=
      strictRefill_eq (p := p) cut hbegun.coherent.intact hb
    refine ⟨e', es, ⟨?_, fun hcut => ?_⟩, hbegun.coherent.refilled hintact hframed,
      hframed.fetched.trans hbegun.fetched, hframed.draining, fun hf => ?_⟩
    · refine Outcome.bindStrict_of_ok hcount ?_
      rw [if_pos hused, ← List.append_nil es]
      exact Outcome.bindStrict_of_ok hagree.strict_eq (by rw [hn])
    · rw [ready, heq, Outcome.bind_ok_nil, if_pos hused, hagree.plain_eq hcut, Outcome.bind_ok, hn,
        List.append_nil]
    · exact hframed.runs (hbegun.settled (hframed.flipped ▸ hf))
  · have hb : decide (0 < e₁.buffered) = true := by
      rw [Core.buffered]
      exact decide_eq_true (by omega)
    refine ⟨e₁, [], ⟨?_, fun _ => ?_⟩, hbegun⟩
    · refine Outcome.bindStrict_of_ok hcount ?_
      rw [if_neg hused, hb]
    · rw [ready, heq, Outcome.bind_ok_nil, if_neg hused, hb]

/-- Reading by index hands over the item that is handed over without. -/
theorem strictRead_eq (cut : Cut α) (h : Coherent e) {after : Engine α → Engine α}
    {plain : Outcome (Engine α) (Option α)}
    (hafter : ∀ {e' x items}, Begun e' e → e'.live = x :: items → Coherent (after e'))
    (hplain : ∀ {e' found es}, ready p e = ⟨e', .ok found, es⟩ →
      plain = ⟨if found then after e' else e', .ok (if found then head? e' else none), es⟩) :
    ∃ e' item es, Agrees cut (strictRead after cut p e) plain ⟨e', .ok item, es⟩ ∧ Coherent e' := by
  obtain ⟨e', es, hagree, hbegun⟩ := h.strictReady_eq (p := p) cut
  have hfilled := hbegun.coherent.intact.filled
  cases hl : e'.live with
  | nil =>
    have hb : ¬ 0 < e'.buffered := by
      rw [hfilled.buffered, hl]
      exact Nat.lt_irrefl 0
    rw [decide_eq_false hb] at hagree
    refine ⟨e', none, es, ⟨?_, fun hcut => hplain (hagree.plain_eq hcut)⟩, hbegun.coherent⟩
    rw [← List.append_nil es]
    exact Outcome.bindStrict_of_ok hagree.strict_eq rfl
  | cons x items =>
    have hhead := head?_of_live hfilled.window hl
    rw [decide_eq_true (buffered_pos hfilled.window hl)] at hagree
    refine ⟨after e', some x, es, ⟨?_, fun hcut => ?_⟩, hafter hbegun hl⟩
    · rw [← List.append_nil es]
      refine Outcome.bindStrict_of_ok hagree.strict_eq ?_
      rw [if_pos rfl, hhead]
      rfl
    · rw [hplain (hagree.plain_eq hcut), if_pos rfl, if_pos rfl, hhead]

end Coherent

/-! ### All calls -/

theorem Agrees.quiet {β : Type} {strict : Option (Outcome (Engine α) β)}
    {plain : Step (Engine α) β} {e e' : Engine α} {b : β} {es : List Event}
    (h : Agrees cut strict (plain e) ⟨e', .ok b, es⟩) :
    Agrees cut (strict.map Engine.quiet) (silent plain e) ⟨e', .ok none, es⟩ := by
  constructor
  · rw [h.strict_eq]
    simp [Engine.quiet]
  · intro hcut
    exact Coherent.silent_ok (h.plain_eq hcut)

theorem strictRefill_refused (h : e.Filled) (hb : 0 < e.buffered) :
    strictRefill cut p e = some (Step.fault (.refillNotEmpty e.buffered) e) := by
  rcases e with ⟨core, runs⟩
  have hcore : 0 < core.buffered := hb
  rw [strictRefill, h.counted, Option.bind_eq_bind, Option.bind_some, if_pos hcore]

theorem Call.refusal_ne_invalidRunBuffer (c : Call α) (s : Stage) (tick max capacity : Nat) :
    c.refusal s ≠ some (.invalidRunBuffer tick max capacity) := by
  cases c with
  | feed x => rw [Call.refusal]; split_ifs <;> simp
  | _ => simp [Call.refusal]

theorem Call.refusal_refillNotEmpty {c : Call α} {s : Stage} {n : Nat}
    (h : c.refusal s = some (.refillNotEmpty n)) : c = .refill ∧ 0 < n ∧ n = s.buffered := by
  cases c with
  | refill =>
    obtain ⟨hb, hn⟩ : 0 < s.buffered ∧ s.buffered = n := by simpa [Call.refusal] using h
    exact ⟨rfl, hn ▸ hb, hn.symm⟩
  | feed x => rw [Call.refusal] at h; split_ifs at h <;> simp at h
  | _ => simp [Call.refusal] at h

/-- What becomes of a call: it is carried out, or its phase refuses it and nothing happens. -/
structure Ended (c : Call α) (e : Engine α) (o : Outcome (Engine α) (Option α)) : Prop where
  coherent : Coherent o.state
  stopped : ∀ stop, o.answer = .error stop →
    o.state = e ∧ ∃ f, stop = .fault f ∧ c.refusal e.stage = some f

theorem Ended.ok {c : Call α} {e' : Engine α} {item : Option α} {es : List Event}
    (h : Coherent e') : Ended c e ⟨e', .ok item, es⟩ :=
  ⟨h, fun _ hstop => by cases hstop⟩

theorem strictPerform_refused (h : Coherent e) {c : Call α} {f : Fault}
    (hc : c.refusal e.stage = some f) (hr : ∀ r, c.adopted = some r → Coherent r) :
    strictPerform cut p c e = some ⟨e, .error (.fault f), [.faulted f]⟩ := by
  have hplain := perform_refused (p := p) hc
  cases c with
  | fetch | peek | shrink => cases hc
  | refill =>
    obtain ⟨hb, hf⟩ := Option.ite_none_right_eq_some.mp hc
    rw [strictPerform, strictRefill_refused h.intact.filled hb, ← Option.some.inj hf]
    rfl
  | addRun r => rw [strictPerform, (hr r rfl).intact.filled.counted, hplain]
  | _ => exact (h.intact.filled.counted _).trans (congrArg some hplain)

/-- Any call can be made by index, with any cut. -/
theorem strictPerform_eq (cut : Cut α) (h : Coherent e) {c : Call α}
    (hr : ∀ r, c.adopted = some r → Coherent r) :
    ∃ o, Agrees cut (strictPerform cut p c e) (perform p c e) o ∧ Ended c e o := by
  cases hc : c.refusal e.stage with
  | some f =>
    refine ⟨_, ⟨strictPerform_refused h hc hr, fun _ => perform_refused hc⟩, h, ?_⟩
    rintro stop ⟨⟩
    exact ⟨rfl, f, rfl, hc⟩
  | none =>
    obtain ⟨e', item, es, heq, hcarried⟩ := h.perform (p := p) hc hr
    have hcounted : ∀ {s : Engine α}, Coherent s →
        Agrees cut (s.counted (perform p c e)) (perform p c e) ⟨e', .ok item, es⟩ := fun hs => by
      rw [hs.intact.filled.counted, heq]
      exact ⟨rfl, fun _ => rfl⟩
    cases c with
    | fetch =>
      obtain ⟨e', item, es, hagree, h'⟩ := h.strictRead_eq (p := p) cut
        (fun hbegun hl => hbegun.dropHead hl) (fun hready => (read_of_ready hready).2)
      exact ⟨_, hagree, .ok h'⟩
    | peek =>
      have hpeek : ∀ {e' : Engine α} {found es}, ready p e = ⟨e', .ok found, es⟩ →
          Engine.peek p e =
            ⟨if found then id e' else e', .ok (if found then head? e' else none), es⟩ :=
        fun hready => by rw [(read_of_ready hready).1, id, ite_self]
      obtain ⟨e', item, es, hagree, h'⟩ := h.strictRead_eq (p := p) cut
        (fun hbegun _ => hbegun.coherent) hpeek
      exact ⟨_, hagree.quiet, .ok h'⟩
    | refill =>
      have hb : e.stage.buffered = 0 := by simpa [Call.refusal] using hc
      obtain ⟨e', n, es, hagree, -, hintact, hframed⟩ := strictRefill_eq (p := p) cut h.intact hb
      exact ⟨_, hagree.quiet, .ok (h.refilled hintact hframed)⟩
    | shrink =>
      refine ⟨⟨Engine.shrunk e, .ok none, []⟩, ⟨?_, fun _ => rfl⟩, .ok h.shrunk.1⟩
      rw [strictPerform, strictShrunk_eq h.intact]
      rfl
    | addRun r => exact ⟨_, hcounted (hr r rfl), .ok hcarried.coherent⟩
    | _ => exact ⟨_, hcounted h, .ok hcarried.coherent⟩

theorem Reached.coherent (h : Reached cut p e) : Coherent e := by
  induction h with
  | new memThresh itemCost => exact (Called.new (p := p) memThresh itemCost).coherent.1
  | fromSorted memThresh itemCost items =>
    exact (Called.fromSorted (p := p) memThresh itemCost items).coherent.1
  | fromReader memThresh itemCost reader =>
    exact (Called.fromReader (p := p) memThresh itemCost reader).coherent.1
  | @call e o c _ _ done ih ihr =>
    obtain ⟨o', hagree, hended⟩ := strictPerform_eq (p := p) cut ih ihr
    obtain rfl : o = o' := Option.some.inj (done.symm.trans hagree.strict_eq)
    exact hended.coherent

/-- Whatever was called on an engine, with whatever runs and readers, and however runs were cut: in
all engines of its tree the items are in place, and every call can be made without an index out of
bounds and without an empty slot taken for an item.  With the engine's own way to cut, what the call
does is `perform`.  No call stops because a run has no last item; only a refill that is asked for
directly stops because something is buffered; and a call that stops is one that its phase refuses,
and has changed nothing. -/
theorem in_bounds_of_reached (h : Reached cut p e) :
    (∀ r, Within r e → InPlace cut p r) ∧
    ∀ c : Call α, (∀ r, c.adopted = some r → Reached cut p r) →
      ∃ o, strictPerform cut p c e = some o ∧
        (cut = .halving → perform p c e = o) ∧
        (∀ tick max capacity,
          o.answer ≠ .error (.fault (.invalidRunBuffer tick max capacity))) ∧
        (∀ n, o.answer = .error (.fault (.refillNotEmpty n)) →
          c = .refill ∧ 0 < n ∧ n = e.buffered) ∧
        ∀ stop, o.answer = .error stop →
          o.state = e ∧ ∃ f, stop = .fault f ∧ c.refusal e.stage = some f := by
  refine ⟨fun r hr => (h.coherent.intact.within hr).inPlace, fun c hr => ?_⟩
  obtain ⟨o, hagree, hended⟩ := strictPerform_eq (p := p) cut h.coherent fun r hadopted =>
    (hr r hadopted).coherent
  refine ⟨o, hagree.strict_eq, hagree.plain_eq, ?_, ?_, hended.stopped⟩
  · intro tick max capacity hstop
    obtain ⟨-, f, hf, hc⟩ := hended.stopped _ hstop
    cases hf
    exact c.refusal_ne_invalidRunBuffer _ _ _ _ hc
  · intro n hstop
    obtain ⟨-, f, hf, hc⟩ := hended.stopped _ hstop
    cases hf
    exact Call.refusal_refillNotEmpty hc

/-- Runs are cut at their ends.  One is read from a reader in batches that are out of order, with
counts that are not true; it is adopted by an engine that is then read. -/
theorem in_bounds_of_reached_unsorted :
    ∃ (cut : Cut Nat) (e : Engine Nat), Reached cut ⟨compare, 8, []⟩ e ∧ e.runs.length = 1 ∧
      (∀ r, Within r e → InPlace cut ⟨compare, 8, []⟩ r) ∧
      ∃ o, strictPerform cut ⟨compare, 8, []⟩ .fetch e = some o ∧
        ∀ n, o.answer ≠ .error (.fault (.refillNotEmpty n)) := by
  let cut : Cut Nat := ⟨fun _ row => row.length, fun _ _ => Nat.le_refl _⟩
  let reader : Reader Nat := ⟨[⟨[3, 1], 7⟩, ⟨[2], 0⟩]⟩
  have served : Reached cut ⟨compare, 8, []⟩ (fromReader 100 (fun _ => 1) reader) :=
    .fromReader 100 (fun _ => 1) reader
  have adopting : Reached cut ⟨compare, 8, []⟩ _ :=
    .call (.addRun (fromReader 100 (fun _ => 1) reader)) (.new 100 fun _ => 1)
      (fun r hr => Option.some.inj hr ▸ served) rfl
  obtain ⟨hplace, hcalls⟩ := in_bounds_of_reached adopting
  obtain ⟨o, heq, -, -, hrefill, -⟩ := hcalls .fetch fun r hr => by cases hr
  refine ⟨cut, _, adopting, rfl, hplace, o, heq, fun n hn => ?_⟩
  obtain ⟨hcall, -⟩ := hrefill n hn
  cases hcall

end ObjectSystem.Sorting.Engine
