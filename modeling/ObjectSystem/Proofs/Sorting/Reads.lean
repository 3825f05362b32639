import ObjectSystem.Proofs.Sorting.Refill

/-! # Reading

`readAll` asks an engine for its least item again and again, to take it or only to see it, and
`answers` is what a list of items answers to the same requests.  An engine that is ready answers
like one list, whatever is asked of it (`readAll_eq`): a list in order, which rearranges what is
due from the engine. -/

namespace ObjectSystem.Sorting

variable {α : Type}

/-- What is asked of an engine that is read. -/
inductive Read
  | fetch
  | peek
  deriving DecidableEq, Repr

/-- What a list of items answers: its first item, which a fetch takes away. -/
def answers : List α → List Read → List (Option α)
  | _, [] => []
  | items, .fetch :: rs => items.head? :: answers items.tail rs
  | items, .peek :: rs => items.head? :: answers items rs

namespace Engine

/-- Asks an engine for its least item. -/
def read (p : Policy α) : Read → Step (Engine α) (Option α)
  | .fetch => fetch p
  | .peek => peek p

/-- Asks an engine for its least item again and again. -/
def readAll (p : Policy α) : List Read → Step (Engine α) (List (Option α))
  | [] => pure []
  | r :: rs => do return (← read p r) :: (← readAll p rs)

/-- Whatever is asked of the engine is answered as `items` answer it. -/
def Yields (p : Policy α) (e : Engine α) (items : List α) : Prop :=
  ∀ rs, (readAll p rs e).answer = .ok (answers items rs)

/-- Once the engine is flipped, it is read as `items`. -/
def Drains (p : Policy α) (e : Engine α) (items : List α) : Prop :=
  (flip p e).answer = .ok () ∧ Yields p (flip p e).state items

theorem readAll_cons {p : Policy α} {r : Read} {e e' : Engine α} {x : Option α} {es : List Event}
    (h : read p r e = ⟨e', .ok x, es⟩) (rs : List Read) :
    (readAll p (r :: rs) e).answer = (readAll p rs e').answer.map (x :: ·) := by
  rw [readAll, Step.bind_apply, h]
  show ((readAll p rs >>= fun xs => pure (x :: xs)) e').answer = _
  rw [Step.bind_apply]
  rcases readAll p rs e' with ⟨s, (stop | xs), es'⟩ <;> rfl

theorem eq_of_answers_eq {items items' : List α}
    (h : ∀ rs, answers items rs = answers items' rs) : items = items' := by
  induction items generalizing items' with
  | nil =>
    have hnone : none = items'.head? := (List.cons.inj (h [.peek])).1
    exact (List.head?_eq_none_iff.mp hnone.symm).symm
  | cons x items ih =>
    have hsome : some x = items'.head? := (List.cons.inj (h [.peek])).1
    obtain ⟨rest, rfl⟩ := List.head?_eq_some_iff.mp hsome.symm
    have hrest : ∀ rs, answers items rs = answers rest rs :=
      fun rs => (List.cons.inj (h (.fetch :: rs))).2
    rw [ih hrest]

theorem Yields.unique {p : Policy α} {e : Engine α} {items items' : List α} (h : Yields p e items)
    (h' : Yields p e items') : items = items' :=
  eq_of_answers_eq fun rs => Except.ok.inj ((h rs).symm.trans (h' rs))

theorem Yields.iff_eq {p : Policy α} {e : Engine α} {items items' : List α} (h : Yields p e items) :
    Yields p e items' ↔ items' = items := by
  constructor
  · intro h'
    exact h'.unique h
  · rintro rfl
    exact h

/-! ### Getting ready -/

theorem prepareRead_of_flipped {p : Policy α} {e : Engine α} (h : e.flipped = true ∨ e.runs = []) :
    prepareRead p e = ⟨{ e with draining := true }, .ok (), []⟩ := by
  rcases h with h | h
  · simp [prepareRead, h]
  · simp [prepareRead, h]

theorem ready_of_buffered {p : Policy α} {e : Engine α} (h : e.flipped = true ∨ e.runs = [])
    (hb : 0 < e.buffered) : ready p e = ⟨{ e with draining := true }, .ok true, []⟩ := by
  have ht : ¬ e.buffer.slots.length ≤ e.tick := by
    unfold Core.buffered at hb
    omega
  rw [ready, prepareRead_of_flipped h, Outcome.bind_ok_nil, if_neg ht]

theorem ready_of_used_up {p : Policy α} {e e' : Engine α} {n : Nat} {es : List Event}
    (h : e.flipped = true ∨ e.runs = []) (hb : e.buffered = 0)
    (hrefill : refill p { e with draining := true } = ⟨e', .ok n, es⟩) :
    ready p e = ⟨e', .ok (decide (0 < n)), es⟩ := by
  have ht : e.buffer.slots.length ≤ e.tick := by
    unfold Core.buffered at hb
    omega
  rw [ready, prepareRead_of_flipped h, Outcome.bind_ok_nil, if_pos ht, hrefill, Outcome.bind_ok,
    List.append_nil]

theorem read_of_ready {p : Policy α} {e e' : Engine α} {found : Bool} {es : List Event}
    (h : ready p e = ⟨e', .ok found, es⟩) :
    peek p e = ⟨e', .ok (if found then head? e' else none), es⟩ ∧
      fetch p e =
        ⟨if found then dropHead e' else e', .ok (if found then head? e' else none), es⟩ := by
  constructor
  · simp [peek, h]
  · cases found <;> simp [fetch, h]

/-! ### The head of the buffer -/

theorem slots_of_live {e : Engine α} {x : α} {items : List α} (h : e.window = e.live.map some)
    (hl : e.live = x :: items) : e.buffer.slots.drop e.tick = some x :: items.map some := by
  rwa [hl] at h

theorem head?_of_live {e : Engine α} {x : α} {items : List α} (h : e.window = e.live.map some)
    (hl : e.live = x :: items) : head? e = some x := by
  have : (e.buffer.slots.drop e.tick)[0]? = some (some x) := by rw [slots_of_live h hl]; rfl
  rw [List.getElem?_drop] at this
  rw [head?, show e.buffer.slots[e.tick]? = some (some x) from this]
  rfl

theorem live_dropHead {e : Engine α} {x : α} {items : List α} (h : e.window = e.live.map some)
    (hl : e.live = x :: items) :
    (dropHead e).window = items.map some ∧ (dropHead e).live = items := by
  have hw : (dropHead e).window = items.map some := by
    show List.drop (e.tick + 1) (e.buffer.slots.set e.tick none) = _
    rw [List.drop_set_of_lt (by omega), ← List.drop_drop, slots_of_live h hl]
    rfl
  exact ⟨hw, Core.live_eq hw⟩

theorem due_dropHead {e : Engine α} {x : α} {items : List α} (h : e.window = e.live.map some)
    (hl : e.live = x :: items) : e.due = x :: (dropHead e).due := by
  rw [due_eq, due_eq, hl, (live_dropHead h hl).2]
  rfl

/-! ### Answering from the buffer -/

section

variable {p : Policy α} {e : Engine α}

theorem readAll_of_ready {e' : Engine α} {es : List Event} (h : ready p e = ⟨e', .ok true, es⟩)
    (h' : ready p e' = ⟨e', .ok true, []⟩) (rs : List Read) :
    (readAll p rs e').answer = (readAll p rs e).answer := by
  have hp := read_of_ready h
  have hp' := read_of_ready h'
  cases rs with
  | nil => rfl
  | cons r rs =>
    cases r with
    | fetch => rw [readAll_cons (r := .fetch) hp'.2, ← readAll_cons (r := .fetch) hp.2]
    | peek => rw [readAll_cons (r := .peek) hp'.1, ← readAll_cons (r := .peek) hp.1]

theorem Yields.of_ready {e' : Engine α} {items : List α} {es : List Event}
    (h : ready p e = ⟨e', .ok true, es⟩) (h' : ready p e' = ⟨e', .ok true, []⟩)
    (hy : Yields p e' items) : Yields p e items :=
  fun rs => (readAll_of_ready h h' rs).symm.trans (hy rs)

theorem ready_again (h : e.flipped = true ∨ e.runs = []) (hd : e.draining = true)
    (hb : 0 < e.buffered) : ready p e = ⟨e, .ok true, []⟩ := by
  have he : ({ e with draining := true } : Engine α) = e := by
    rcases e with ⟨core, runs⟩
    show (⟨{ core with draining := true }, runs⟩ : Engine α) = ⟨core, runs⟩
    rw [← show core.draining = true from hd]
  rw [ready_of_buffered h hb, he]

theorem buffered_pos {x : α} {items : List α} (h : e.window = e.live.map some)
    (hl : e.live = x :: items) : 0 < e.buffered := by
  rw [Core.buffered_eq h, hl]
  exact Nat.succ_pos _

/-- The first item in the buffer is answered until it is taken. -/
theorem Yields.cons {x : α} {items rest : List α} (hy : Yields p (dropHead e) rest)
    (h : e.flipped = true ∨ e.runs = []) (hw : e.window = e.live.map some)
    (hd : e.draining = true) (hl : e.live = x :: items) : Yields p e (x :: rest) := by
  obtain ⟨hpeek, hfetch⟩ := read_of_ready (ready_again (p := p) h hd (buffered_pos hw hl))
  simp only [if_true, head?_of_live hw hl] at hpeek hfetch
  intro rs
  induction rs with
  | nil => rfl
  | cons r rs ih =>
    cases r with
    | fetch =>
      rw [readAll_cons (r := .fetch) hfetch, hy rs]
      rfl
    | peek =>
      rw [readAll_cons (r := .peek) hpeek, ih]
      rfl

end

section

variable {p : Policy α} {steady : Prop} {e : Engine α}

theorem due_setDraining (e : Engine α) : ({ e with draining := true } : Engine α).due = e.due := by
  rw [due_eq, due_eq]
  rfl

theorem portions_setDraining (e : Engine α) (c : α) :
    ({ e with draining := true } : Engine α).portions p c = e.portions p c := by
  rw [portions_eq, portions_eq]
  rfl

theorem Ready.setDraining (h : Ready p steady e) : Ready p steady { e with draining := true } :=
  h.of_sublist rfl rfl h.window_eq (List.Sublist.refl _)

variable [Std.TransCmp p.compare]

/-- Getting ready to be read makes the least item, if there is one, the first in the buffer. -/
theorem Ready.ready_eq (h : Ready p steady e) (hr : e.reader = none) :
    ∃ e' es, ready p e = ⟨e', .ok (!e'.live.isEmpty), es⟩ ∧ Ready p steady e' ∧
      e'.reader = none ∧ e'.draining = true ∧ p.Rearranges steady e'.due e.due ∧
      (∀ c, e'.portions p c = e.portions p c) ∧ (e'.live = [] → e.due = []) := by
  by_cases hb : 0 < e.buffered
  · have hlive : e.live ≠ [] := List.length_pos_iff.mp (h.buffered_eq ▸ hb)
    refine ⟨{ e with draining := true }, [], ?_, h.setDraining, hr, rfl,
      due_setDraining e ▸ .refl _, portions_setDraining e, fun h0 => absurd h0 hlive⟩
    have hfound : (!({ e with draining := true } : Engine α).live.isEmpty) = true := by
      show (!e.live.isEmpty) = true
      simpa using hlive
    rw [ready_of_buffered (.inl h.flipped_eq) hb, hfound]
  · have h' := h.setDraining
    obtain ⟨e', n, es, heq, hrefilled⟩ := refill_ready h' (by show e.buffered = 0; omega)
    obtain ⟨hready, hdue, hportions⟩ := hrefilled.same (.inr hr)
    rw [due_setDraining] at hdue
    have hr' : e'.reader = none := by
      have := hrefilled.reader
      rw [show ({ e with draining := true } : Engine α).reader = none from hr] at this
      simpa using this
    refine ⟨e', es, ?_, hready, hr', hrefilled.draining, hdue,
      fun c => (hportions c).trans (portions_setDraining e c), fun h0 => ?_⟩
    · rw [ready_of_used_up (.inl h.flipped_eq) (by omega) heq, hrefilled.answer]
      cases e'.live <;> simp
    · rw [← due_setDraining]
      exact hrefilled.none_due (by rw [hrefilled.answer, h0]; rfl)

omit [Std.TransCmp p.compare] in
theorem Ready.dropHead {x : α} {items : List α} (h : Ready p steady e)
    (hl : e.live = x :: items) : Ready p steady (Engine.dropHead e) := by
  obtain ⟨hw, hlive⟩ := live_dropHead h.window_eq hl
  refine h.of_sublist rfl rfl (hw.trans (congrArg _ hlive.symm)) ?_
  show (Engine.dropHead e).live.Sublist e.live
  rw [hlive, hl]
  exact List.sublist_cons_self x items

/-! ### Reading once -/

theorem Ready.peek_eq (h : Ready p steady e) (hr : e.reader = none) :
    ∃ e' item es, Engine.peek p e = ⟨e', .ok item, es⟩ ∧ Ready p steady e' ∧ e'.reader = none ∧
      p.Rearranges steady e'.due e.due := by
  obtain ⟨e', es, heq, hready, hr', -, hdue, -, -⟩ := h.ready_eq hr
  exact ⟨e', _, es, (read_of_ready heq).1, hready, hr', hdue⟩

/-- A fetch takes one item out of what is due. -/
theorem Ready.fetch_eq (h : Ready p steady e) (hr : e.reader = none) :
    ∃ e' item es, Engine.fetch p e = ⟨e', .ok item, es⟩ ∧ Ready p steady e' ∧ e'.reader = none ∧
      p.Rearranges steady (item.toList ++ e'.due) e.due := by
  obtain ⟨e', es, heq, hready, hr', -, hdue, -, -⟩ := h.ready_eq hr
  have hfetch := (read_of_ready heq).2
  cases hl : e'.live with
  | nil =>
    rw [hl] at hfetch
    exact ⟨e', none, es, hfetch, hready, hr', hdue⟩
  | cons x items =>
    rw [hl] at hfetch
    refine ⟨Engine.dropHead e', some x, es, ?_, hready.dropHead hl, hr', ?_⟩
    · rw [hfetch, ← head?_of_live hready.window_eq hl]
      rfl
    · rw [Option.toList_some, List.singleton_append, ← due_dropHead hready.window_eq hl]
      exact hdue

/-! ### Reading on -/

/-- An engine from which nothing is due answers nothing, and goes on doing so. -/
theorem Ready.yields_nil (h : Ready p steady e) (hr : e.reader = none) (hdue : e.due = []) :
    Yields p e [] := by
  intro rs
  induction rs generalizing e with
  | nil => cases e; rfl
  | cons r rs ih =>
    obtain ⟨e', es, heq, hready, hr', -, hdue', -, -⟩ := h.ready_eq hr
    have hnil : e'.due = [] := (hdue ▸ hdue'.perm.symm).nil_eq.symm
    have hlive : e'.live = [] := by
      rw [due_eq] at hnil
      exact (List.append_eq_nil_iff.mp hnil).1
    rw [hlive] at heq
    have hread : read p r e = ⟨e', .ok none, es⟩ := by
      obtain ⟨hpeek, hfetch⟩ := read_of_ready heq
      cases r
      · exact hfetch
      · exact hpeek
    rw [readAll_cons hread, ih hready hr' hnil]
    cases r <;> rfl

omit [Std.TransCmp p.compare] in
theorem Ready.portions_dropHead {x c : α} {items : List α} (h : Ready p steady e)
    (hl : e.live = x :: items) :
    (e.portions p c).flatten =
      [x].filter (p.tied c) ++ ((Engine.dropHead e).portions p c).flatten := by
  have hlater : (Engine.dropHead e).later p c = e.later p c := rfl
  rw [portions_eq, portions_eq, flatten_lead, flatten_lead, hl, (live_dropHead h.window_eq hl).2,
    hlater, ← List.append_assoc, ← List.filter_append]
  rfl

/-- An engine that is ready answers like one list in order, which rearranges what is due.  Ties
come portion by portion. -/
theorem Ready.readAll_eq (h : Ready p steady e) (hr : e.reader = none) :
    ∃ out, out.Pairwise (p.le · ·) ∧ p.Rearranges steady out e.due ∧
      (∀ c, out.filter (p.tied c) = (e.portions p c).flatten) ∧ Yields p e out := by
  generalize hn : e.due.length = n
  induction n generalizing e with
  | zero =>
    have hdue := List.eq_nil_of_length_eq_zero hn
    refine ⟨[], .nil, hdue ▸ .refl _, fun c => ?_, h.yields_nil hr hdue⟩
    have hnone : e.portions p c = [] := portions_eq_nil e (by rw [hdue]; rfl)
    rw [hnone]
    rfl
  | succ n ih =>
    obtain ⟨e', es, heq, hready, hr', hd', hdue', hportions, hnil⟩ := h.ready_eq hr
    cases hl : e'.live with
    | nil =>
      rw [hnil hl] at hn
      cases hn
    | cons x items =>
      have hcons := due_dropHead hready.window_eq hl
      have hlen : (Engine.dropHead e').due.length = n := by
        have := hdue'.perm.length_eq
        rw [hcons, hn, List.length_cons] at this
        omega
      obtain ⟨out, hsorted, hout, hties, hy⟩ := ih (hready.dropHead hl) hr' hlen
      have hle : ∀ y ∈ out, p.le x y := by
        intro y hy
        have hmem : y ∈ e'.due := by
          rw [hcons]
          exact List.mem_cons_of_mem _ (hout.perm.mem_iff.mp hy)
        rw [due_eq, List.mem_append, hl, List.mem_cons] at hmem
        rcases hmem with (rfl | hmem) | hmem
        · exact Policy.le_refl _
        · have hrow := hready.live_sorted
          rw [hl] at hrow
          exact List.rel_of_pairwise_cons hrow hmem
        · exact (hready.live_precedes x (by simp [hl]) y hmem).1
      have hfound : ready p e = ⟨e', .ok true, es⟩ := by
        rw [heq, hl]
        rfl
      refine ⟨x :: out, hsorted.cons hle, ?_, fun c => ?_, ?_⟩
      · refine Policy.Rearranges.trans ?_ hdue'
        rw [hcons]
        exact (Policy.Rearranges.refl [x]).append hout
      · rw [← hportions, hready.portions_dropHead hl, ← hties, ← List.filter_append]
        rfl
      · have hf : e'.flipped = true ∨ e'.runs = [] := .inl hready.flipped_eq
        have hagain := ready_again (p := p) hf hd' (buffered_pos hready.window_eq hl)
        exact (hy.cons hf hready.window_eq hd' hl).of_ready hfound hagain

end

end Engine

end ObjectSystem.Sorting
