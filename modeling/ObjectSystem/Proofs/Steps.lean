import ObjectSystem.World

/-! # What steps give

`x.Gives s a s'` says that the operation `x`, begun in the state `s`, answers `a` and leaves the
state `s'`.  The lemmas here take such a statement apart along the way in which an operation was
put together, so that a run that succeeds can be followed from call to call.

`x.Keeps I J S` says that the operation keeps the state in `I` and emits no event but those of `J`,
whether it succeeds or stops, and that it stops for no reason but those of `S`.

`x.Meets Q F s` says how the operation can end when it is begun in the state `s`: with an answer as
`Q` says, or for a reason as `F` says.  `x.Reaches P J Q s` says that it leaves a state of `P` in
either case, emits no event but those of `J`, and answers as `Q` says. -/

namespace ObjectSystem

namespace Step

variable {σ α β : Type} {s s' : σ} {a : α}

/-- From `s` the operation answers `a` and leaves `s'`. -/
def Gives (x : Step σ α) (s : σ) (a : α) (s' : σ) : Prop :=
  (x s).answer = .ok a ∧ (x s).state = s'

@[simp] theorem gives_bind (x : Step σ α) (f : α → Step σ β) (s s' : σ) (b : β) :
    (x >>= f).Gives s b s' ↔ ∃ a s₁, x.Gives s a s₁ ∧ (f a).Gives s₁ b s' := by
  unfold Gives
  rw [bind_apply]
  rcases h : x s with ⟨s₁, (stop | a), es⟩
  · constructor
    · rintro ⟨hanswer, -⟩
      cases hanswer
    · rintro ⟨a, s₂, ⟨hanswer, -⟩, -⟩
      cases hanswer
  · constructor
    · intro hnext
      exact ⟨a, s₁, ⟨rfl, rfl⟩, hnext⟩
    · rintro ⟨a', s₂, ⟨hanswer, hstate⟩, hnext⟩
      obtain rfl : a = a' := Except.ok.inj hanswer
      subst hstate
      exact hnext

theorem bind_of_ok {x : Step σ α} (f : α → Step σ β) (h : x s = ⟨s', .ok a, []⟩) :
    (x >>= f) s = f a s' := by
  rw [bind_apply, h]
  rfl

theorem get_bind (f : σ → Step σ α) (s : σ) : (Step.get >>= f) s = f s s := rfl

theorem gets_bind (g : σ → α) (f : α → Step σ β) (s : σ) :
    (Step.gets g >>= f) s = f (g s) s := rfl

theorem modify_bind (g : σ → σ) (f : Unit → Step σ α) (s : σ) :
    (Step.modify g >>= f) s = f () (g s) := rfl

theorem bind_of_stop {x : Step σ α} {stop : Stop} {es : List Event} (f : α → Step σ β)
    (h : x s = ⟨s', .error stop, es⟩) : (x >>= f) s = ⟨s', .error stop, es⟩ := by
  rw [bind_apply, h]
  rfl

theorem Gives.bind_apply {x : Step σ α} (h : x.Gives s a s') (f : α → Step σ β) :
    (x >>= f) s = ⟨(f a s').state, (f a s').answer, (x s).events ++ (f a s').events⟩ := by
  obtain ⟨hanswer, hstate⟩ := h
  rcases hx : x s with ⟨s₁, r, es⟩
  rw [hx] at hanswer hstate
  obtain rfl : r = .ok a := hanswer
  obtain rfl : s₁ = s' := hstate
  rw [Step.bind_apply, hx]
  rfl

theorem state_bind_of_ok {x : Step σ α} {es : List Event} (f : α → Step σ β)
    (h : x s = ⟨s', .ok a, es⟩) : ((x >>= f) s).state = (f a s').state := by
  rw [bind_apply, h]
  rfl

theorem state_bind_pure (x : Step σ α) (g : α → β) (s : σ) :
    ((do return g (← x) : Step σ β) s).state = (x s).state := by
  rcases h : x s with ⟨s', (stop | a), es⟩
  · rw [bind_of_stop _ h]
  · rw [state_bind_of_ok _ h]
    rfl

@[simp] theorem gives_pure (a b : α) (s s' : σ) :
    (pure a : Step σ α).Gives s b s' ↔ b = a ∧ s' = s := by
  simp [Gives, eq_comm]

@[simp] theorem gives_get (s a s' : σ) : Step.get.Gives s a s' ↔ a = s ∧ s' = s := by
  simp [Gives, Step.get, eq_comm]

@[simp] theorem gives_gets (f : σ → α) (s : σ) (a : α) (s' : σ) :
    (Step.gets f).Gives s a s' ↔ a = f s ∧ s' = s := by
  simp [Gives, Step.gets, eq_comm]

@[simp] theorem gives_set (t s : σ) (u : Unit) (s' : σ) : (Step.set t).Gives s u s' ↔ s' = t := by
  simp [Gives, Step.set, eq_comm]

@[simp] theorem gives_modify (f : σ → σ) (s : σ) (u : Unit) (s' : σ) :
    (Step.modify f).Gives s u s' ↔ s' = f s := by
  simp [Gives, Step.modify, eq_comm]

@[simp] theorem gives_emit (e : Event) (s : σ) (u : Unit) (s' : σ) :
    (Step.emit e).Gives s u s' ↔ s' = s := by
  simp [Gives, Step.emit, eq_comm]

@[simp] theorem not_gives_fault (f : Fault) (s : σ) (a : α) (s' : σ) :
    ¬ (Step.fault f : Step σ α).Gives s a s' := by
  simp [Gives, Step.fault]

@[simp] theorem not_gives_unfinished (s : σ) (a : α) (s' : σ) :
    ¬ (Step.unfinished : Step σ α).Gives s a s' := by
  simp [Gives, Step.unfinished]

@[simp] theorem gives_ofExcept (r : Except Fault α) (s : σ) (a : α) (s' : σ) :
    (Step.ofExcept r).Gives s a s' ↔ r = .ok a ∧ s' = s := by
  cases r with
  | error f => simp [Gives, Step.ofExcept, Step.fault]
  | ok b => simp [Gives, Step.ofExcept, eq_comm]

/-! ### What steps keep -/

/-- From states of `I` the operation leads to states of `I`, whatever it answers, all events on the
way are of `J`, and when it stops the reason is one of `S`. -/
def Keeps (I : σ → Prop) (J : Event → Prop) (S : Stop → Prop) (x : Step σ α) : Prop :=
  ∀ s, I s → I (x s).state ∧ (∀ e ∈ (x s).events, J e) ∧
    ∀ stop, (x s).answer = .error stop → S stop

section Keeps

variable {I : σ → Prop} {J : Event → Prop} {S : Stop → Prop}

theorem Keeps.bind {x : Step σ α} {g : α → Step σ β} (hx : x.Keeps I J S)
    (hg : ∀ a, (g a).Keeps I J S) : (x >>= g).Keeps I J S := by
  intro s hs
  obtain ⟨hstate, hevents, hstop⟩ := hx s hs
  rw [bind_apply]
  rcases h : x s with ⟨s₁, (stop | a), es⟩
  · rw [h] at hstate hevents hstop
    exact ⟨hstate, hevents, fun _ heq => hstop _ (congrArg Except.error (Except.error.inj heq))⟩
  · rw [h] at hstate hevents
    obtain ⟨hstate', hevents', hstop'⟩ := hg a s₁ hstate
    refine ⟨hstate', fun e he => ?_, hstop'⟩
    rcases List.mem_append.1 he with he | he
    · exact hevents e he
    · exact hevents' e he

theorem Keeps.silent {x : Step σ α} {f : σ → σ} {g : σ → α} (hx : ∀ s, x s = ⟨f s, .ok (g s), []⟩)
    (hf : ∀ s, I s → I (f s)) : x.Keeps I J S := by
  intro s hs
  rw [hx]
  refine ⟨hf s hs, fun e he => ?_, fun stop heq => ?_⟩
  · cases he
  · cases heq

theorem Keeps.pure (a : α) : (Pure.pure a : Step σ α).Keeps I J S :=
  .silent (fun _ => rfl) fun _ hs => hs

theorem Keeps.get_bind {g : σ → Step σ β} (hg : ∀ s, I s → (g s).Keeps I J S) :
    (Step.get >>= g).Keeps I J S :=
  fun s hs => hg s hs s hs

theorem Keeps.gets_bind {f : σ → α} {g : α → Step σ β} (hg : ∀ s, I s → (g (f s)).Keeps I J S) :
    (Step.gets f >>= g).Keeps I J S :=
  fun s hs => hg s hs s hs

theorem Keeps.gets (g : σ → α) : (Step.gets g).Keeps I J S := .silent (fun _ => rfl) fun _ hs => hs

theorem Keeps.set {s : σ} (hs : I s) : (Step.set s).Keeps I J S :=
  .silent (fun _ => rfl) fun _ _ => hs

theorem Keeps.modify {g : σ → σ} (hg : ∀ s, I s → I (g s)) : (Step.modify g).Keeps I J S :=
  .silent (fun _ => rfl) hg

theorem Keeps.emit {e : Event} (he : J e) : (Step.emit e).Keeps I J S := fun _ hs =>
  ⟨hs, fun _ h => List.mem_singleton.1 h ▸ he, fun stop heq => by cases heq⟩

theorem Keeps.fault {e : Fault} (he : J (.faulted e)) (hstop : S (.fault e)) :
    (Step.fault e : Step σ α).Keeps I J S := fun _ hs =>
  ⟨hs, fun _ h => List.mem_singleton.1 h ▸ he, fun _ heq => Except.error.inj heq ▸ hstop⟩

theorem Keeps.unfinished (hstop : S .unfinished) : (Step.unfinished : Step σ α).Keeps I J S :=
  fun _ hs =>
    ⟨hs, fun _ he => absurd he List.not_mem_nil, fun _ heq => Except.error.inj heq ▸ hstop⟩

theorem Keeps.ofExcept {r : Except Fault α} (hr : ∀ e, J (.faulted e) ∧ S (.fault e)) :
    (Step.ofExcept r : Step σ α).Keeps I J S := by
  cases r with
  | ok a => exact .pure a
  | error e => exact .fault (hr e).1 (hr e).2

end Keeps

/-! ### How steps end -/

/-- From `s` the operation leads to an answer and a state as `Q` says, or it stops with a reason and
in a state as `F` says. -/
def Meets (Q : α → σ → Prop) (F : Stop → σ → Prop) (x : Step σ α) (s : σ) : Prop :=
  (∀ a, (x s).answer = .ok a → Q a (x s).state) ∧
    ∀ stop, (x s).answer = .error stop → F stop (x s).state

section Meets

variable {Q : α → σ → Prop} {F : Stop → σ → Prop}

theorem Meets.mono {Q' : α → σ → Prop} {F' : Stop → σ → Prop} {x : Step σ α} (hx : x.Meets Q F s)
    (hQ : ∀ a s', Q a s' → Q' a s') (hF : ∀ stop s', F stop s' → F' stop s') : x.Meets Q' F' s :=
  ⟨fun a ha => hQ _ _ (hx.1 a ha), fun stop hstop => hF _ _ (hx.2 stop hstop)⟩

theorem Meets.bind {R : β → σ → Prop} {x : Step σ α} {g : α → Step σ β} (hx : x.Meets Q F s)
    (hg : ∀ a s', Q a s' → (g a).Meets R F s') : (x >>= g).Meets R F s := by
  unfold Meets
  rw [bind_apply]
  rcases h : x s with ⟨s₁, (stop | a), es⟩
  · have hstop := hx.2 stop
    rw [h] at hstop
    refine ⟨fun _ heq => ?_, fun _ heq => ?_⟩
    · cases heq
    · cases heq
      exact hstop rfl
  · have hanswer := hx.1 a
    rw [h] at hanswer
    exact hg a s₁ (hanswer rfl)

theorem Meets.bind_congr {x y : Step σ α} {f g : α → Step σ β} (hx : x.Meets Q F s)
    (hxy : y s = x s) (hfg : ∀ a s', Q a s' → g a s' = f a s') : (y >>= g) s = (x >>= f) s := by
  rw [bind_apply, bind_apply, hxy]
  rcases h : x s with ⟨s₁, (stop | a), es⟩
  · rfl
  · have hanswer := hx.1 a
    rw [h] at hanswer
    exact congrArg (fun o : Outcome σ β => (⟨o.state, o.answer, es ++ o.events⟩ : Outcome σ β))
      (hfg a s₁ (hanswer rfl))

theorem Meets.of_eq {x y : Step σ α} (h : x s = y s') (hy : y.Meets Q F s') : x.Meets Q F s := by
  unfold Meets
  rw [h]
  exact hy

theorem Meets.of_ok {x : Step σ α} {es : List Event} (h : x s = ⟨s', .ok a, es⟩) (hQ : Q a s') :
    x.Meets Q F s := by
  unfold Meets
  rw [h]
  refine ⟨fun _ heq => ?_, fun _ heq => ?_⟩
  · cases heq
    exact hQ
  · cases heq

theorem Meets.of_gives {x : Step σ α} (h : x.Gives s a s') (hQ : Q a s') : x.Meets Q F s := by
  unfold Meets
  rw [h.1, h.2]
  refine ⟨fun _ heq => ?_, fun _ heq => ?_⟩
  · cases heq
    exact hQ
  · cases heq

theorem Meets.of_stop {x : Step σ α} {stop : Stop} {es : List Event}
    (h : x s = ⟨s', .error stop, es⟩) (hF : F stop s') : x.Meets Q F s := by
  unfold Meets
  rw [h]
  refine ⟨fun _ heq => ?_, fun _ heq => ?_⟩
  · cases heq
  · cases heq
    exact hF

end Meets

/-- From `s` the operation leads to a state of `P`, whether it answers or stops, all events on the
way are of `J`, and an answer is as `Q` says of it and that state. -/
structure Reaches (P : σ → Prop) (J : Event → Prop) (Q : α → σ → Prop) (x : Step σ α) (s : σ) :
    Prop where
  state : P (x s).state
  events : ∀ e ∈ (x s).events, J e
  answer : ∀ a, (x s).answer = .ok a → Q a (x s).state

section Reaches

variable {P P' : σ → Prop} {J J' : Event → Prop} {Q Q' : α → σ → Prop} {x y : Step σ α}

theorem Reaches.mono (hx : x.Reaches P J Q s) (hP : ∀ s', P s' → P' s') (hJ : ∀ e, J e → J' e)
    (hQ : ∀ a s', Q a s' → Q' a s') : x.Reaches P' J' Q' s where
  state := hP _ hx.state
  events e he := hJ e (hx.events e he)
  answer a ha := hQ a _ (hx.answer a ha)

theorem Reaches.bind {R : β → σ → Prop} {g : α → Step σ β} (hx : x.Reaches P J Q s)
    (hg : ∀ a s', P s' → Q a s' → (g a).Reaches P J R s') : (x >>= g).Reaches P J R s := by
  obtain ⟨hstate, hevents, hanswer⟩ := hx
  rcases h : x s with ⟨s₁, (stop | a), es⟩
  · rw [h] at hstate hevents
    have hbind := bind_of_stop g h
    refine ⟨hbind ▸ hstate, hbind ▸ hevents, fun b hb => ?_⟩
    rw [hbind] at hb
    cases hb
  · rw [h] at hstate hevents hanswer
    have hnext := hg a s₁ hstate (hanswer a rfl)
    have hbind : (x >>= g) s = ⟨(g a s₁).state, (g a s₁).answer, es ++ (g a s₁).events⟩ := by
      rw [bind_apply, h]
      rfl
    refine ⟨hbind ▸ hnext.state, fun e he => ?_, fun b hb => ?_⟩
    · rw [hbind] at he
      exact (List.mem_append.1 he).elim (hevents e) (hnext.events e)
    · rw [hbind] at hb ⊢
      exact hnext.answer b hb

theorem Reaches.of_eq (h : x s = y s') (hy : y.Reaches P J Q s') : x.Reaches P J Q s where
  state := h ▸ hy.state
  events := h ▸ hy.events
  answer := h ▸ hy.answer

theorem Keeps.reaches {S : Stop → Prop} (h : x.Keeps P J S) (hs : P s) :
    x.Reaches P J (fun a s' => x.Gives s a s') s where
  state := (h s hs).1
  events := (h s hs).2.1
  answer _ ha := ⟨ha, rfl⟩

end Reaches

end Step

namespace World

variable {w w' : World}

@[simp] theorem gives_slotClass (t : ClassSlot) (w : World) (c : ClassId) (w' : World) :
    (slotClass t).Gives w c w' ↔ w.slots t = some c ∧ w' = w := by
  unfold Step.Gives slotClass
  cases w.slots t with
  | none => simp [Step.fault]
  | some d => simp [eq_comm]

theorem keeps_slotClass {I : World → Prop} {J : Event → Prop} {S : Stop → Prop} (t : ClassSlot)
    (hJ : J (.faulted .classNotBootstrapped)) (hS : S (.fault .classNotBootstrapped)) :
    (slotClass t).Keeps I J S := by
  intro w hw
  unfold slotClass
  cases w.slots t with
  | none => exact Step.Keeps.fault hJ hS w hw
  | some c => exact Step.Keeps.pure (J := J) (S := S) c w hw

theorem keeps_slotClass_bind {α : Type} {I : World → Prop} {J : Event → Prop} {S : Stop → Prop}
    {t : ClassSlot} {g : ClassId → Step World α} (hJ : J (.faulted .classNotBootstrapped))
    (hS : S (.fault .classNotBootstrapped))
    (hg : ∀ w c, I w → w.slots t = some c → (g c).Keeps I J S) :
    (slotClass t >>= g).Keeps I J S := by
  intro w hw
  rw [Step.bind_apply, slotClass]
  cases hslot : w.slots t with
  | none => exact Step.Keeps.fault (α := α) hJ hS w hw
  | some c => exact hg w c hw hslot w hw

@[simp] theorem gives_fillSlot (t : ClassSlot) (c : ClassId) (w : World) (u : Unit) (w' : World) :
    (fillSlot t c).Gives w u w' ↔
      w' = { w with slots := fun r => if r = t then some c else w.slots r } :=
  Step.gives_modify _ _ _ _

@[simp] theorem gives_setCell (cell : IvarsCell) (n : Nat) (w : World) (u : Unit) (w' : World) :
    (setCell cell n).Gives w u w' ↔
      w' = { w with cells := fun r => if r = cell then n else w.cells r } :=
  Step.gives_modify _ _ _ _

@[simp] theorem gives_setOffset (m : MethodRef) (n : Nat) (w : World) (u : Unit) (w' : World) :
    (setOffset m n).Gives w u w' ↔
      w' = { w with offsets := fun r => if r = m then n else w.offsets r } :=
  Step.gives_modify _ _ _ _

@[simp] theorem gives_modifyClass (c : ClassId) (f : Descriptor → Descriptor) (w : World)
    (u : Unit) (w' : World) :
    (modifyClass c f).Gives w u w' ↔ w' = { w with classes := w.classes.modify c f } :=
  Step.gives_modify _ _ _ _

@[simp] theorem gives_tryModifyClass (c : ClassId) (f : Descriptor → Except Fault Descriptor)
    (w : World) (u : Unit) (w' : World) :
    (tryModifyClass c f).Gives w u w' ↔
      ∃ d, f (w.get c) = .ok d ∧ w' = { w with classes := w.classes.modify c fun _ => d } := by
  unfold Step.Gives tryModifyClass
  cases f (w.get c) with
  | error e => simp [Step.fault]
  | ok d => simp [modifyClass, Step.modify, eq_comm]

theorem get_modify (w : World) (c d : Nat) (f : Descriptor → Descriptor) :
    ({ w with classes := w.classes.modify c f } : World).get d =
      if c = d ∧ d < w.classes.length then f (w.get d) else w.get d := by
  unfold World.get
  rw [List.getElem?_modify]
  by_cases hd : d < w.classes.length
  · rw [List.getElem?_eq_getElem hd]
    by_cases hc : c = d <;> simp [hc, hd]
  · rw [List.getElem?_eq_none (Nat.le_of_not_lt hd)]
    simp [hd]

end World

end ObjectSystem
