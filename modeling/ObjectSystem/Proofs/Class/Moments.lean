import ObjectSystem.Proofs.Class.Programs

/-! # Moments

On the way of a program the world is seen in many states: before and after each operation, and
where a call begins or ends, be it one of the program itself or one that is made while a host is
asked.  `Program.moments` and `callMoments` list them in order, and with each end of a call the
class that was answered.

Each moment is in the course of the one before (`Span`, `call_span`, `Program.span`), so what there
is at some moment is there for good, at all later ones and whatever comes then
(`published_for_good`). -/

namespace ObjectSystem

open World

/-- A world on the way.  If a call ends here and answers with a class, that class and its name. -/
structure Moment where
  world : World
  answered : Option (String × ClassId)

/-- What a call for a class by name answers, if it is a class. -/
def answeredClass (name : String) : Except Stop (Except Report ClassId) → Option (String × ClassId)
  | .ok (.ok c) => some (name, c)
  | _ => none

/-- A call with the moments in it. -/
def enclosed (name : String) (w : World) (inner : List Moment)
    (o : Outcome World (Except Report ClassId)) : List Moment :=
  ⟨w, none⟩ :: inner ++ [⟨o.state, answeredClass name o.answer⟩]

/-- The moments on the way to a subclass: those in which the host is asked for its methods. -/
def creationMoments (fresh : String → World → List Moment) (name : String) (parent : ClassId)
    (w : World) : List Moment :=
  if (w.get parent).flags.final then [] else fresh name w

/-- The moments of a call for a class by name, given those in which the host is asked. -/
def callMoments (host : Host) (find fresh : String → World → List Moment) :
    (allowance : Nat) → (name : String) → Option ClassId → World → List Moment
  | allowance, name, given, w =>
    let inner := match w.fetchClass name, given with
      | some _, _ => []
      | none, some p => creationMoments fresh name p w
      | none, none =>
        find name w ++ match allowance, host.findParent name w with
          | n + 1, ⟨v, .ok (some parentName), _⟩ =>
            callMoments host find fresh n parentName none v ++
              match singletonWith host n parentName none v with
              | ⟨u, .ok (.ok p), _⟩ => creationMoments fresh name p u
              | _ => []
          | _, _ => []
    enclosed name w inner (singletonWith host allowance name given w)

theorem callMoments_getLast (host : Host) (find fresh : String → World → List Moment)
    (allowance : Nat) (name : String) (given : Option ClassId) (w : World) :
    (callMoments host find fresh allowance name given w).getLast? =
      some ⟨(singletonWith host allowance name given w).state,
        answeredClass name (singletonWith host allowance name given w).answer⟩ := by
  unfold callMoments
  exact List.getLast?_concat

/-- The moments of a program. -/
def Program.moments : Program → World → List Moment
  | answer _ _, w => [⟨w, none⟩]
  | giveUp _, w => [⟨w, none⟩]
  | look next, w => (next w).moments w
  | act op next, w => ⟨w, none⟩ :: (next (op.run w).answer).moments (op.run w).state
  | ask find fresh allowance name given next, w =>
    let o := singletonWith (host find fresh) allowance name (w.onlyClass given) w
    callMoments (host find fresh) (fun cls => (find cls).moments) (fun cls => (fresh cls).moments)
      allowance name (w.onlyClass given) w ++ (next o.answer).moments o.state

/-! ### Moments in order -/

/-- The world is whole, and the class that is answered is the one that the name is bound to. -/
structure Moment.Fits (m : Moment) : Prop where
  whole : Whole m.world
  answered : ∀ name c, m.answered = some (name, c) → m.world.fetchClass name = some c

/-- From one world to another there are moments, each in the course of those before. -/
structure Span (w : World) (l : List Moment) (w' : World) : Prop where
  course : Course w w'
  between : ∀ m ∈ l, Course w m.world ∧ Course m.world w' ∧ m.Fits
  ordered : l.Pairwise fun m m' => Course m.world m'.world

namespace Span

variable {w w' v : World} {l l' : List Moment}

theorem nil (h : Course w w') : Span w [] w' := ⟨h, nofun, .nil⟩

theorem single {m : Moment} (hm : m.Fits) : Span m.world [m] m.world where
  course := .refl _
  between k hk := by
    obtain rfl := List.mem_singleton.1 hk
    exact ⟨.refl _, .refl _, hm⟩
  ordered := List.pairwise_singleton _ _

theorem begin (hw : Whole w) : Span w [⟨w, none⟩] w :=
  single (m := ⟨w, none⟩) ⟨hw, by nofun⟩

theorem append (h : Span w l v) (h' : Span v l' w') : Span w (l ++ l') w' where
  course := h.course.trans h'.course
  between m hm := by
    rcases List.mem_append.1 hm with hm | hm
    · obtain ⟨hbegin, hend, hfits⟩ := h.between m hm
      exact ⟨hbegin, hend.trans h'.course, hfits⟩
    · obtain ⟨hbegin, hend, hfits⟩ := h'.between m hm
      exact ⟨h.course.trans hbegin, hend, hfits⟩
  ordered := List.pairwise_append.2 ⟨h.ordered, h'.ordered, fun m hm m' hm' =>
    (h.between m hm).2.1.trans (h'.between m' hm').1⟩

theorem extend (h : Span w l v) (h' : Course v w') : Span w l w' :=
  List.append_nil l ▸ h.append (.nil h')

theorem enclosed {name : String} {x : Step World (Except Report ClassId)} (hw : Whole w)
    (hx : x.Goes (Bound name) w) (h : Span w l (x w).state) :
    Span w (ObjectSystem.enclosed name w l (x w)) (x w).state := by
  have hend : Moment.Fits ⟨(x w).state, answeredClass name (x w).answer⟩ := by
    refine ⟨hx.state.1, fun n c hanswered => ?_⟩
    rcases hanswer : (x w).answer with stop | report | k
    · rw [hanswer] at hanswered
      cases hanswered
    · rw [hanswer] at hanswered
      cases hanswered
    · rw [hanswer] at hanswered
      cases hanswered
      exact hx.answer _ hanswer c rfl
  exact (begin hw).append (h.append (single hend))

end Span

/-! ### Calls -/

/-- A host of which it is known how the world goes on while it is asked. -/
structure Host.Watched (host : Host) (find fresh : String → World → List Moment) : Prop
    extends host.Orderly where
  find : ∀ cls w, Whole w → Span w (find cls w) (host.findParent cls w).state
  fresh : ∀ cls w, Whole w → Span w (fresh cls w) (host.freshMethods cls w).state

section Calls

variable {host : Host} {find fresh : String → World → List Moment} {w : World} {parent : Nat}

theorem creation_span (hhost : host.Watched find fresh) (hw : Whole w)
    (hparent : parent < w.classes.length) (name : String) :
    Span w (creationMoments fresh name parent w) (createSubclass host name parent w).state := by
  unfold creationMoments
  cases hfinal : (w.get parent).flags.final with
  | true =>
    rw [createSubclass_final host name hfinal]
    exact .nil (.refl w)
  | false =>
    rw [createSubclass_open host name hfinal]
    exact (hhost.fresh name w hw).extend ((hhost.freshMethods name w hw).after
      fun methods v hv hcourse _ => enterCopy_goes hhost.toOrderly hw hv hcourse hparent methods)

/-- Each moment of a call is in the course of those before. -/
theorem call_span (hhost : host.Watched find fresh) (allowance : Nat) {w : World}
    {given : Option ClassId} (hw : Whole w)
    (hgiven : ∀ p : Nat, given = some p → p < w.classes.length) (name : String) :
    Span w (callMoments host find fresh allowance name given w)
      (singletonWith host allowance name given w).state := by
  unfold callMoments
  refine .enclosed hw (singletonWith_goes hhost.toOrderly allowance hw hgiven name) ?_
  cases hfetch : w.fetchClass name with
  | some c =>
    rw [singletonWith_bound host allowance given hfetch]
    exact .nil (.refl w)
  | none =>
    cases given with
    | some p =>
      rw [singletonWith_given host allowance hfetch]
      exact creation_span hhost hw (hgiven p rfl) name
    | none =>
      rw [singletonWith_open host allowance hfetch]
      have hfind := hhost.findParent name w hw
      have hspan := hhost.find name w hw
      have hv := hfind.state.1
      refine hspan.append ?_
      rcases hfound : host.findParent name w with ⟨v, (stop | _ | parentName), es⟩
      · rw [Step.bind_of_stop _ hfound]
        cases allowance <;> exact .nil (.refl v)
      · rw [Step.state_bind_of_ok _ hfound]
        cases allowance <;> exact .nil (.refl v)
      · rw [hfound] at hv
        rw [Step.state_bind_of_ok _ hfound]
        cases allowance with
        | zero => exact .nil (.refl v)
        | succ n =>
          have hask : (singletonWith host n parentName none).Goes (Bound parentName) v :=
            singletonWith_goes hhost.toOrderly n hv (by nofun) parentName
          refine (call_span hhost n hv (by nofun) parentName).append ?_
          obtain ⟨⟨hu, -⟩, -, hbound⟩ := hask
          show Span _ _ ((singletonWith host n parentName none >>= createBelow host name) v).state
          rcases hanswer : singletonWith host n parentName none v with ⟨u, (stop | report | p), es'⟩
          · rw [Step.bind_of_stop _ hanswer]
            exact .nil (.refl u)
          · rw [Step.state_bind_of_ok _ hanswer]
            exact .nil (.refl u)
          · rw [hanswer] at hu hbound
            rw [Step.state_bind_of_ok _ hanswer]
            exact creation_span hhost hu (hu.lt_of_fetch (hbound _ rfl p rfl)) name
  termination_by allowance

end Calls

/-! ### Programs -/

namespace Program

variable {find fresh : String → Program}

variable (find fresh) in
theorem host_findParent_state (cls : String) (w : World) :
    ((host find fresh).findParent cls w).state = ((find cls).run w).state :=
  Step.state_bind_pure (find cls).run Prod.fst w

variable (find fresh) in
theorem host_freshMethods_state (cls : String) (w : World) :
    ((host find fresh).freshMethods cls w).state = ((fresh cls).run w).state :=
  Step.state_bind_pure (fresh cls).run Prod.snd w

theorem watched_of
    (hfind : ∀ cls w, Whole w → Span w ((find cls).moments w) ((find cls).run w).state)
    (hfresh : ∀ cls w, Whole w → Span w ((fresh cls).moments w) ((fresh cls).run w).state) :
    (host find fresh).Watched (fun cls => (find cls).moments) fun cls => (fresh cls).moments where
  toOrderly := orderly find fresh
  find cls w hw := host_findParent_state find fresh cls w ▸ hfind cls w hw
  fresh cls w hw := host_freshMethods_state find fresh cls w ▸ hfresh cls w hw

/-- Each moment of a program is in the course of those before. -/
theorem span (p : Program) {w : World} (hw : Whole w) : Span w (p.moments w) (p.run w).state := by
  induction p generalizing w with
  | answer parent methods => exact .begin hw
  | giveUp reason => exact .begin hw
  | look next ih => exact ih w hw
  | act op next ih =>
    obtain ⟨hv, hcourse⟩ := (op.goes hw).state
    rw [run_act, Step.state_attempt_bind]
    exact ((Span.begin hw).extend hcourse).append (ih _ hv)
  | ask find fresh allowance name given next ihfind ihfresh ih =>
    have hwatched := watched_of (fun cls _ => ihfind cls) fun cls _ => ihfresh cls
    have hgiven : ∀ p : Nat, w.onlyClass given = some p → p < w.classes.length :=
      fun _ => lt_of_onlyClass
    obtain ⟨hv, -⟩ := (singletonWith_goes hwatched.toOrderly allowance hw hgiven name).state
    rw [run_ask, Step.state_attempt_bind]
    exact (call_span hwatched allowance hw hgiven name).append (ih _ hv)

theorem watched (find fresh : String → Program) :
    (host find fresh).Watched (fun cls => (find cls).moments) fun cls => (fresh cls).moments :=
  watched_of (fun cls _ => (find cls).span) fun cls _ => (fresh cls).span

end Program

/-- A class that is there at some moment of a program, whatever the hosts that it asks do meanwhile,
lasts through all later moments, and through whatever comes after the program: the slots and names
that lead to it lead to it for good, and nothing of it changes but handles and marks of methods that
are set. -/
theorem published_for_good (hash : String → Nat) (t : HostTable) {w : World}
    (hw : Ensues { hash := hash, host := t } w) (p : Program) :
    (p.moments w).Pairwise (fun m m' => Later m.world m'.world) ∧
      (∀ m ∈ p.moments w, ∀ w', Ensues (p.run w).state w' → Later m.world w') ∧
      ∀ w', Ensues w w' → Later w w' := by
  obtain ⟨hwhole, -⟩ := hw.whole_later (.start hash t)
  have hspan := p.span hwhole
  refine ⟨hspan.ordered.imp Course.toLater, fun m hm w' hw' => ?_, fun w' hw' =>
    (hw'.whole_later hwhole).2⟩
  exact (hspan.between m hm).2.1.toLater.trans (hw'.whole_later (p.goes hwhole).state.1).2

namespace Kennel

theorem dogs_ensue : Ensues {} dogs := by
  have hrun := Ensues.run (.refl {}) (.act (.bootstrap parcel) fun _ => .answer none [])
  have hstate : (Program.run (.act (.bootstrap parcel) fun _ => .answer none []) {}).state = dogs :=
    (Step.state_attempt_bind _ _ _).trans (Step.state_bind_pure (bootstrap parcel) (fun _ => ()) {})
  exact hstate ▸ hrun

/-- A puppy is asked for, and while its methods are looked up, animals get another word for
speaking.  Then the parcel is bootstrapped once more, and speaking is kept from the host. -/
def day : Program :=
  .ask (fun _ => .answer none [])
    (fun _ => .act (.setHostAlias 0 "talk" "Speak") fun _ => .answer none ["talk"])
    0 "Puppy" (some 1) fun _ =>
      .act (.bootstrap parcel) fun _ => .act (.exclude 0 "Speak") fun _ => .answer none []

/-- The parcel is refused the second time, and the puppy, which speaks as the host says, is there
for good as animals and dogs are; of these nothing has changed but the marks on speaking. -/
theorem puppy_for_good :
    ∃ w', w' = (day.run dogs).state ∧ Later dogs w' ∧
      (day.moments dogs).map (·.answered) =
        [none, none, none, some ("Puppy", 2), none, none, none] ∧
      (∀ m ∈ day.moments dogs, Later m.world w') ∧
      Event.faulted (.doubleBootstrap "Animal") ∈ (day.run dogs).events ∧
      w'.classes.length = 3 ∧ w'.resolve 2 speak = .ok (.custom (.tag 2)) ∧
      (dogs.get 0).methods.map (fun m => (m.hostAlias?, m.excluded)) =
        [(none, false), (none, false)] ∧
      (w'.get 0).methods.map (fun m => (m.hostAlias?, m.excluded)) =
        [(some "talk", true), (none, false)] := by
  obtain ⟨-, hmoments, hlater⟩ := published_for_good _ {} dogs_ensue day
  refine ⟨_, rfl, hlater _ (.run (.refl _) day), by decide +kernel,
    fun m hm => hmoments m hm _ (.refl _), by decide +kernel, by decide +kernel, by decide +kernel,
    by decide +kernel, by decide +kernel⟩

end Kennel

end ObjectSystem
