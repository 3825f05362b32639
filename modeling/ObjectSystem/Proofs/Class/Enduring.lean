import ObjectSystem.Proofs.Class.Programs

/-! # What programs do not change

To ask for a class by name is to run what the host does before it answers, to bind the name, and to
enter a copy of the parent.  What is said of a world and stays true under operations, when a name is
bound, when a class is entered behind its parent, and whatever the host is told (`Enduring`) is
therefore true after every call and every program, whether they answer or stop. -/

namespace ObjectSystem

open World

variable {α β : Type}

/-- What is said of a world stays true under the operations of `A`, and under what is done to make a
class on demand. -/
structure Enduring (A : Operation → Prop) (P : World → Prop) : Prop where
  operation : ∀ {op : Operation} {w : World}, A op → Whole w → P w → P (op.run w).state
  bindName : ∀ (name : String) (c : ClassId) {w : World}, Whole w → P w →
    P (World.bindName name c w).state
  enter : ∀ {d : Descriptor} {parent : Nat} {w : World}, P w → d.parent = some parent →
    parent < w.classes.length → P { w with classes := w.classes ++ [d] }
  tell : ∀ (t : HostTable) {w : World}, P w → P { w with host := t }

/-- All that the program and those that it hands on may do are operations of `A`. -/
def Program.Only (A : Operation → Prop) : Program → Prop
  | answer _ _ => True
  | giveUp _ => True
  | look next => ∀ w, (next w).Only A
  | act op next => A op ∧ ∀ r, (next r).Only A
  | ask find fresh _ _ _ next =>
    (∀ cls, (find cls).Only A) ∧ (∀ cls, (fresh cls).Only A) ∧ ∀ r, (next r).Only A

theorem Program.only_of_forall {A : Operation → Prop} (h : ∀ op, A op) (p : Program) :
    p.Only A := by
  induction p with
  | answer parent methods => trivial
  | giveUp reason => trivial
  | look next ih => exact ih
  | act op next ih => exact ⟨h op, ih⟩
  | ask find fresh allowance name given next ihfind ihfresh ih => exact ⟨ihfind, ihfresh, ih⟩

/-- What a host does before it answers leaves it true what is said of worlds. -/
structure Host.Endures (P : World → Prop) (host : Host) : Prop extends Host.Orderly host where
  find : ∀ cls w, Whole w → P w → P (host.findParent cls w).state
  fresh : ∀ cls w, Whole w → P w → P (host.freshMethods cls w).state

theorem Step.Goes.endures {P : World → Prop} {w : World} {x : Step World α}
    {Q : α → World → Prop} {g : α → Step World β} (hx : x.Goes Q w) (hP : P (x w).state)
    (hg : ∀ a v, Whole v → Course w v → Q a v → P v → P (g a v).state) :
    P ((x >>= g) w).state := by
  obtain ⟨⟨hwhole, hcourse⟩, -, hanswer⟩ := hx
  rcases h : x w with ⟨v, (stop | a), es⟩
  · rw [Step.bind_of_stop g h]
    rwa [h] at hP
  · rw [h] at hwhole hcourse hanswer hP
    rw [Step.state_bind_of_ok g h]
    exact hg a v hwhole hcourse (hanswer a rfl) hP

theorem Step.endures_of_eq {P : World → Prop} {w : World} {x : Step World α} {o : Outcome World α}
    (h : x w = o) (hP : P o.state) : P (x w).state := h ▸ hP

namespace Enduring

variable {A : Operation → Prop} {P : World → Prop} {host : Host} {w : World} {parent : Nat}
  (h : Enduring A P)

include h

/-- A subclass is entered, or the name was bound meanwhile. -/
theorem enterSubclass (hhost : host.registered = Host.table.registered) (hw : Whole w) (hP : P w)
    (hparent : parent < w.classes.length) {candidate : Descriptor}
    (hbelow : candidate.parent = some parent) (name : String) (fresh : List String) :
    P (World.enterSubclass host name parent candidate fresh w).state := by
  unfold World.enterSubclass
  rw [Step.get_bind]
  cases hcand : installAll candidate
      (if fresh.isEmpty then [] else w.overridable parent fresh) with
  | error f => exact Step.endures_of_eq (Step.bind_of_stop _ rfl) hP
  | ok d =>
    obtain ⟨vtable, -, rfl⟩ := installAll_vtable hcand
    obtain ⟨bound, hholds, -⟩ := hw.bound
    have hbound := h.bindName name w.classes.length hw hP
    refine Step.endures_of_eq (Step.bind_of_ok _ rfl) ?_
    obtain ⟨reg, ⟨heq, -⟩ | ⟨heq, -⟩ | ⟨heq, -⟩⟩ := hholds.bindName_cases name w.classes.length
    · -- the name was free
      rw [heq] at hbound
      refine Step.endures_of_eq (Step.bind_of_ok _ heq) ?_
      rw [hhost]
      exact h.tell _ (h.enter (d := { candidate with vtable := vtable }) hbound hbelow hparent)
    · -- the name was bound before
      rw [heq] at hbound
      refine Step.endures_of_eq (Step.bind_of_ok _ heq) ?_
      rw [if_neg Bool.false_ne_true, Step.get_bind]
      generalize World.fetchClass _ name = winner
      cases winner with
      | none => exact hbound
      | some winner => exact hbound
    · rw [heq] at hbound
      exact Step.endures_of_eq (Step.bind_of_stop _ heq) hbound

theorem createSubclass (hhost : host.Endures P) (hw : Whole w) (hP : P w)
    (hparent : parent < w.classes.length) (name : String) :
    P (World.createSubclass host name parent w).state := by
  cases hfinal : (w.get parent).flags.final with
  | true =>
    rw [createSubclass_final host name hfinal]
    exact hP
  | false =>
    rw [createSubclass_open host name hfinal]
    refine (hhost.freshMethods name w hw).endures (hhost.fresh name w hw hP)
      fun fresh v hv hcourse _ hPv => ?_
    exact h.enterSubclass hhost.registered hv hPv (Nat.lt_of_lt_of_le hparent hcourse.length_le)
      rfl name fresh

/-- To ask for a class by name leaves true what is said of worlds. -/
theorem singletonWith (hhost : host.Endures P) (allowance : Nat) {w : World}
    {given : Option ClassId} (hw : Whole w) (hP : P w)
    (hgiven : ∀ p : Nat, given = some p → p < w.classes.length) (name : String) :
    P (World.singletonWith host allowance name given w).state := by
  cases hfetch : w.fetchClass name with
  | some c =>
    rw [singletonWith_bound host allowance given hfetch]
    exact hP
  | none =>
    cases given with
    | some p =>
      rw [singletonWith_given host allowance hfetch]
      exact h.createSubclass hhost hw hP (hgiven p rfl) name
    | none =>
      rw [singletonWith_open host allowance hfetch]
      refine (hhost.findParent name w hw).endures (hhost.find name w hw hP)
        fun found v hv _ _ hPv => ?_
      cases found with
      | none => exact hPv
      | some parentName =>
        cases allowance with
        | zero => exact hPv
        | succ n =>
          have hask : (World.singletonWith host n parentName none).Goes (Bound parentName) v :=
            singletonWith_goes hhost.toOrderly n hv (by nofun) parentName
          have hasked : P (World.singletonWith host n parentName none v).state :=
            singletonWith hhost n hv hPv (by nofun) parentName
          refine hask.endures hasked fun r u hu _ hr hPu => ?_
          cases r with
          | error report => exact hPu
          | ok p => exact h.createSubclass hhost hu hPu (hu.lt_of_fetch (hr p rfl)) name
  termination_by allowance

theorem run {p : Program} (hp : p.Only A) {w : World} (hw : Whole w) (hP : P w) :
    P (p.run w).state := by
  induction p generalizing w with
  | answer parent methods => exact hP
  | giveUp reason => exact hP
  | look next ih => exact ih w (hp w) hw hP
  | act op next ih =>
    rw [Program.run_act]
    refine (op.goes hw).attempt.endures (h.operation hp.1 hw hP) fun r v hv _ _ hPv => ?_
    exact ih r (hp.2 r) hv hPv
  | ask find fresh allowance name given next ihfind ihfresh ih =>
    have hhost : (Program.host find fresh).Endures P :=
      { Program.orderly find fresh with
        find := fun cls w hw hP => ?_
        fresh := fun cls w hw hP => ?_ }
    · have hgiven : ∀ q : Nat, w.onlyClass given = some q → q < w.classes.length :=
        fun _ => lt_of_onlyClass
      have hask := singletonWith_goes hhost.toOrderly allowance hw hgiven name
      rw [Program.run_ask]
      exact hask.attempt.endures (h.singletonWith hhost allowance hw hP hgiven name)
        fun r v hv _ _ hPv => ih r (hp.2.2 r) hv hPv
    · rw [Program.host, Step.state_bind_pure]
      exact ihfind cls (hp.1 cls) hw hP
    · rw [Program.host, Step.state_bind_pure]
      exact ihfresh cls (hp.2.1 cls) hw hP

end Enduring

end ObjectSystem
