import ObjectSystem.Object.Boxed
import ObjectSystem.Object.Lifetime
import ObjectSystem.Proofs.Class.Marks

/-! # Handles

A `Holding` is a world with the handles on its objects that are held by someone, those in raw form
apart.  An `Act` gets a handle, doubles one, gives one up, or takes it out of the sight of the count
and back; `Act.perform` says what it does, with the answer of a release.

For the operations of the world behind the acts it is said here what they can do: how a handle is
got (`Acquires`), that a handle on an immortal object is neither counted nor given up, and what
happens to the object when a handle on it is given up that is the last one, or is not. -/

namespace ObjectSystem

/-- What is done with handles. -/
inductive Act
  | make (c : ClassId)
  | number (n : Int)
  | truth (b : Bool)
  | ofClass (c : ClassId)
  | ofMethod (m : ClassId × Nat)
  | retain (o : ObjRef)
  | release (o : ObjRef)
  | drop (o : ObjRef)
  /-- A handle becomes a raw one, which nobody releases. -/
  | intoRaw (o : ObjRef)
  /-- A raw handle becomes a handle again. -/
  | fromRaw (o : ObjRef)
  deriving DecidableEq, Repr

/-- A world, and the handles that are held on its objects. -/
structure Holding where
  world : World := {}
  handles : List ObjRef := []
  raws : List ObjRef := []

namespace Holding

/-- All handles, the raw ones among them. -/
def outstanding (s : Holding) : List ObjRef := s.handles ++ s.raws

/-- Runs a step on the world. -/
def inWorld {α : Type} (x : Step World α) : Step Holding α :=
  Step.zoom Holding.world (fun w s => { s with world := w }) x

/-- Gets a handle. -/
def take (x : Step World ObjRef) : Step Holding (Option Nat) := do
  let o ← inWorld x
  Step.modify fun s => { s with handles := o :: s.handles }
  pure none

/-- Gives a handle up.  It is gone, whatever becomes of the object. -/
def giveUp (o : ObjRef) : Step Holding Nat := do
  Step.modify fun s => { s with handles := s.handles.erase o }
  inWorld (World.release o)

end Holding

open Holding in
/-- What an act does.  A release answers how many handles are left. -/
def Act.perform : Act → Step Holding (Option Nat)
  | .make c => take (World.makeInstance c)
  | .number n => take (World.newInteger n)
  | .truth b => take (World.truth b)
  | .ofClass c => take (World.classObject c)
  | .ofMethod m => take (World.methodObject m)
  | .retain o => take do
    World.retain o
    pure o
  | .release o => do return some (← giveUp o)
  | .drop o => do
    let _ ← giveUp o
    pure none
  | .intoRaw o => do
    Step.modify fun s => { s with handles := s.handles.erase o, raws := o :: s.raws }
    pure none
  | .fromRaw o => do
    Step.modify fun s => { s with handles := o :: s.handles, raws := s.raws.erase o }
    pure none

/-- The object that an act is done to. -/
def Act.target : Act → Option ObjRef
  | .retain o | .release o | .drop o | .intoRaw o | .fromRaw o => some o
  | _ => none

/-- An object was handed to the Destroy function of its class. -/
def Event.isEnd : Event → Bool
  | .objectDestroyed _ => true
  | _ => false

namespace World

variable {w w' : World} {o : ObjRef} {c : Nat}

/-- A class has Destroy from the class in the slot of the root class. -/
def Rooted (w : World) (c : ClassId) : Prop :=
  ∃ r : Nat, w.slots .obj = some r ∧ w.isSubclassOf c r = true

/-- There is such an object, and it has a class. -/
def Present (w : World) : ObjRef → Prop
  | .allocated i => i < w.objects.length
  | .ofClass c => (w.get c).metaclass.isSome
  | .ofMethod c i => ((w.methodAt (c, i)).bind (·.metaclass)).isSome

/-- The truth values, once they are made, are instances of the class in their slot. -/
def Truthful (w : World) : Prop :=
  ∀ no yes, w.truths = some (no, yes) → ∀ i ∈ [no, yes], ∃ x, w.objects[i]? = some x ∧
    w.slots .boolean = some x.cls

/-! ### Getting a handle -/

/-- What getting a handle on something can come to. -/
inductive Acquires (w : World) : Outcome World ObjRef → Prop
  /-- There is no such object. -/
  | refused (f : Fault) : Acquires w ⟨w, .error (.fault f), [.faulted f]⟩
  /-- The object was there before, and is immortal. -/
  | known (o : ObjRef) (present : w.Present o) (immortal : w.isImmortal o = true) :
    Acquires w ⟨w, .ok o, []⟩
  /-- The object is new. -/
  | fresh (x : Instance) (rooted : w.Rooted x.cls) (count : x.count = 1) (freed : x.freed = false) :
    Acquires w ⟨{ w with objects := w.objects ++ [x] }, .ok (.allocated w.objects.length), []⟩
  /-- The truth values are made. -/
  | truths (x y : Instance) (b : Bool) (first : w.slots .boolean = some x.cls)
    (second : w.slots .boolean = some y.cls) (counts : x.count = 1 ∧ y.count = 1) :
    Acquires w
      ⟨{ w with
          objects := w.objects ++ [x, y]
          truths := some (w.objects.length, w.objects.length + 1) },
        .ok (.allocated (if b then w.objects.length + 1 else w.objects.length)), []⟩

theorem makeInstance_acquires (h : w.Rooted c) : Acquires w (makeInstance c w) :=
  .fresh { cls := c } h rfl rfl

theorem makeInstance_bind {β : Type} (f : ObjRef → Step World β) :
    (makeInstance c >>= f) w =
      f (.allocated w.objects.length) { w with objects := w.objects ++ [{ cls := c }] } := rfl

theorem writeBytes_last (w : World) (x : Instance) (address : Nat) (bytes : List UInt8) :
    ∃ after, writeBytes (.allocated w.objects.length) address bytes
        { w with objects := w.objects ++ [x] } =
      ⟨{ w with objects := w.objects ++ [{ x with bytes := after }] }, .ok (), []⟩ :=
  ⟨_, congrArg (fun objects => (⟨{ w with objects }, .ok (), []⟩ : Outcome World Unit))
    (List.modifyTailIdx_add _ 0 w.objects [x])⟩

theorem slotClass_of_some {t : ClassSlot} (h : w.slots t = some c) :
    slotClass t w = ⟨w, .ok c, []⟩ := by
  unfold slotClass
  rw [h]

theorem slotClass_of_none {t : ClassSlot} (h : w.slots t = none) :
    slotClass t w =
      ⟨w, .error (.fault .classNotBootstrapped), [.faulted .classNotBootstrapped]⟩ := by
  unfold slotClass
  rw [h]
  rfl

theorem newInteger_acquires {n : Int} (h : ∀ c, w.slots .integer = some c → w.Rooted c) :
    Acquires w (newInteger n w) := by
  cases hslot : w.slots .integer with
  | none =>
    have houtcome : newInteger n w =
        ⟨w, .error (.fault .classNotBootstrapped), [.faulted .classNotBootstrapped]⟩ :=
      Step.bind_of_stop _ (slotClass_of_none hslot)
    rw [houtcome]
    exact .refused _
  | some c =>
    obtain ⟨after, hwrite⟩ := writeBytes_last w { cls := c } (w.boxAddress .integer)
      (numberBytes n)
    have houtcome : newInteger n w =
        ⟨{ w with objects := w.objects ++ [{ cls := c, bytes := after }] },
          .ok (.allocated w.objects.length), []⟩ := by
      unfold newInteger
      rw [Step.bind_of_ok _ (slotClass_of_some hslot), makeInstance_bind, Step.gets_bind]
      exact Step.bind_of_ok _ hwrite
    rw [houtcome]
    exact .fresh _ (h c hslot) rfl rfl

theorem newTruth_eq (b : Bool) (h : w.slots .boolean = some c) :
    ∃ after, newTruth b w =
      ⟨{ w with objects := w.objects ++ [{ cls := c, bytes := after }] },
        .ok w.objects.length, []⟩ := by
  obtain ⟨after, hwrite⟩ := writeBytes_last w { cls := c } (w.boxAddress .boolean)
    [if b then 1 else 0]
  refine ⟨after, ?_⟩
  unfold newTruth
  rw [Step.bind_of_ok _ (slotClass_of_some h), Step.gets_bind, makeInstance_bind, Step.gets_bind]
  exact Step.bind_of_ok _ hwrite

theorem isImmortal_eq (h : w.classOf? o = some c) : w.isImmortal o = (w.get c).flags.special := by
  unfold isImmortal classOf
  rw [h]
  rfl

theorem classOf?_allocated {i : Nat} {x : Instance} (hx : w.objects[i]? = some x) :
    w.classOf? (.allocated i) = some x.cls :=
  congrArg (Option.map Instance.cls) hx

theorem truth_acquires (b : Bool) (hm : w.Marked) (ht : w.Truthful) : Acquires w (truth b w) := by
  cases htruths : w.truths with
  | some pair =>
    obtain ⟨no, yes⟩ := pair
    have hensure : ensureTruths w = ⟨w, .ok (no, yes), []⟩ := by
      unfold ensureTruths
      rw [Step.gets_bind, htruths]
      rfl
    have houtcome : truth b w = ⟨w, .ok (.allocated (if b then yes else no)), []⟩ :=
      Step.bind_of_ok _ hensure
    have hmem : (if b then yes else no) ∈ [no, yes] := by cases b <;> simp
    obtain ⟨x, hx, hslot⟩ := ht no yes htruths _ hmem
    rw [houtcome]
    exact .known _ (List.getElem?_eq_some_iff.1 hx).1
      ((isImmortal_eq (classOf?_allocated hx)).trans (hm.special _ _ hslot))
  | none =>
    cases hslot : w.slots .boolean with
    | none =>
      have hensure : ensureTruths w =
          ⟨w, .error (.fault .classNotBootstrapped), [.faulted .classNotBootstrapped]⟩ := by
        unfold ensureTruths
        rw [Step.gets_bind, htruths]
        exact Step.bind_of_stop _ (Step.bind_of_stop _ (slotClass_of_none hslot))
      have houtcome : truth b w =
          ⟨w, .error (.fault .classNotBootstrapped), [.faulted .classNotBootstrapped]⟩ :=
        Step.bind_of_stop _ hensure
      rw [houtcome]
      exact .refused _
    | some c =>
      obtain ⟨first, hfirst⟩ := newTruth_eq false hslot
      obtain ⟨second, hsecond⟩ := newTruth_eq (c := c) true
        (w := { w with objects := w.objects ++ [{ cls := c, bytes := first }] }) hslot
      rw [List.append_assoc, List.length_append] at hsecond
      have hensure : ensureTruths w =
          ⟨{ w with
              objects := w.objects ++ [{ cls := c, bytes := first }, { cls := c, bytes := second }]
              truths := some (w.objects.length, w.objects.length + 1) },
            .ok (w.objects.length, w.objects.length + 1), []⟩ := by
        unfold ensureTruths
        rw [Step.gets_bind, htruths]
        exact (Step.bind_of_ok _ hfirst).trans (Step.bind_of_ok _ hsecond)
      have houtcome : truth b w = _ := Step.bind_of_ok _ hensure
      rw [houtcome]
      exact .truths _ _ b hslot hslot ⟨rfl, rfl⟩

theorem classObject_acquires (hm : w.Marked) (c : ClassId) : Acquires w (classObject c w) := by
  unfold classObject
  by_cases hsome : (w.get c).metaclass.isSome
  · rw [if_pos hsome]
    obtain ⟨k, hk⟩ := Option.isSome_iff_exists.1 hsome
    have hclass : w.classOf? (.ofClass c) = some k := hk
    exact .known _ hsome ((isImmortal_eq hclass).trans (hm.special _ _ (hm.metaclass c k hk)))
  · rw [if_neg hsome]
    exact .refused _

theorem methodObject_acquires (hm : w.Marked) (m : ClassId × Nat) :
    Acquires w (methodObject m w) := by
  unfold methodObject
  by_cases hsome : ((w.methodAt m).bind (·.metaclass)).isSome
  · rw [if_pos hsome]
    obtain ⟨k, hk⟩ := Option.isSome_iff_exists.1 hsome
    obtain ⟨method, hmethod, hmetaclass⟩ := Option.bind_eq_some_iff.1 hk
    have hclass : w.classOf? (.ofMethod m.1 m.2) = some k := hk
    exact .known _ hsome ((isImmortal_eq hclass).trans
      (hm.special _ _ (hm.methodClass m.1 method (List.mem_of_getElem? hmethod) k hmetaclass)))
  · rw [if_neg hsome]
    exact .refused _

/-! ### Doubling a handle -/

theorem retain_immortal (h : w.isImmortal o = true) : retain o w = ⟨w, .ok (), []⟩ := by
  unfold retain
  rw [if_pos h]

theorem retain_mortal {i : Nat} (h : w.isImmortal (.allocated i) = false) :
    retain (.allocated i) w =
      ⟨{ w with objects := w.objects.modify i fun x => { x with count := x.count + 1 } },
        .ok (), []⟩ := by
  unfold retain
  rw [if_neg (by simp [h])]
  rfl

/-! ### Giving a handle up -/

/-- What of an object is there to be counted. -/
def tally (x : Instance) : ClassId × Nat := (x.cls, x.count)

/-- All that is left of a world when an object is at its end, but for notes and for the object. -/
structure Survives (o : ObjRef) (w w' : World) : Prop where
  classes : w'.classes = w.classes
  slots : w'.slots = w.slots
  offsets : w'.offsets = w.offsets
  registry : w'.registry = w.registry
  truths : w'.truths = w.truths
  counts : ∀ i : Nat, (w'.objects[i]?).map tally = (w.objects[i]?).map tally
  freed : ∀ i : Nat, o ≠ .allocated i →
    (w'.objects[i]?).map Instance.freed = (w.objects[i]?).map Instance.freed

theorem Survives.refl (o : ObjRef) (w : World) : Survives o w w :=
  ⟨rfl, rfl, rfl, rfl, rfl, fun _ => rfl, fun _ _ => rfl⟩

theorem Survives.free {w₀ : World} (h : Survives o w₀ w) : Survives o w₀ (free o w).state := by
  cases o with
  | ofClass c => exact h
  | ofMethod c i => exact h
  | allocated j =>
    refine ⟨h.classes, h.slots, h.offsets, h.registry, h.truths, fun i => ?_, fun i hi => ?_⟩
    · rw [← h.counts i]
      show ((w.objects.modify j _)[i]?).map tally = _
      rw [List.getElem?_modify]
      cases w.objects[i]? with
      | none => rfl
      | some x =>
        by_cases hij : j = i
        · simp [hij, tally]
        · simp [hij]
    · rw [← h.freed i hi]
      show ((w.objects.modify j _)[i]?).map Instance.freed = _
      rw [List.getElem?_modify_ne _ _ fun hij => hi (congrArg _ hij)]

theorem free_keeps (o : ObjRef) (w₀ : World) :
    (free o).Keeps (Survives o w₀) (fun e => e.isEnd = false) fun _ => True :=
  .silent (g := fun _ => ()) (fun _ => by cases o <;> rfl) fun _ h => h.free

theorem note_keeps (o : ObjRef) (s : String) (w₀ : World) :
    (note s).Keeps (Survives o w₀) (fun e => e.isEnd = false) fun _ => True :=
  .modify fun _ h => ⟨h.classes, h.slots, h.offsets, h.registry, h.truths, h.counts, h.freed⟩

theorem runDestroy_succ {code : Code} (h : ∀ b, code ≠ .custom b) (n : Nat) (o : ObjRef) :
    runDestroy (n + 1) code o = runDestroy n code o := by
  cases code with
  | custom b => exact absurd rfl (h b)
  | _ => cases n <;> rfl

/-- A Destroy function, with those that it leads to, does nothing to other objects, and does not
destroy any. -/
theorem runDestroy_keeps (allowance : Nat) (code : Code) (o : ObjRef) (w₀ : World) :
    (runDestroy allowance code o).Keeps (Survives o w₀) (fun e => e.isEnd = false)
      fun _ => True := by
  have hslot : ∀ t, (slotClass t).Keeps (Survives o w₀) (fun e => e.isEnd = false)
      fun _ => True := fun t => keeps_slotClass t rfl trivial
  have hfault : (runDestroy 0 .immortalDestroy o).Keeps (Survives o w₀)
      (fun e => e.isEnd = false) fun _ => True := fun w hw =>
    Step.Keeps.fault (J := fun e => e.isEnd = false) rfl trivial w hw
  induction allowance generalizing code with
  | zero =>
    cases code with
    | objDestroy => exact free_keeps o w₀
    | immortalDestroy => exact hfault
    | custom b =>
      cases b with
      | teardown k => exact .unfinished trivial
      | _ => exact .pure ()
    | _ => exact .pure ()
  | succ n ih =>
    have hcore : ∀ code : Code, (∀ b, code ≠ .custom b) →
        (runDestroy (n + 1) code o).Keeps (Survives o w₀) (fun e => e.isEnd = false)
          fun _ => True := by
      intro code hcode
      rw [runDestroy_succ hcode]
      exact ih code
    cases code with
    | custom b =>
      cases b with
      | teardown k =>
        refine (Step.Keeps.gets _).bind fun s => (note_keeps o s w₀).bind fun _ => ?_
        refine (Step.Keeps.gets _).bind fun owner? => ?_
        cases owner? with
        | none => exact .pure ()
        | some slot =>
          refine (hslot slot).bind fun owner => (Step.Keeps.gets _).bind fun parent? => ?_
          cases parent? with
          | none => exact .pure ()
          | some parent =>
            exact .get_bind fun w _ => (Step.Keeps.ofExcept fun _ => ⟨rfl, trivial⟩).bind
              fun next => ih next
      | _ => exact .pure ()
    | _ => exact hcore _ nofun

theorem release_immortal (h : w.isImmortal o = true) : release o w = ⟨w, .ok (w.count o), []⟩ := by
  unfold release
  show (if w.isImmortal o = true then _ else _ : Step World Nat) w = _
  rw [if_pos h]
  rfl

/-- The world in which a handle on an object is not counted any more. -/
def uncounted (w : World) (i : Nat) : World :=
  { w with objects := w.objects.modify i fun x => { x with count := x.count - 1 } }

theorem release_shared {i : Nat} (h : w.isImmortal (.allocated i) = false)
    (hcount : w.count (.allocated i) ≠ 1) :
    release (.allocated i) w = ⟨w.uncounted i, .ok (w.count (.allocated i) - 1), []⟩ := by
  unfold release
  show (if w.isImmortal (.allocated i) = true then _ else _ : Step World Nat) w = _
  rw [if_neg (by simp [h])]
  show (if w.count (.allocated i) = 1 then _ else _ : Step World Nat) (w.uncounted i) = _
  rw [if_neg hcount]
  rfl

theorem classOf_uncounted (w : World) (i : Nat) (o : ObjRef) :
    (w.uncounted i).classOf o = w.classOf o := by
  cases o with
  | ofClass c => rfl
  | ofMethod c j => rfl
  | allocated j =>
    have hclass : ((w.objects.modify i fun x => { x with count := x.count - 1 })[j]?).map
        Instance.cls = (w.objects[j]?).map Instance.cls := by
      rw [List.getElem?_modify]
      cases w.objects[j]? with
      | none => rfl
      | some x => by_cases hij : i = j <;> simp [hij]
    exact congrArg (Option.getD · 0) hclass

/-- With the last handle the Destroy function of the class is run on the object, of which there are
no handles left.  If it stops, so does the release. -/
theorem release_last {i : Nat} {code : Code} (h : w.isImmortal (.allocated i) = false)
    (hcount : w.count (.allocated i) = 1)
    (hcode : w.resolve (w.classOf (.allocated i)) CoreMethod.objDestroy = .ok code) :
    release (.allocated i) w =
      ⟨(runDestroy w.classes.length code (.allocated i) (w.uncounted i)).state,
        (runDestroy w.classes.length code (.allocated i) (w.uncounted i)).answer.map fun _ => 0,
        .objectDestroyed (w.classNameOf (.allocated i)) ::
          (runDestroy w.classes.length code (.allocated i) (w.uncounted i)).events⟩ := by
  have hname : (w.uncounted i).classNameOf (.allocated i) = w.classNameOf (.allocated i) :=
    congrArg w.nameOf (classOf_uncounted w i (.allocated i))
  have hresolve : (w.uncounted i).resolve ((w.uncounted i).classOf (.allocated i))
      CoreMethod.objDestroy = .ok code := by
    rw [classOf_uncounted]
    exact hcode
  have hdestroy : destroy (.allocated i) (w.uncounted i) =
      ⟨(runDestroy w.classes.length code (.allocated i) (w.uncounted i)).state,
        (runDestroy w.classes.length code (.allocated i) (w.uncounted i)).answer,
        .objectDestroyed (w.classNameOf (.allocated i)) ::
          (runDestroy w.classes.length code (.allocated i) (w.uncounted i)).events⟩ := by
    unfold destroy
    show (Step.emit (.objectDestroyed ((w.uncounted i).classNameOf (.allocated i))) >>= fun _ =>
      Step.ofExcept ((w.uncounted i).resolve ((w.uncounted i).classOf (.allocated i))
        CoreMethod.objDestroy) >>= fun code =>
          runDestroy w.classes.length code (.allocated i)) (w.uncounted i) = _
    rw [hname, hresolve]
    rfl
  unfold release
  show (if w.isImmortal (.allocated i) = true then _ else _ : Step World Nat) w = _
  rw [if_neg (by simp [h])]
  show (if w.count (.allocated i) = 1 then _ else _ : Step World Nat) (w.uncounted i) = _
  rw [if_pos hcount, Step.bind_apply, hdestroy]
  cases hanswer : (runDestroy w.classes.length code (.allocated i) (w.uncounted i)).answer with
  | error stop => rfl
  | ok u => simp [Outcome.bind, Except.map]

end World

end ObjectSystem
