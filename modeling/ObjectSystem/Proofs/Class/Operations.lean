import ObjectSystem.Object.Dispatch
import ObjectSystem.Proofs.Class.Lasting

/-! # Operations

An `Operation` is whatever can be done to a world but for asking for a class by name.  Most of them
do not go beyond handles, objects and the marks of methods (`Harmless`).  All of them lead from a
whole world to a whole world that is a later one, whether they answer or stop (`Operation.goes`).

`x.Goes Q w` says the latter of any step `x` that is begun in the world `w`, and that its answer is
as `Q` says. -/

namespace ObjectSystem

variable {α β : Type}

/-- What can be done to a world without asking for a class by name. -/
inductive Operation
  | bootstrap (p : ParcelSpec)
  /-- Makes the registry if there is none yet. -/
  | ensureRegistry (requested : Nat)
  /-- Binds one more name to a class that there is. -/
  | bindName (name : String) (c : ClassId)
  | register (c : ClassId)
  | setHostAlias (c : ClassId) (given name : String)
  | exclude (c : ClassId) (name : String)
  | make (c : ClassId)
  | number (n : Int)
  | truth (b : Bool)
  | classObject (c : ClassId)
  | methodObject (m : ClassId × Nat)
  | retain (o : ObjRef)
  | release (o : ObjRef)
  | write (o : ObjRef) (address : Nat) (bytes : List UInt8)
  | call (m : MethodRef) (self : ObjRef) (args : Arguments)
  /-- The host declares other parents and methods. -/
  | declare (parents : List (String × String)) (methods : List (String × List String))

/-- Carries out an operation.  Names are not bound to classes that there are not. -/
def Operation.run : Operation → Step World Unit
  | bootstrap p => do let _ ← World.bootstrap p
  | ensureRegistry requested => World.ensureRegistry requested
  | bindName name c => fun w =>
    if c < w.classes.length then (do let _ ← World.bindName name c : Step World Unit) w
    else ⟨w, .ok (), []⟩
  | register c => fun w =>
    if c < w.classes.length then (do let _ ← World.register c : Step World Unit) w
    else ⟨w, .ok (), []⟩
  | setHostAlias c given name => World.setHostAlias c given name
  | exclude c name => World.excludeMethod c name
  | make c => do let _ ← World.makeInstance c
  | number n => do let _ ← World.newInteger n
  | truth b => do let _ ← World.truth b
  | classObject c => do let _ ← World.classObject c
  | methodObject m => do let _ ← World.methodObject m
  | retain o => World.retain o
  | release o => do let _ ← World.release o
  | write o address bytes => World.writeBytes o address bytes
  | call m self args => do let _ ← World.call m self args
  | declare parents methods => Step.modify fun w =>
    { w with host := { w.host with parents := parents, methods := methods } }

namespace World

/-! ### Operations that make no classes -/

/-- An operation that does not go beyond handles, objects, marks of methods that are set, and what
the host knows for itself. -/
def Harmless (x : Step World α) : Prop :=
  ∀ w hook, x.Keeps (Touched w) (Event.Permitted hook) fun _ => True

namespace Harmless

variable {x : Step World α} {g : α → Step World β}

theorem bind (hx : Harmless x) (hg : ∀ a, Harmless (g a)) : Harmless (x >>= g) := fun w hook =>
  (hx w hook).bind fun a => hg a w hook

theorem pure (a : α) : Harmless (Pure.pure a : Step World α) := fun _ _ => .pure a

theorem gets (f : World → α) : Harmless (Step.gets f) := fun _ _ => .gets f

theorem get_bind {g : World → Step World α} (hg : ∀ w, Harmless (g w)) :
    Harmless (Step.get >>= g) := fun w hook v hv => hg v w hook v hv

theorem modify {f : World → World} (hf : ∀ w, Touched w (f w)) : Harmless (Step.modify f) :=
  fun _ _ => .modify fun v hv => hv.trans (hf v)

theorem emit {e : Event} (he : ∀ f, e ≠ .faulted f) : Harmless (Step.emit e) := fun _ _ =>
  .emit fun f hf => absurd hf (he f)

theorem fault {f : Fault} (hf : ∀ name, f ≠ .registryRace name) :
    Harmless (Step.fault f : Step World α) := fun _ _ =>
  .fault (fun _ heq name hrace => absurd ((Event.faulted.inj heq).trans hrace) (hf name)) trivial

theorem faultOf {f : World → Fault} (hf : ∀ w name, f w ≠ .registryRace name) :
    Harmless (fun w => Step.fault (f w) w : Step World α) := fun w hook v hv =>
  fault (hf v) w hook v hv

theorem unfinished : Harmless (Step.unfinished : Step World α) := fun _ _ => .unfinished trivial

theorem slotClass (t : ClassSlot) : Harmless (slotClass t) := fun w hook v hv => by
  unfold World.slotClass
  cases v.slots t with
  | none => exact fault (α := ClassId) (by nofun) w hook v hv
  | some c => exact pure c w hook v hv

theorem resolve (w : World) (c : ClassId) (m : MethodRef) :
    Harmless (Step.ofExcept (w.resolve c m)) := by
  unfold World.resolve
  rcases hslot : (w.get c).slot (w.offsets m) with f | (_ | code)
  · unfold Descriptor.slot at hslot
    split at hslot
    · cases hslot
    · cases hslot
      exact fault (by nofun)
  · exact fault (by nofun)
  · exact pure code

end Harmless

theorem touched_objects (w : World) (objects : List Instance) (truths : Option (Nat × Nat))
    (notes : List String) :
    Touched w { w with objects := objects, truths := truths, notes := notes } :=
  ⟨rfl, fun _ => .refl _, rfl, rfl, rfl, rfl⟩

theorem touched_modifyMethod (w : World) {f : Method → Method} (c : ClassId) (i : Nat)
    (hplain : ∀ m, (f m).plain = m.plain)
    (hmarks : ∀ m, w.methodAt (c, i) = some m → m.Marks (f m)) :
    Touched w (modifyMethod c i f w).state :=
  .modifyClass (.modifyMethod i hplain hmarks)

theorem modifyCount_harmless (f : Nat → Nat) (o : ObjRef) : Harmless (modifyCount f o) := by
  cases o with
  | allocated i => exact .modify fun w => w.touched_objects _ w.truths w.notes
  | ofClass c => exact .modify fun w => .modifyClass (.handles _ _)
  | ofMethod c i =>
    exact .modify fun w => w.touched_modifyMethod c i (fun _ => rfl) fun _ _ => ⟨fun _ h => h, id⟩

theorem ownMethod_harmless (c : ClassId) (name : String) : Harmless (ownMethod c name) := by
  intro w hook v hv
  unfold ownMethod
  cases (v.get c).methods.findIdx? (·.name == name) with
  | none => exact Harmless.fault (α := Nat) (by nofun) w hook v hv
  | some i => exact Harmless.pure i w hook v hv

theorem setHostAlias_harmless (c : ClassId) (given name : String) :
    Harmless (setHostAlias c given name) := by
  refine (ownMethod_harmless c name).bind fun i w hook v hv => ?_
  rw [Step.get_bind]
  by_cases halias : ((v.methodAt (c, i)).bind Method.hostAlias?).isSome
  · rw [if_pos halias]
    exact Harmless.emit (by nofun) w hook v hv
  · rw [if_neg halias]
    refine ⟨hv.trans (v.touched_modifyMethod c i (fun _ => rfl) fun m hm =>
      ⟨fun given hgiven => ?_, id⟩), nofun, nofun⟩
    rw [hm, Option.bind_some, hgiven] at halias
    exact absurd rfl halias

theorem excludeMethod_harmless (c : ClassId) (name : String) :
    Harmless (excludeMethod c name) :=
  (ownMethod_harmless c name).bind fun i => .modify fun w =>
    w.touched_modifyMethod c i (fun _ => rfl) fun _ _ => ⟨fun _ h => h, fun _ => rfl⟩

theorem makeInstance_harmless (c : ClassId) : Harmless (makeInstance c) := fun _ _ v hv =>
  ⟨hv.trans (v.touched_objects _ v.truths v.notes), nofun, nofun⟩

theorem writeBytes_harmless (o : ObjRef) (address : Nat) (bytes : List UInt8) :
    Harmless (writeBytes o address bytes) := by
  cases o with
  | allocated i => exact .modify fun w => w.touched_objects _ w.truths w.notes
  | _ => exact .pure ()

theorem newInteger_harmless (n : Int) : Harmless (newInteger n) :=
  (Harmless.slotClass _).bind fun c => (makeInstance_harmless c).bind fun o =>
    (Harmless.gets _).bind fun _ => (writeBytes_harmless o _ _).bind fun _ => .pure o

theorem newTruth_harmless (b : Bool) : Harmless (newTruth b) :=
  (Harmless.slotClass _).bind fun c => (Harmless.gets _).bind fun i =>
    (makeInstance_harmless c).bind fun o => (Harmless.gets _).bind fun _ =>
      (writeBytes_harmless o _ _).bind fun _ => .pure i

theorem ensureTruths_harmless : Harmless ensureTruths := by
  refine (Harmless.gets _).bind fun truths => ?_
  cases truths with
  | some pair => exact .pure pair
  | none =>
    exact (newTruth_harmless false).bind fun no => (newTruth_harmless true).bind fun yes =>
      (Harmless.modify fun w => w.touched_objects w.objects _ w.notes).bind fun _ =>
        .pure (no, yes)

theorem truth_harmless (b : Bool) : Harmless (truth b) :=
  ensureTruths_harmless.bind fun _ => .pure _

theorem settleOwners_harmless (p : ParcelSpec) :
    Harmless (Step.modify (settleOwners p.classes p.novel p.overridden)) := .modify fun w => by
  obtain ⟨owners, heq⟩ := settleOwners_eq p.classes p.novel p.overridden w
  rw [heq]
  exact ⟨rfl, fun _ => .refl _, rfl, rfl, rfl, rfl⟩

theorem classObject_harmless (c : ClassId) : Harmless (classObject c) := by
  intro w hook v hv
  unfold classObject
  split
  · exact Harmless.pure _ w hook v hv
  · exact Harmless.fault (by nofun) w hook v hv

theorem methodObject_harmless (m : ClassId × Nat) : Harmless (methodObject m) := by
  intro w hook v hv
  unfold methodObject
  split
  · exact Harmless.pure _ w hook v hv
  · exact Harmless.fault (by nofun) w hook v hv

theorem retain_harmless (o : ObjRef) : Harmless (retain o) := by
  intro w hook v hv
  unfold retain
  split
  · exact Harmless.pure () w hook v hv
  · exact modifyCount_harmless _ o w hook v hv

/-- A Destroy function, with those that it leads to, touches no class. -/
theorem runDestroy_harmless (allowance : Nat) (code : Code) (o : ObjRef) :
    Harmless (runDestroy allowance code o) := by
  have hfree : Harmless (free o) := by
    cases o with
    | allocated i => exact .modify fun w => w.touched_objects _ w.truths w.notes
    | _ => exact .pure ()
  have himmortal : Harmless fun w =>
      (Step.fault (.destroyImmortal (w.classNameOf o)) : Step World Unit) w :=
    .faultOf (by nofun)
  induction allowance generalizing code with
  | zero =>
    cases code with
    | objDestroy => exact hfree
    | immortalDestroy => exact himmortal
    | custom b =>
      cases b with
      | teardown k => exact .unfinished
      | _ => exact .pure ()
    | _ => exact .pure ()
  | succ n ih =>
    cases code with
    | custom b =>
      cases b with
      | teardown k =>
        refine (Harmless.gets _).bind fun s =>
          (Harmless.modify fun w => w.touched_objects w.objects w.truths _).bind fun _ =>
            (Harmless.gets _).bind fun owner? => ?_
        cases owner? with
        | none => exact .pure ()
        | some slot =>
          refine (Harmless.slotClass slot).bind fun owner =>
            (Harmless.gets _).bind fun parent? => ?_
          cases parent? with
          | none => exact .pure ()
          | some parent =>
            exact .get_bind fun w => (Harmless.resolve w parent _).bind fun next => ih next
      | _ => exact .pure ()
    | objDestroy => exact hfree
    | immortalDestroy => exact himmortal
    | _ => exact .pure ()

theorem release_harmless (o : ObjRef) : Harmless (release o) := by
  have hdestroy : Harmless (destroy o) :=
    .get_bind fun v => (Harmless.emit (by nofun)).bind fun _ =>
      (Harmless.resolve v _ _).bind fun code => runDestroy_harmless _ code o
  refine .get_bind fun w => ?_
  split
  · exact .pure _
  · refine (modifyCount_harmless _ o).bind fun _ => ?_
    split
    · exact hdestroy.bind fun _ => .pure 0
    · exact .pure _

/-- What functions do on objects leaves classes alone. -/
theorem run_harmless (code : Code) (self : ObjRef) (args : Arguments) :
    Harmless (code.run self args) := by
  have hinteger : ∀ o, Harmless (integerValue o) := fun o =>
    (Harmless.slotClass _).bind fun c => .gets _
  have htruth : ∀ o, Harmless (truthValue o) := fun o =>
    (Harmless.slotClass _).bind fun c => .gets _
  cases code with
  | objDestroy => exact .pure _
  | immortalDestroy => exact .pure _
  | objToString => exact .gets _
  | objEquals => exact .pure _
  | objCompareTo => exact .faultOf (by nofun)
  | classToString => exact .gets _
  | methodToString => exact .gets _
  | booleanToString => exact (htruth self).bind fun _ => .pure _
  | booleanEquals =>
    refine (htruth self).bind fun a => (htruth args.other).bind fun b => ?_
    cases a <;> cases b <;> exact .pure _
  | integerToString => exact (hinteger self).bind fun _ => .pure _
  | integerEquals =>
    refine (hinteger self).bind fun a => (hinteger args.other).bind fun b => ?_
    cases a <;> cases b <;> exact .pure _
  | integerCompareTo =>
    refine (hinteger self).bind fun a => (hinteger args.other).bind fun b => ?_
    cases a <;> cases b <;> first | exact .pure _ | exact .faultOf (by nofun)
  | custom b => exact .gets _

theorem call_harmless (m : MethodRef) (self : ObjRef) (args : Arguments) :
    Harmless (call m self args) :=
  .get_bind fun w => (Harmless.resolve w _ m).bind fun code => run_harmless code self args

end World

open World

/-! ### Whole worlds -/

/-- From a world the operation leads to a later one that is whole, whether it answers or stops, and
what it answers is as `Q` says. -/
def Step.Goes (Q : α → World → Prop) (x : Step World α) (w : World) : Prop :=
  x.Reaches (fun v => Whole v ∧ Course w v) (Event.Permitted w.hook) Q w

section Goes

variable {w : World} {x : Step World α} {Q : α → World → Prop}

theorem Step.Goes.bind {R : β → World → Prop} {g : α → Step World β} (hx : x.Goes Q w)
    (hg : ∀ a v, Whole v → Course w v → Q a v → (g a).Goes R v) : (x >>= g).Goes R w := by
  refine Step.Reaches.bind hx fun a v hv ha => ?_
  have hnext := hg a v hv.1 hv.2 ha
  unfold Step.Goes at hnext
  rw [hv.2.hook] at hnext
  exact hnext.mono (fun v' hv' => ⟨hv'.1, hv.2.trans hv'.2⟩) (fun _ h => h) fun _ _ h => h

theorem Step.Goes.after {R : β → World → Prop} {g : α → Step World β} (hx : x.Goes Q w)
    (hg : ∀ a v, Whole v → Course w v → Q a v → (g a).Goes R v) :
    Course (x w).state ((x >>= g) w).state := by
  obtain ⟨⟨hwhole, hcourse⟩, -, hanswer⟩ := hx
  rcases h : x w with ⟨v, (stop | a), es⟩
  · rw [Step.bind_of_stop g h]
    exact .refl v
  · rw [h] at hwhole hcourse hanswer
    rw [Step.state_bind_of_ok g h]
    exact (hg a v hwhole hcourse (hanswer a rfl)).state.2

theorem Step.Goes.of_outcome {o : Outcome World α} (hx : x w = o) (hwhole : Whole o.state)
    (hcourse : Course w o.state) (hevents : ∀ e ∈ o.events, e.Permitted w.hook)
    (hanswer : ∀ a, o.answer = .ok a → Q a o.state) : x.Goes Q w where
  state := hx ▸ ⟨hwhole, hcourse⟩
  events := hx ▸ hevents
  answer := hx ▸ hanswer

theorem Step.Goes.still {a : α} (hw : Whole w) (hx : x w = ⟨w, .ok a, []⟩) (ha : Q a w) :
    x.Goes Q w :=
  .of_outcome hx hw (.refl w) nofun fun _ hb => Except.ok.inj hb ▸ ha

theorem Step.Goes.of_eq {y : Step World α} (h : x w = y w) (hy : y.Goes Q w) : x.Goes Q w :=
  Step.Reaches.of_eq h hy

theorem World.Harmless.goes (hx : Harmless x) (hw : Whole w) : x.Goes (fun _ _ => True) w :=
  ((hx w w.hook).reaches (.refl w)).mono (fun _ h => ⟨hw.touched h, h.course⟩) (fun _ h => h)
    fun _ _ _ => trivial

theorem Step.Goes.fault {f : Fault} (hw : Whole w) (hf : ∀ name, f ≠ .registryRace name) :
    (Step.fault f : Step World α).Goes Q w := by
  refine .of_outcome rfl hw (.refl w) (fun e he f' hf' name hrace => ?_) nofun
  obtain rfl := List.mem_singleton.1 he
  exact absurd ((Event.faulted.inj hf').trans hrace) (hf name)

theorem Step.Goes.of_grown (hw : Whole w) (hx : ∀ bound, w.Holds bound →
    x.Reaches (Grown w bound) (Event.Permitted w.hook) (fun _ _ => True) w) :
    x.Goes (fun _ _ => True) w := by
  obtain ⟨bound, hholds, hinside⟩ := hw.bound
  exact (hx bound hholds).mono (fun _ h => h.whole hw hholds hinside) (fun _ h => h)
    fun _ _ h => h

theorem Step.Goes.discard (hx : x.Goes (fun _ _ => True) w) :
    (do let _ ← x : Step World Unit).Goes (fun _ _ => True) w :=
  hx.bind fun _ _ hv _ _ => .still hv rfl trivial

end Goes

namespace World

variable {w w' : World} {name : String} {c : Nat}

theorem bindName_goes (hw : Whole w) (hc : c < w.classes.length) (name : String) :
    (bindName name c).Goes (fun _ _ => True) w := by
  refine .of_grown hw fun bound hholds => ?_
  refine ⟨?_, fun e he f hf name' hrace => ?_, fun _ _ => trivial⟩
  · obtain ⟨reg, hstate, hgrown⟩ := (Grown.refl hholds).bindName hc name
    exact hstate ▸ hgrown
  · obtain ⟨reg, ⟨heq, -⟩ | ⟨heq, -⟩ | ⟨heq, -⟩⟩ := hholds.bindName_cases name c
    · rw [heq] at he
      cases he
    · rw [heq] at he
      cases he
    · rw [heq, List.mem_singleton] at he
      rw [he, hrace] at hf
      cases hf

theorem ensureRegistry_goes (hw : Whole w) (requested : Nat) :
    (ensureRegistry requested).Goes (fun _ _ => True) w := by
  refine .of_grown hw fun bound hholds => ⟨.of_registry hholds ?_, nofun, fun _ _ => trivial⟩
  unfold Holds at hholds
  cases hr : w.registry with
  | none =>
    rw [hr] at hholds
    obtain rfl : bound = [] := hholds
    exact Registry.Represents.new _ _
  | some r =>
    rw [hr] at hholds
    exact hholds

end World

/-- An operation builds a parcel, or it has to do with names, or it is harmless. -/
theorem Operation.harmless_or (op : Operation) :
    (∃ p, op = bootstrap p) ∨ (∃ requested, op = ensureRegistry requested) ∨
      (∃ name c, op = bindName name c) ∨ (∃ c, op = register c) ∨ Harmless op.run := by
  have discard : ∀ {α : Type} {x : Step World α}, Harmless x →
      Harmless (do let _ ← x : Step World Unit) := fun hx => hx.bind fun _ => .pure ()
  cases op with
  | bootstrap p => exact .inl ⟨p, rfl⟩
  | ensureRegistry requested => exact .inr (.inl ⟨requested, rfl⟩)
  | bindName name c => exact .inr (.inr (.inl ⟨name, c, rfl⟩))
  | register c => exact .inr (.inr (.inr (.inl ⟨c, rfl⟩)))
  | setHostAlias c given name =>
    exact .inr (.inr (.inr (.inr (setHostAlias_harmless c given name))))
  | exclude c name => exact .inr (.inr (.inr (.inr (excludeMethod_harmless c name))))
  | make c => exact .inr (.inr (.inr (.inr (discard (makeInstance_harmless c)))))
  | number n => exact .inr (.inr (.inr (.inr (discard (newInteger_harmless n)))))
  | truth b => exact .inr (.inr (.inr (.inr (discard (truth_harmless b)))))
  | classObject c => exact .inr (.inr (.inr (.inr (discard (classObject_harmless c)))))
  | methodObject m => exact .inr (.inr (.inr (.inr (discard (methodObject_harmless m)))))
  | retain o => exact .inr (.inr (.inr (.inr (retain_harmless o))))
  | release o => exact .inr (.inr (.inr (.inr (discard (release_harmless o)))))
  | write o address bytes => exact .inr (.inr (.inr (.inr (writeBytes_harmless o address bytes))))
  | call m self args => exact .inr (.inr (.inr (.inr (discard (call_harmless m self args)))))
  | declare parents methods =>
    exact .inr (.inr (.inr (.inr (.modify fun w => ⟨rfl, fun _ => .refl _, rfl, rfl, rfl, rfl⟩))))

theorem Operation.state_bootstrap (p : ParcelSpec) (w : World) :
    ((bootstrap p).run w).state = (World.bootstrap p w).state :=
  Step.state_bind_pure (World.bootstrap p) (fun _ => ()) w

theorem Operation.state_bindName (name : String) (c : ClassId) (w : World) :
    ((bindName name c).run w).state = w ∨
      ((bindName name c).run w).state = (World.bindName name c w).state := by
  by_cases hc : c < w.classes.length
  · refine .inr ((congrArg Outcome.state (if_pos hc)).trans ?_)
    exact Step.state_bind_pure (World.bindName name c) (fun _ => ()) w
  · exact .inl (congrArg Outcome.state (if_neg hc))

theorem Operation.state_register (c : ClassId) (w : World) :
    ((register c).run w).state = w ∨
      ((register c).run w).state = (World.bindName (w.nameOf c) c w).state := by
  by_cases hc : c < w.classes.length
  · refine .inr ((congrArg Outcome.state (if_pos hc)).trans ?_)
    exact Step.state_bind_pure (World.register c) (fun _ => ()) w
  · exact .inl (congrArg Outcome.state (if_neg hc))

/-- An operation leads from a whole world to a whole world. -/
theorem Operation.goes (op : Operation) {w : World} (hw : Whole w) :
    op.run.Goes (fun _ _ => True) w := by
  rcases op.harmless_or with ⟨p, rfl⟩ | ⟨requested, rfl⟩ | ⟨name, c, rfl⟩ | ⟨c, rfl⟩ | hop
  · exact (Step.Goes.of_grown hw fun _ h => bootstrap_grown p hw.slots h).discard
  · exact ensureRegistry_goes hw requested
  · by_cases hc : c < w.classes.length
    · exact .of_eq (if_pos hc) (bindName_goes hw hc name).discard
    · exact .still hw (if_neg hc) trivial
  · by_cases hc : c < w.classes.length
    · have hregister : (World.register c).Goes (fun _ _ => True) w :=
        .of_eq (y := World.bindName (w.nameOf c) c) rfl (bindName_goes hw hc _)
      exact .of_eq (if_pos hc) hregister.discard
    · exact .still hw (if_neg hc) trivial
  · exact hop.goes hw

end ObjectSystem
