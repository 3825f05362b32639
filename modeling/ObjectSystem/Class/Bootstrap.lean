import ObjectSystem.World

/-! # Building the classes of a parcel

A `ParcelSpec` lists the classes of a parcel, parents before children, and the methods that they
introduce, override and inherit.  The three lists of methods are shared out among the classes in
order, each taking as many as it says.  `World.bootstrap` builds the classes in three passes:

* `publishAll` makes a blank descriptor of the right size for each class and puts it into its slot;
* `completeAll` settles parents, sizes and flags, and fills the vtables: a copy of the parent's
  first, then what is inherited, overridden and introduced;
* `nameAll` gives the classes their names and methods and registers them.

A fault in a pass leaves what was done until then. -/

namespace ObjectSystem

/-- A class to be built. -/
structure ClassSpec where
  slot : ClassSlot
  parent : Option ClassSlot
  name : String
  /-- The bytes that the class adds to those of the nearest ancestor from another parcel. -/
  ivarsSize : Nat
  cell : Option IvarsCell
  numNovel : Nat
  numOverridden : Nat
  numInherited : Nat
  flags : Flags
  deriving DecidableEq, Repr

/-- A method that a class introduces. -/
structure NovelSpec where
  method : MethodRef
  code : Code
  callback : Option Code
  deriving DecidableEq, Repr

/-- A method of an ancestor that a class replaces. -/
structure OverriddenSpec where
  method : MethodRef
  parent : MethodRef
  code : Code
  deriving DecidableEq, Repr

/-- A method of an ancestor that a class keeps. -/
structure InheritedSpec where
  method : MethodRef
  parent : MethodRef
  deriving DecidableEq, Repr

/-- The function of a new method and its callback have the signature of the reference. -/
def NovelSpec.wellSigned (s : NovelSpec) : Bool :=
  s.code.signature = s.method.signature && s.callback.all (·.signature = s.method.signature)

/-- The replaced method and the function that replaces it have the signature of the reference. -/
def OverriddenSpec.wellSigned (s : OverriddenSpec) : Bool :=
  s.parent.signature = s.method.signature && s.code.signature = s.method.signature

/-- The kept method has the signature of the reference. -/
def InheritedSpec.wellSigned (s : InheritedSpec) : Bool :=
  s.parent.signature = s.method.signature

/-- The classes of a parcel and their methods. -/
structure ParcelSpec where
  classes : List ClassSpec := []
  novel : List NovelSpec := []
  overridden : List OverriddenSpec := []
  inherited : List InheritedSpec := []
  deriving DecidableEq, Repr

/-- In every entry the functions and references have one signature. -/
def ParcelSpec.wellSigned (p : ParcelSpec) : Bool :=
  p.novel.all (·.wellSigned) && p.overridden.all (·.wellSigned) && p.inherited.all (·.wellSigned)

namespace World

/-! ### The first pass -/

/-- Makes the blank descriptor of a class and puts it into its slot. -/
def publish (s : ClassSpec) : Step World Unit := do
  let base ← match s.parent with
    | none => pure vtableOffset
    | some p => do
      let c ← slotClass p
      Step.gets fun w => (w.get c).classSize
  let w ← Step.get
  if (w.slots s.slot).isSome then Step.fault (.doubleBootstrap s.name)
  else
    Step.set { w with classes := w.classes ++ [.blank (base + s.numNovel * slotSize)] }
    fillSlot s.slot w.classes.length

/-- Publishes classes in order. -/
def publishAll : List ClassSpec → Step World Unit
  | [] => pure ()
  | s :: rest => do
    publish s
    publishAll rest

/-! ### The second pass -/

/-- Where the variables of a class of this parcel begin: at the size of the nearest ancestor from
another parcel. -/
def ivarsOffset (w : World) (parent : Option ClassId) (parcel : Nat) : Nat :=
  match parent with
  | none => 0
  | some p =>
    match (w.ancestors p).find? fun a => (w.get a).parcel != parcel with
    | none => 0
    | some a => (w.get a).objSize

/-- Hands a class under construction to the hook. -/
def callHook (c : ClassId) : Step World Unit := do
  let w ← Step.get
  match w.hook with
  | none => pure ()
  | some hook =>
    let d := w.get c
    Step.set { w with
      hookCalls := w.hookCalls ++ [⟨d, d.parent.map w.nameOf⟩] }
    tryModifyClass c (hook.apply w.offsets)

/-- Passes the offsets of inherited methods on. -/
def inheritAll : List InheritedSpec → Step World Unit
  | [] => pure ()
  | s :: rest => do
    setOffset s.method (← Step.gets (·.offsets s.parent))
    inheritAll rest

/-- Puts overriding functions into the vtable of a class. -/
def overrideAll (c : ClassId) : List OverriddenSpec → Step World Unit
  | [] => pure ()
  | s :: rest => do
    let offset ← Step.gets (·.offsets s.parent)
    setOffset s.method offset
    tryModifyClass c (·.install s.code offset)
    overrideAll c rest

/-- Puts new functions into the vtable of a class, from an offset on. -/
def introduceAll (c : ClassId) : Nat → List NovelSpec → Step World Unit
  | _, [] => pure ()
  | offset, s :: rest => do
    setOffset s.method offset
    tryModifyClass c (·.install s.code offset)
    introduceAll c (offset + slotSize) rest

/-- The descriptor of a class with parents, sizes and the class of classes settled.  The size of an
instance wraps around when it is too large. -/
def settle (d : Descriptor) (w : World) (s : ClassSpec) (parent : Option ClassId) (parcel : Nat)
    (ivars : Nat) : Descriptor :=
  let base := match parent with
    | none => vtableOffset
    | some p => (w.get p).classSize
  { d with
    metaclass := w.slots .cls
    parent
    parcel
    classSize := base + s.numNovel * slotSize
    objSize := if s.slot = .cls then vtableOffset else (ivars + s.ivarsSize) % sizeLimit }

/-- The descriptor with the flags of its class and the slots of the parent in front. -/
def inherit (d : Descriptor) (s : ClassSpec) (parentSlots : List (Option Code)) : Descriptor :=
  { d with
    flags := ⟨s.slot.isSpecial, s.flags.final⟩
    vtable := parentSlots ++ d.vtable.drop parentSlots.length }

/-- Completes a published class with its shares of the methods. -/
def complete (parcel : Nat) (s : ClassSpec) (novel : List NovelSpec)
    (overridden : List OverriddenSpec) (inherited : List InheritedSpec) : Step World Unit := do
  let parent ← match s.parent with
    | none => pure none
    | some p => do
      let c ← slotClass p
      pure (some c)
  let ivars ← Step.gets (·.ivarsOffset parent parcel)
  match s.cell with
  | none => pure ()
  | some cell => setCell cell ivars
  let c ← slotClass s.slot
  let w ← Step.get
  modifyClass c fun d => settle d w s parent parcel ivars
  callHook c
  let w ← Step.get
  let parentSlots := match parent with
    | none => []
    | some p => (w.get p).vtable
  let base := match parent with
    | none => vtableOffset
    | some p => (w.get p).classSize
  modifyClass c fun d => inherit d s parentSlots
  inheritAll inherited
  overrideAll c overridden
  introduceAll c base novel

/-- Completes classes in order and shares the methods out among them. -/
def completeAll (parcel : Nat) : List ClassSpec → List NovelSpec → List OverriddenSpec →
    List InheritedSpec → Step World Unit
  | [], _, _, _ => pure ()
  | s :: rest, novel, overridden, inherited => do
    complete parcel s (novel.take s.numNovel) (overridden.take s.numOverridden)
      (inherited.take s.numInherited)
    completeAll parcel rest (novel.drop s.numNovel) (overridden.drop s.numOverridden)
      (inherited.drop s.numInherited)

/-! ### The third pass -/

/-- What is known of a method that was introduced. -/
def methodOf (w : World) (s : NovelSpec) : Method :=
  { metaclass := w.slots .method
    name := s.method.name
    callback := s.callback
    offset := w.offsets s.method }

/-- Gives a class its name and methods, and registers it. -/
def finish (parcel : Nat) (s : ClassSpec) (novel : List NovelSpec) : Step World Unit := do
  let c ← slotClass s.slot
  let w ← Step.get
  if (w.get c).name?.isSome then Step.fault (.doubleBootstrap s.name)
  else
    modifyClass c ({ · with name? := some s.name, methods? := some (novel.map w.methodOf) })
    if !(← register c) then Step.emit (.nameTaken s.name)
    Step.emit (.classRegistered s.name parcel (w.get c).classSize)

/-- Finishes classes in order and shares the new methods out among them. -/
def finishAll (parcel : Nat) : List ClassSpec → List NovelSpec → Step World Unit
  | [], _ => pure ()
  | s :: rest, novel => do
    finish parcel s (novel.take s.numNovel)
    finishAll parcel rest (novel.drop s.numNovel)

/-! ### The whole -/

/-- Builds the classes of a parcel.  Answers the number of the parcel. -/
def bootstrap (p : ParcelSpec) : Step World Nat := do
  Step.modify fun w => { w with parcels := w.parcels + 1 }
  let parcel ← Step.gets (·.parcels)
  publishAll p.classes
  completeAll parcel p.classes p.novel p.overridden p.inherited
  finishAll parcel p.classes p.novel
  Step.emit (.parcelBootstrapped parcel p.classes.length)
  pure parcel

/-- The teardown functions that a class lists, in order. -/
def teardowns (novel : List NovelSpec) (overridden : List OverriddenSpec) : List Nat :=
  (novel.map (·.code) ++ overridden.map (·.code)).filterMap fun
    | .custom (.teardown k) => some k
    | _ => none

/-- Makes the slot of a class the owner of functions that have none yet. -/
def ownAll (slot : ClassSlot) : List Nat → World → World
  | [], w => w
  | k :: rest, w =>
    ownAll slot rest
      { w with owners := fun n => if n = k then some ((w.owners k).getD slot) else w.owners n }

/-- Settles the owners of teardown functions before the classes are built: a function belongs to
the first class that lists it. -/
def settleOwners : List ClassSpec → List NovelSpec → List OverriddenSpec → World → World
  | [], _, _, w => w
  | s :: rest, novel, overridden, w =>
    settleOwners rest (novel.drop s.numNovel) (overridden.drop s.numOverridden)
      (ownAll s.slot (teardowns (novel.take s.numNovel) (overridden.take s.numOverridden)) w)

end World

end ObjectSystem
