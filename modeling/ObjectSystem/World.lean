import ObjectSystem.Class.Descriptor
import ObjectSystem.Class.Host
import ObjectSystem.Registry

/-! # Worlds

A `World` is all there is at a time: the classes in the order in which they were made, the slots
and cells that the bootstrap of parcels has filled, the offsets that method references stand for,
the registry of names, what the host has declared, and the objects.

Classes are never removed, and the parent of a class was there before it.  The walks from a class
up to its root are given the number of classes as their allowance, which is never used up. -/

namespace ObjectSystem

/-- An object that was allocated. -/
structure Instance where
  cls : ClassId
  /-- The handles on the object. -/
  count : Nat := 1
  /-- The bytes of the object by their distance from its start. -/
  bytes : Nat → UInt8 := fun _ => 0
  /-- The memory of the object was given back. -/
  freed : Bool := false

/-- What a hook did to a class under construction, given the offsets of methods at the time. -/
structure Hook where
  apply : (MethodRef → Nat) → Descriptor → Except Fault Descriptor

/-- A class as it was handed to a hook. -/
structure HookCall where
  cls : Descriptor
  parentName : Option String

/-- All there is. -/
structure World where
  classes : List Descriptor := []
  slots : ClassSlot → Option ClassId := fun _ => none
  cells : IvarsCell → Nat := fun _ => 0
  offsets : MethodRef → Nat := fun _ => 0
  /-- How many numbers were given to parcels. -/
  parcels : Nat := 0
  /-- The hash that places names in the registry, once it is made. -/
  hash : String → Nat := fun _ => 0
  registry : Option (Registry ClassId) := none
  host : HostTable := {}
  /-- What is done to every class before its vtable is filled. -/
  hook : Option Hook := none
  /-- The classes handed to the hook. -/
  hookCalls : List HookCall := []
  objects : List Instance := []
  /-- The two truth values, false first, once they are made. -/
  truths : Option (Nat × Nat) := none
  /-- The slot of the class that first listed a teardown function. -/
  owners : Nat → Option ClassSlot := fun _ => none
  /-- What the functions of classes have noted. -/
  notes : List String := []

namespace World

/-! ### Classes and slots -/

/-- The descriptor of a class. -/
def get (w : World) (c : ClassId) : Descriptor := w.classes[c]?.getD (.blank 0)

/-- The name of a class. -/
def nameOf (w : World) (c : ClassId) : String := (w.get c).name

/-- Changes the descriptor of a class. -/
def modifyClass (c : ClassId) (f : Descriptor → Descriptor) : Step World Unit :=
  .modify fun w => { w with classes := w.classes.modify c f }

/-- Changes the descriptor of a class by an operation that can fail. -/
def tryModifyClass (c : ClassId) (f : Descriptor → Except Fault Descriptor) : Step World Unit :=
  fun w =>
    match f (w.get c) with
    | .ok d => modifyClass c (fun _ => d) w
    | .error e => Step.fault e w

/-- The class in a slot; an empty slot is a fault. -/
def slotClass (s : ClassSlot) : Step World ClassId := fun w =>
  match w.slots s with
  | some c => ⟨w, .ok c, []⟩
  | none => Step.fault .classNotBootstrapped w

/-- Puts a class into a slot. -/
def fillSlot (s : ClassSlot) (c : ClassId) : Step World Unit :=
  .modify fun w => { w with slots := fun t => if t = s then some c else w.slots t }

/-- Sets the offset in a cell. -/
def setCell (cell : IvarsCell) (offset : Nat) : Step World Unit :=
  .modify fun w => { w with cells := fun c => if c = cell then offset else w.cells c }

/-- Sets the offset that a method reference stands for. -/
def setOffset (m : MethodRef) (offset : Nat) : Step World Unit :=
  .modify fun w => { w with offsets := fun n => if n = m then offset else w.offsets n }

/-! ### The class forest -/

/-- At most `n` classes from a class upward. -/
def ancestorsUpTo (w : World) : Nat → ClassId → List ClassId
  | 0, _ => []
  | n + 1, c =>
    c :: match (w.get c).parent with
      | none => []
      | some p => ancestorsUpTo w n p

/-- A class, its parent, and so on up to the root. -/
def ancestors (w : World) (c : ClassId) : List ClassId := w.ancestorsUpTo w.classes.length c

/-- Whether `b` is met within `n` steps from `a` upward. -/
def descendsUpTo (w : World) : Nat → ClassId → ClassId → Bool
  | 0, _, _ => false
  | n + 1, a, b =>
    a = b ||
      match (w.get a).parent with
      | none => false
      | some p => descendsUpTo w n p b

/-- Whether `a` is `b` or inherits from it. -/
def isSubclassOf (w : World) (a b : ClassId) : Bool := w.descendsUpTo w.classes.length a b

/-- The first method of a name that a class or one of its ancestors introduced: the class and the
place among its methods. -/
def findMethod (w : World) (c : ClassId) (name : String) : Option (ClassId × Nat) :=
  (w.ancestors c).findSome? fun a =>
    ((w.get a).methods.findIdx? (·.name == name)).map (a, ·)

/-- The method at a place among the methods of a class. -/
def methodAt (w : World) (m : ClassId × Nat) : Option Method := (w.get m.1).methods[m.2]?

/-- The function that a class has for a method. -/
def resolve (w : World) (c : ClassId) (m : MethodRef) : Except Fault Code :=
  match (w.get c).slot (w.offsets m) with
  | .error f => .error f
  | .ok (some code) => .ok code
  | .ok none => .error (.abstractMethod (w.nameOf c) m.name)

/-- The text of a class. -/
def describeClass (w : World) (c : ClassId) : String :=
  let d := w.get c
  Text.record "Class"
    [("name", Text.quote d.name),
      ("parent", Text.ofOption (d.parent.map fun p => Text.quote (w.nameOf p))),
      ("parcel_id", toString d.parcel), ("obj_alloc_size", toString d.objSize),
      ("class_alloc_size", toString d.classSize), ("slots", toString d.vtable.length)]

/-- The text of a method reference. -/
def describeRef (w : World) (m : MethodRef) : String :=
  Text.record "MethodRef" [("name", Text.quote m.name), ("offset", toString (w.offsets m))]

/-! ### Names -/

/-- The size of the registry unless another one is asked for. -/
def defaultCapacity : Nat := 256

/-- Makes the registry if there is none yet. -/
def ensureRegistry (requested : Nat) : Step World Unit := .modify fun w =>
  { w with registry := some (w.registry.getD (.new w.hash requested)) }

/-- The class of a name. -/
def fetchClass (w : World) (name : String) : Option ClassId :=
  w.registry.bind (·.fetch name)

/-- Binds a name to a class unless it is bound.  Answers whether it did. -/
def bindName (name : String) (c : ClassId) : Step World Bool := do
  ensureRegistry defaultCapacity
  fun w =>
    match w.registry with
    | none => ⟨w, .ok false, []⟩
    | some r => (Registry.register name c r).mapState fun r => { w with registry := some r }

/-- Binds the own name of a class. -/
def register (c : ClassId) : Step World Bool := fun w => bindName (w.nameOf c) c w

/-! ### Names for methods on the side of the host -/

/-- The place of a method among those that a class itself introduced. -/
def ownMethod (c : ClassId) (name : String) : Step World Nat := fun w =>
  match (w.get c).methods.findIdx? (·.name == name) with
  | some i => ⟨w, .ok i, []⟩
  | none => Step.fault (.methodNotFound (w.nameOf c) name) w

/-- Changes a method of a class. -/
def modifyMethod (c : ClassId) (i : Nat) (f : Method → Method) : Step World Unit :=
  modifyClass c fun d => { d with methods? := d.methods?.map (·.modify i f) }

/-- Gives a method of a class another name on the side of the host.  This can be done once. -/
def setHostAlias (c : ClassId) (given name : String) : Step World Unit := do
  let i ← ownMethod c name
  let w ← Step.get
  if ((w.methodAt (c, i)).bind Method.hostAlias?).isSome then
    Step.emit (.hostAliasTaken (w.nameOf c) name)
  else modifyMethod c i ({ · with hostAlias? := some given })

/-- Keeps the host from taking the place of a method of a class. -/
def excludeMethod (c : ClassId) (name : String) : Step World Unit := do
  let i ← ownMethod c name
  modifyMethod c i ({ · with excluded := true })

end World

end ObjectSystem
