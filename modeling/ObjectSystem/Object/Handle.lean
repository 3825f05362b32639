import ObjectSystem.World

/-! # Objects and their headers

An `ObjRef` names an object: an instance that was allocated, or a class or method seen as an
object.  Every object has a class and a count of the handles on it.  Instances of special classes
are immortal, and their count stays as it is. -/

namespace ObjectSystem

/-- An object. -/
inductive ObjRef
  | allocated (i : Nat)
  | ofClass (c : ClassId)
  | ofMethod (c : ClassId) (i : Nat)
  deriving DecidableEq, Repr

namespace World

/-- The class of an object, if its header has one. -/
def classOf? (w : World) : ObjRef → Option ClassId
  | .allocated i => w.objects[i]?.map (·.cls)
  | .ofClass c => (w.get c).metaclass
  | .ofMethod c i => (w.methodAt (c, i)).bind (·.metaclass)

/-- The class of an object. -/
def classOf (w : World) (o : ObjRef) : ClassId := (w.classOf? o).getD 0

/-- The name of the class of an object. -/
def classNameOf (w : World) (o : ObjRef) : String := w.nameOf (w.classOf o)

/-- The handles on an object. -/
def count (w : World) : ObjRef → Nat
  | .allocated i => (w.objects[i]?.map (·.count)).getD 0
  | .ofClass c => (w.get c).handles
  | .ofMethod c i => ((w.methodAt (c, i)).map (·.handles)).getD 0

/-- Changes the count of an object. -/
def modifyCount (f : Nat → Nat) : ObjRef → Step World Unit
  | .allocated i => .modify fun w =>
    { w with objects := w.objects.modify i fun o => { o with count := f o.count } }
  | .ofClass c => modifyClass c fun d => { d with handles := f d.handles }
  | .ofMethod c i => modifyMethod c i fun m => { m with handles := f m.handles }

/-- Handles on the object are not counted. -/
def isImmortal (w : World) (o : ObjRef) : Bool := (w.get (w.classOf o)).flags.special

/-- Whether the class of an object is `c` or inherits from it. -/
def isA (w : World) (o : ObjRef) (c : ClassId) : Bool := w.isSubclassOf (w.classOf o) c

/-- Allocates an instance of a class, with one handle and all bytes zero. -/
def makeInstance (c : ClassId) : Step World ObjRef := fun w =>
  ⟨{ w with objects := w.objects ++ [{ cls := c }] }, .ok (.allocated w.objects.length), []⟩

/-- A class as an object.  Before there is a class of classes this is a fault. -/
def classObject (c : ClassId) : Step World ObjRef := fun w =>
  if (w.get c).metaclass.isSome then ⟨w, .ok (.ofClass c), []⟩
  else Step.fault .classNotBootstrapped w

/-- A method as an object.  Before there is a class of methods this is a fault. -/
def methodObject (m : ClassId × Nat) : Step World ObjRef := fun w =>
  if ((w.methodAt m).bind (·.metaclass)).isSome then ⟨w, .ok (.ofMethod m.1 m.2), []⟩
  else Step.fault .classNotBootstrapped w

/-- One more handle on an object. -/
def retain (o : ObjRef) : Step World Unit := fun w =>
  if w.isImmortal o then ⟨w, .ok (), []⟩ else modifyCount (· + 1) o w

/-- A byte of an object. -/
def byteAt (w : World) (o : ObjRef) (address : Nat) : UInt8 :=
  match o with
  | .allocated i => (w.objects[i]?.map (·.bytes address)).getD 0
  | _ => 0

/-- Some bytes of an object. -/
def bytesAt (w : World) (o : ObjRef) (address length : Nat) : List UInt8 :=
  (List.range length).map fun k => w.byteAt o (address + k)

/-- Writes bytes into an object. -/
def writeBytes (o : ObjRef) (address : Nat) (bytes : List UInt8) : Step World Unit :=
  match o with
  | .allocated i => .modify fun w =>
    { w with
      objects := w.objects.modify i fun x =>
        { x with
          bytes := fun a =>
            if address ≤ a then (bytes[a - address]?).getD (x.bytes a) else x.bytes a } }
  | _ => pure ()

/-- The text of an object's header. -/
def describeObject (w : World) (o : ObjRef) : String :=
  Text.record "Obj" [("class", Text.quote (w.classNameOf o)), ("refcount", toString (w.count o))]

end World

end ObjectSystem
