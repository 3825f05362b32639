import ObjectSystem.Config.Settings
import ObjectSystem.Object.Dispatch

/-! # Answers

What a session answers to a command. -/

namespace ObjectSystem

/-- A class as it is shown from outside: its descriptor, and the names of the classes above it. -/
structure ClassView where
  descriptor : Descriptor
  parentName : Option String
  /-- The class itself and those that it inherits from, upward. -/
  ancestorNames : List String
  deriving DecidableEq, Repr

/-- The class as it is shown from outside. -/
def World.view (w : World) (c : ClassId) : ClassView :=
  let d := w.get c
  ⟨d, d.parent.map w.nameOf, (w.ancestors c).map w.nameOf⟩

/-- The answer to a command. -/
inductive Answer
  | nothing
  | flag (b : Bool)
  | flags (a b : Bool)
  | number (n : Int)
  | text (s : String)
  | textIf (s : Option String)
  | numberIf (n : Option Int)
  | flagIf (b : Option Bool)
  | bytes (bs : List UInt8)
  /-- What a method gave back. -/
  | value (v : Value)
  /-- An object that is kept now: the name of its class and the handles on it. -/
  | object (cls : String) (handles : Nat)
  | cls (v : ClassView)
  | code (label : Option String)
  | method (m : Option Method)
  | methods (ms : List Method)
  | reference (offset : Nat) (text : String)
  /-- Whether there is a class in a slot, and its name. -/
  | slot (filled : Bool) (name : Option String)
  /-- A class and its parent. -/
  | subclass (name : String) (parent : Option String)
  | pairs (l : List (String × String))
  /-- Objects in order, and the handles on them before and after they were taken out. -/
  | sorted (keys : List String) (before after : List Nat)
  | parcel (name : String) (done : Bool) (text : String)
  | hookCalls (l : List HookCall)
  /-- What a host says of a class. -/
  | hosted (parent : Option String) (methods : List String)
  | registry (capacity size : Nat) (names : List String)
  | settings (s : Settings)
  | runtime (settings : Option Settings) (logging : Bool)
  /-- Whether a handle that there is not stays so, the handles on it, and those after a release. -/
  | absent (still : Bool) (handles left : Nat)

end ObjectSystem
