import ObjectSystem.Object.Boxed
import ObjectSystem.Object.Lifetime

/-! # Calling methods

A method is called by looking up the function that the class of an object has for it and running
that function on the object.  `Code.run` says what each function does, apart from Destroy. -/

namespace ObjectSystem

/-- What a function gives back. -/
inductive Value
  | text (s : String)
  | number (n : Int)
  | truth (b : Bool)
  | ordering (o : Ordering)
  | nothing
  deriving DecidableEq, Repr

/-- What a function is given besides the object. -/
structure Arguments where
  number : Int := 0
  text : String := ""
  other : ObjRef
  deriving DecidableEq, Repr

namespace World

/-- The byte of an object that the functions by byte look at: the first after the header. -/
def firstByte (w : World) (o : ObjRef) : UInt8 :=
  if (w.get (w.classOf o)).objSize ≤ headerSize then 0 else w.byteAt o headerSize

/-- The text that the root class gives for an object. -/
def defaultText (w : World) (o : ObjRef) : String := w.classNameOf o ++ "@ADDR"

/-- The text of a class or method that is seen as an object. -/
def reflectedText (w : World) : ObjRef → String
  | .ofClass c => w.nameOf c
  | .ofMethod c i => ((w.methodAt (c, i)).map (·.name)).getD ""
  | .allocated _ => ""

end World

namespace Body

/-- What a function does on an object. -/
def run (b : Body) (w : World) (self : ObjRef) (args : Arguments) : Value :=
  match b with
  | tag k => .text ("s" ++ toString k ++ ":" ++ w.classNameOf self)
  | constant k => .number (100 + k)
  | digit k => .number (args.number * 10 + k)
  | reply k => .text ("e" ++ toString k ++ ":" ++ w.classNameOf self ++ ":" ++ args.text)
  | teardown _ => .nothing
  | equalsNever => .truth false
  | equalsAlways => .truth true
  | equalsClass => .truth (w.classOf self = w.classOf args.other)
  | equalsByte => .truth (w.firstByte self = w.firstByte args.other)
  | compareEqual => .ordering .eq
  | compareClass => .ordering (compare (w.classNameOf self) (w.classNameOf args.other))
  | compareByte => .ordering (compare (w.firstByte self) (w.firstByte args.other))
  | compareByteReversed => .ordering (compare (w.firstByte args.other) (w.firstByte self))

end Body

namespace Code

open World in
/-- What a function does on an object. -/
def run (code : Code) (self : ObjRef) (args : Arguments) : Step World Value :=
  match code with
  | objDestroy | immortalDestroy => pure .nothing
  | objToString => Step.gets fun w => .text (w.defaultText self)
  | objEquals => pure (.truth (self = args.other))
  | objCompareTo => fun w => Step.fault (.abstractMethod (w.classNameOf self) "Compare_To") w
  | classToString | methodToString => Step.gets fun w => .text (w.reflectedText self)
  | booleanToString => do
    return .text (Text.ofBool ((← truthValue self).getD false))
  | booleanEquals => do
    match ← truthValue self, ← truthValue args.other with
    | some a, some b => pure (.truth (a = b))
    | _, _ => pure (.truth false)
  | integerToString => do
    return .text (toString ((← integerValue self).getD 0))
  | integerEquals => do
    match ← integerValue self, ← integerValue args.other with
    | some a, some b => pure (.truth (a = b))
    | _, _ => pure (.truth false)
  | integerCompareTo => do
    match ← integerValue self, ← integerValue args.other with
    | some a, some b => pure (.ordering (compare a b))
    | _, _ => fun w =>
      Step.fault (.incomparableObjects (w.classNameOf self) (w.classNameOf args.other)) w
  | custom b => Step.gets fun w => b.run w self args

end Code

namespace World

/-- Calls a method of an object. -/
def call (m : MethodRef) (self : ObjRef) (args : Arguments) : Step World Value := do
  let w ← Step.get
  let code ← Step.ofExcept (w.resolve (w.classOf self) m)
  code.run self args

end World

end ObjectSystem
