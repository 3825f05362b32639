import ObjectSystem.Text.Quoted

/-! # Code in vtables

What a slot of a vtable holds.  A `Code` is one function, known by its label; two functions are
the same if their labels are.  Every function has a `Signature`, and a slot is only ever read at
the signature of the function in it.

Besides the functions of the core classes there are the `Body` functions that other classes can
install: they give a text or a number, tear an object down, or compare two objects. -/

namespace ObjectSystem

/-- The shapes of the functions that a slot can hold.  Each takes an object; the comment says what
else it takes and what it gives. -/
inductive Signature
  /-- Gives a text. -/
  | text
  /-- Gives a number. -/
  | number
  /-- Takes a number and gives one. -/
  | numberOf
  /-- Takes a text and gives one. -/
  | textOf
  /-- Gives nothing; the object is dead afterwards. -/
  | destroy
  /-- Takes another object and gives a truth value. -/
  | equals
  /-- Takes another object and gives an ordering. -/
  | compare
  deriving DecidableEq, Repr

/-- Functions that any class can install. -/
inductive Body
  /-- The class of the object behind a tag. -/
  | tag (k : Nat)
  /-- A fixed number. -/
  | constant (k : Nat)
  /-- The given number with a digit behind it. -/
  | digit (k : Nat)
  /-- The class of the object and the given text behind a tag. -/
  | reply (k : Nat)
  /-- A note of the object's end, then what the parent of the function's owner does. -/
  | teardown (k : Nat)
  | equalsNever
  | equalsAlways
  /-- The classes are the same. -/
  | equalsClass
  /-- The first bytes after the headers are the same. -/
  | equalsByte
  | compareEqual
  /-- By the names of the classes. -/
  | compareClass
  /-- By the first bytes after the headers. -/
  | compareByte
  | compareByteReversed
  deriving DecidableEq, Repr

namespace Body

/-- The signature of a function. -/
def signature : Body → Signature
  | tag _ => .text
  | constant _ => .number
  | digit _ => .numberOf
  | reply _ => .textOf
  | teardown _ => .destroy
  | equalsNever | equalsAlways | equalsClass | equalsByte => .equals
  | compareEqual | compareClass | compareByte | compareByteReversed => .compare

/-- The label of a function. -/
def label : Body → String
  | tag k => "str" ++ toString k
  | constant k => "int" ++ toString k
  | digit k => "add" ++ toString k
  | reply k => "echo" ++ toString k
  | teardown k => "destroy" ++ toString k
  | equalsNever => "eq_never"
  | equalsAlways => "eq_always"
  | equalsClass => "eq_class"
  | equalsByte => "eq_byte"
  | compareEqual => "cmp_equal"
  | compareClass => "cmp_class"
  | compareByte => "cmp_byte"
  | compareByteReversed => "cmp_byte_rev"

/-- All functions that can be asked for by label. -/
def all : List Body :=
  (List.range 6).map tag ++ (List.range 6).map constant ++ (List.range 4).map digit ++
    (List.range 3).map reply ++ (List.range 5).map teardown ++
    [equalsNever, equalsAlways, equalsClass, equalsByte, compareEqual, compareClass, compareByte,
      compareByteReversed]

/-- The function of a label. -/
def ofLabel? (s : String) : Option Body := all.find? (·.label == s)

end Body

/-- The functions of the core classes, and those that other classes install. -/
inductive Code
  | objDestroy | objToString | objEquals | objCompareTo
  | immortalDestroy | classToString | methodToString
  | booleanToString | booleanEquals
  | integerToString | integerEquals | integerCompareTo
  | custom (b : Body)
  deriving DecidableEq, Repr

namespace Code

/-- The signature of a function. -/
def signature : Code → Signature
  | objDestroy | immortalDestroy => .destroy
  | objToString | classToString | methodToString | booleanToString | integerToString => .text
  | objEquals | booleanEquals | integerEquals => .equals
  | objCompareTo | integerCompareTo => .compare
  | custom b => b.signature

/-- The label of a function. -/
def label : Code → String
  | objDestroy => "Obj.Destroy"
  | objToString => "Obj.To_String"
  | objEquals => "Obj.Equals"
  | objCompareTo => "Obj.Compare_To"
  | immortalDestroy => "Class.Destroy"
  | classToString => "Class.To_String"
  | methodToString => "Method.To_String"
  | booleanToString => "Boolean.To_String"
  | booleanEquals => "Boolean.Equals"
  | integerToString => "Integer.To_String"
  | integerEquals => "Integer.Equals"
  | integerCompareTo => "Integer.Compare_To"
  | custom b => b.label

end Code

end ObjectSystem
