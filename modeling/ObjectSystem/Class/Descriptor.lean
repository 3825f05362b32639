import ObjectSystem.Class.Code
import ObjectSystem.Text.Lowercase
import ObjectSystem.Text.Record
import ObjectSystem.Step

/-! # Class descriptors

A `Descriptor` is what is known of a class: its parent, sizes, flags and name, the methods that it
introduced, and its vtable.  The vtable is part of the descriptor: it begins `vtableOffset` bytes
into it, and a slot is named by its distance in bytes from the start of the descriptor.  A subclass
has the slots of its parent in the same places and its own behind them, so an offset that is right
for a class is right for all of its descendants.

A `MethodRef` is a name for a slot with the signature of what is in it; the offset that it stands
for is set when the class that introduces it is built. -/

namespace ObjectSystem

/-- The bytes that the header of an object takes. -/
def headerSize : Nat := 24

/-- Where in a descriptor the vtable begins. -/
def vtableOffset : Nat := 104

/-- The bytes that a slot takes. -/
def slotSize : Nat := 8

/-- One more than the largest size or offset that can be written down. -/
def sizeLimit : Nat := UInt32.size

/-- Properties of a class as a set of marks. -/
structure Flags where
  /-- Handles on instances are not counted, and instances never die. -/
  special : Bool := false
  /-- There are no subclasses. -/
  final : Bool := false
  deriving DecidableEq, Repr

namespace Flags

/-- The marks as a number. -/
def bits (f : Flags) : Nat := (if f.special then 1 else 0) + (if f.final then 2 else 0)

/-- The marks of either. -/
def union (f g : Flags) : Flags := ⟨f.special || g.special, f.final || g.final⟩

/-- All marks of `g` are among those of `f`. -/
def contains (f g : Flags) : Bool := (!g.special || f.special) && (!g.final || f.final)

end Flags

/-- A class, by its place in the order in which classes were made. -/
abbrev ClassId := Nat

/-- A place where the bootstrap of a parcel puts a class, for others to find it. -/
structure ClassSlot where
  key : String
  deriving DecidableEq, Repr

namespace ClassSlot

/-- The slot of the root class. -/
def obj : ClassSlot := ⟨"Obj"⟩

/-- The slot of the class of classes. -/
def cls : ClassSlot := ⟨"Class"⟩

/-- The slot of the class of methods. -/
def method : ClassSlot := ⟨"Method"⟩

/-- The slot of the class of truth values. -/
def boolean : ClassSlot := ⟨"Boolean"⟩

/-- The slot of the class of numbers. -/
def integer : ClassSlot := ⟨"Integer"⟩

/-- Handles on instances of the class in this slot are not counted. -/
def isSpecial (s : ClassSlot) : Bool := s = cls || s = method || s = boolean

end ClassSlot

/-- A place for the offset of the variables that a class adds to its instances. -/
inductive IvarsCell
  | ofCore (slot : ClassSlot)
  | of (slot : ClassSlot)
  deriving DecidableEq, Repr

/-- A name for a slot of vtables. -/
structure MethodRef where
  key : String
  name : String
  signature : Signature
  deriving DecidableEq, Repr

/-- What is known of a method that a class introduced. -/
structure Method where
  /-- The class of methods, when there was one. -/
  metaclass : Option ClassId
  /-- The handles on the method as an object. -/
  handles : Nat := 1
  name : String
  /-- What takes the place of the method in a subclass whose host defines it. -/
  callback : Option Code
  offset : Nat
  /-- The name that the host uses instead of the method's own. -/
  hostAlias? : Option String := none
  /-- The host never takes the place of the method. -/
  excluded : Bool := false
  deriving DecidableEq, Repr

namespace Method

/-- The name that the host uses for a method: its alias, or its name in lower case. -/
def hostName (m : Method) : String := m.hostAlias?.getD (Text.lowercase m.name)

/-- The text of a method. -/
def describe (m : Method) : String :=
  Text.record "Method"
    [("name", Text.quote m.name), ("offset", toString m.offset),
      ("host_alias", Text.ofOption (m.hostAlias?.map Text.quote)),
      ("is_excluded", Text.ofBool m.excluded)]

end Method

/-- What is known of a class. -/
structure Descriptor where
  /-- The class of classes, when there was one. -/
  metaclass : Option ClassId := none
  /-- The handles on the class as an object. -/
  handles : Nat := 1
  parent : Option ClassId := none
  /-- The number of the parcel that the class came with. -/
  parcel : Nat := 0
  flags : Flags := {}
  /-- The bytes that an instance takes. -/
  objSize : Nat := 0
  /-- The bytes that the descriptor takes. -/
  classSize : Nat
  /-- The name, once it is set. -/
  name? : Option String := none
  /-- The methods that the class introduced, once they are set. -/
  methods? : Option (List Method) := none
  vtable : List (Option Code)
  deriving DecidableEq, Repr

/-- The number of slots in a descriptor of this size. -/
def slotsIn (classSize : Nat) : Nat := (classSize - vtableOffset) / slotSize

/-- The place in a vtable with this many slots that an offset names, if it names one. -/
def slotIndex? (slots offset : Nat) : Option Nat :=
  if offset < vtableOffset then none
  else if (offset - vtableOffset) % slotSize ≠ 0 then none
  else
    let index := (offset - vtableOffset) / slotSize
    if index < slots then some index else none

/-- The offset of the slot at a place in a vtable. -/
def slotOffset (index : Nat) : Nat := vtableOffset + slotSize * index

namespace Descriptor

/-- A descriptor of which nothing but the size is settled. -/
def blank (classSize : Nat) : Descriptor :=
  { classSize, vtable := List.replicate (slotsIn classSize) none }

/-- The name, which is empty until it is set. -/
def name (d : Descriptor) : String := d.name?.getD ""

/-- The methods that the class introduced. -/
def methods (d : Descriptor) : List Method := d.methods?.getD []

/-- The slot at an offset. -/
def slot (d : Descriptor) (offset : Nat) : Except Fault (Option Code) :=
  match slotIndex? d.vtable.length offset with
  | some i => .ok (d.vtable[i]?).join
  | none => .error (.slotOutOfRange d.name offset)

/-- The descriptor with a function in the slot at an offset. -/
def install (d : Descriptor) (code : Code) (offset : Nat) : Except Fault Descriptor :=
  match slotIndex? d.vtable.length offset with
  | some i => .ok { d with vtable := d.vtable.set i (some code) }
  | none => .error (.slotOutOfRange d.name offset)

end Descriptor

theorem slotIndex?_slotOffset {slots index : Nat} (h : index < slots) :
    slotIndex? slots (slotOffset index) = some index := by
  unfold slotIndex? slotOffset
  simp only [slotSize, vtableOffset, Nat.add_sub_cancel_left]
  rw [if_neg (by omega), if_neg (by omega), Nat.mul_div_cancel_left _ (by omega), if_pos h]

theorem slotIndex?_eq_some {slots offset index : Nat} (h : slotIndex? slots offset = some index) :
    index < slots ∧ offset = slotOffset index := by
  simp only [slotIndex?, slotOffset, slotSize, vtableOffset] at *
  by_cases h₁ : offset < 104
  · simp [h₁] at h
  · by_cases h₂ : (offset - 104) % 8 = 0
    · simp only [h₁, h₂, if_false, ne_eq, not_true_eq_false] at h
      by_cases h₃ : (offset - 104) / 8 < slots
      · simp only [h₃, if_true, Option.some.injEq] at h
        omega
      · simp [h₃] at h
    · simp [h₁, h₂] at h

end ObjectSystem
