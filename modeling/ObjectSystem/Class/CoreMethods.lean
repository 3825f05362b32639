import ObjectSystem.Class.Descriptor

/-! # Methods of the core classes

The references to the slots that the core classes declare.  The root class introduces four methods;
the other references are names of the same slots for the classes below it. -/

namespace ObjectSystem.CoreMethod

def objDestroy : MethodRef := ⟨"Obj.Destroy", "Destroy", .destroy⟩
def objToString : MethodRef := ⟨"Obj.To_String", "To_String", .text⟩
def objEquals : MethodRef := ⟨"Obj.Equals", "Equals", .equals⟩
def objCompareTo : MethodRef := ⟨"Obj.Compare_To", "Compare_To", .compare⟩

def classDestroy : MethodRef := ⟨"Class.Destroy", "Destroy", .destroy⟩
def classToString : MethodRef := ⟨"Class.To_String", "To_String", .text⟩
def classEquals : MethodRef := ⟨"Class.Equals", "Equals", .equals⟩

def methodDestroy : MethodRef := ⟨"Method.Destroy", "Destroy", .destroy⟩
def methodToString : MethodRef := ⟨"Method.To_String", "To_String", .text⟩

def booleanDestroy : MethodRef := ⟨"Boolean.Destroy", "Destroy", .destroy⟩
def booleanToString : MethodRef := ⟨"Boolean.To_String", "To_String", .text⟩
def booleanEquals : MethodRef := ⟨"Boolean.Equals", "Equals", .equals⟩
def booleanCompareTo : MethodRef := ⟨"Boolean.Compare_To", "Compare_To", .compare⟩

def integerDestroy : MethodRef := ⟨"Integer.Destroy", "Destroy", .destroy⟩
def integerToString : MethodRef := ⟨"Integer.To_String", "To_String", .text⟩
def integerEquals : MethodRef := ⟨"Integer.Equals", "Equals", .equals⟩
def integerCompareTo : MethodRef := ⟨"Integer.Compare_To", "Compare_To", .compare⟩

/-- All references of the core classes. -/
def all : List MethodRef :=
  [objDestroy, objToString, objEquals, objCompareTo, classDestroy, classToString, classEquals,
    methodDestroy, methodToString, booleanDestroy, booleanToString, booleanEquals,
    booleanCompareTo, integerDestroy, integerToString, integerEquals, integerCompareTo]

end ObjectSystem.CoreMethod
