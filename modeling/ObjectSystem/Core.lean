import ObjectSystem.Class.Bootstrap
import ObjectSystem.Object.Dispatch

/-! # The core classes

The root class introduces the four methods that every object has.  Classes and methods are objects
too, of two classes that are never subclassed and whose instances never die; the same holds of the
two truth values, and numbers are boxed in a class of their own. -/

namespace ObjectSystem.Core

open CoreMethod

/-- The core classes. -/
def classes : List ClassSpec :=
  [ ⟨.obj, none, "Clownfish::Obj", headerSize, none, 4, 0, 0, {}⟩,
    ⟨.cls, some .obj, "Clownfish::Class", 0, none, 0, 2, 1, { final := true }⟩,
    ⟨.method, some .obj, "Clownfish::Method", 96, none, 0, 2, 0, { final := true }⟩,
    ⟨.boolean, some .obj, "Clownfish::Boolean", 32, some (.ofCore .boolean), 0, 3, 1,
      { final := true }⟩,
    ⟨.integer, some .obj, "Clownfish::Integer", 32, some (.ofCore .integer), 0, 3, 1,
      { final := true }⟩ ]

/-- The methods that the root class introduces. -/
def novel : List NovelSpec :=
  [ ⟨objDestroy, .objDestroy, none⟩, ⟨objToString, .objToString, none⟩,
    ⟨objEquals, .objEquals, none⟩, ⟨objCompareTo, .objCompareTo, none⟩ ]

/-- The methods that the other core classes replace. -/
def overridden : List OverriddenSpec :=
  [ ⟨classDestroy, objDestroy, .immortalDestroy⟩, ⟨classToString, objToString, .classToString⟩,
    ⟨methodDestroy, objDestroy, .immortalDestroy⟩,
    ⟨methodToString, objToString, .methodToString⟩,
    ⟨booleanDestroy, objDestroy, .immortalDestroy⟩,
    ⟨booleanToString, objToString, .booleanToString⟩, ⟨booleanEquals, objEquals, .booleanEquals⟩,
    ⟨integerToString, objToString, .integerToString⟩, ⟨integerEquals, objEquals, .integerEquals⟩,
    ⟨integerCompareTo, objCompareTo, .integerCompareTo⟩ ]

/-- The methods that the other core classes keep. -/
def inherited : List InheritedSpec :=
  [⟨classEquals, objEquals⟩, ⟨booleanCompareTo, objCompareTo⟩, ⟨integerDestroy, objDestroy⟩]

/-- The core parcel. -/
def parcel : ParcelSpec := ⟨classes, novel, overridden, inherited⟩

/-- Builds the core classes and makes the two truth values. -/
def build : Step World Unit := do
  let _ ← World.bootstrap parcel
  let _ ← World.ensureTruths
  pure ()

end ObjectSystem.Core
