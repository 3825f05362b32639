import ObjectSystem.Object.Dispatch
import ObjectSystem.Object.Lifetime
import ObjectSystem.Sorting.Chunks

/-! # Objects in order

Objects are compared by their own method for it.  That need not be an order, since each class has
its own, and comparing two objects can be a fault.  Objects are therefore sorted by a comparison
that is a step; the pile that they are gathered on keeps them alive by a handle on each. -/

namespace ObjectSystem

/-- Objects that are gathered to be sorted. -/
abbrev ObjectPile : Type := Sorting.Pile ObjRef

namespace World

/-- The bytes that a handle takes. -/
def handleSize : Nat := 8

/-- How many handles it takes until their bytes reach a threshold. -/
def gatheredHandles (thresh : Nat) : Nat := (thresh + handleSize - 1) / handleSize

/-- How two objects compare. -/
def compareObjects : Sorting.Comparison World ObjRef := fun a b => do
  match ← call CoreMethod.objCompareTo a { other := b } with
  | .ordering o => pure o
  | _ => pure .eq

/-- One more handle on every object of a list. -/
def retainAll (objects : List ObjRef) : Step World Unit := objects.forM retain

/-- One handle less on every object of a list. -/
def releaseAll (objects : List ObjRef) : Step World Unit :=
  objects.forM fun o => do let _ ← release o

/-- Gathers an object; the gathered ones are sorted when their handles reach a threshold. -/
def gatherObject (thresh : Nat) (o : ObjRef) (p : ObjectPile) : Step World ObjectPile :=
  p.gather compareObjects (gatheredHandles thresh) o

end World

end ObjectSystem
