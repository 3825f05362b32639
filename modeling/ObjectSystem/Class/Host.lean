import ObjectSystem.Step

/-! # What a host declares

A `HostTable` holds what a host has declared about the classes that it defines: the parent of a
class, and the methods that a class defines itself.  It also keeps the pairs of class and parent
that were reported back to the host, in order. -/

namespace ObjectSystem

/-- The declarations of a host. -/
structure HostTable where
  parents : List (String × String) := []
  methods : List (String × List String) := []
  registered : List (String × String) := []
  deriving DecidableEq, Repr

namespace HostTable

/-- The declared parent of a class. -/
def parentOf (t : HostTable) (cls : String) : Option String := t.parents.lookup cls

/-- The methods that a class defines itself, in the order of their declaration. -/
def methodsOf (t : HostTable) (cls : String) : List String := (t.methods.lookup cls).getD []

/-- Declares the parent of a class, in place of one declared before. -/
def declareSubclass (t : HostTable) (cls parent : String) : HostTable :=
  { t with parents := (cls, parent) :: t.parents.filter (·.1 != cls) }

/-- Declares one more method of a class. -/
def declareMethod (t : HostTable) (cls method : String) : HostTable :=
  { t with methods := (cls, t.methodsOf cls ++ [method]) :: t.methods.filter (·.1 != cls) }

/-- Takes note of a class that was made for the host. -/
def report (t : HostTable) (cls parent : String) : HostTable :=
  { t with registered := t.registered ++ [(cls, parent)] }

theorem lookup_filter_ne {β : Type} (cls other : String) (h : other ≠ cls) :
    ∀ l : List (String × β), (l.filter (·.1 != cls)).lookup other = l.lookup other
  | [] => rfl
  | (k, v) :: l => by
    by_cases hk : k = cls
    · subst hk
      have : (other == k) = false := by simpa using h
      simp [lookup_filter_ne k other h l, List.lookup_cons, this]
    · simp only [List.filter_cons, bne_iff_ne, ne_eq, hk, not_false_eq_true, if_true,
        List.lookup_cons, lookup_filter_ne cls other h l]

theorem parentOf_declareSubclass (t : HostTable) (cls parent other : String) :
    (t.declareSubclass cls parent).parentOf other =
      if other = cls then some parent else t.parentOf other := by
  unfold parentOf declareSubclass
  by_cases h : other = cls
  · simp [h]
  · have : (other == cls) = false := by simpa using h
    simp [h, List.lookup_cons, this, lookup_filter_ne cls other h]

theorem methodsOf_declareMethod (t : HostTable) (cls method other : String) :
    (t.declareMethod cls method).methodsOf other =
      if other = cls then t.methodsOf cls ++ [method] else t.methodsOf other := by
  unfold methodsOf declareMethod
  by_cases h : other = cls
  · simp [h, methodsOf]
  · have : (other == cls) = false := by simpa using h
    simp [h, List.lookup_cons, this, lookup_filter_ne cls other h]

end HostTable

end ObjectSystem
