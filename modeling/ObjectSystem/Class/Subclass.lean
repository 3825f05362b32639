import ObjectSystem.World

/-! # Subclasses made on demand

A class that a host defines is made the first time it is asked for by name: a copy of its parent
under the new name, without methods of its own, in which the functions of the methods that the host
defines give way to their callbacks.

A `Host` answers what the parent of a class is called and which methods a class defines.  Its
answers are steps, so a host may do anything to the world before it answers, even make the class
that it is asked about; the class that is registered first under a name is the one that counts.

Without a parent to start from, the parent's name is resolved in the same way, and so on along the
chain of declared parents.  The number of links to follow is bounded by an allowance. -/

namespace ObjectSystem

/-- What the system asks of a host. -/
structure Host where
  /-- The name of the parent of a class. -/
  findParent : String → Step World (Option String)
  /-- The methods that a class defines itself. -/
  freshMethods : String → Step World (List String)
  /-- A class was made and registered; its name and that of its parent. -/
  registered : String → String → Step World Unit

namespace World

/-- A copy of a class under another name, with no methods of its own. -/
def subclassOf (w : World) (parent : ClassId) (name : String) : Descriptor :=
  { w.get parent with
    handles := 1
    parent := some parent
    name? := some name
    methods? := some [] }

/-- The methods of a class and its ancestors that give way to the host: those with a callback that
are not excluded and whose name on the side of the host is among `fresh`. -/
def overridable (w : World) (parent : ClassId) (fresh : List String) : List (Code × Nat) :=
  (w.ancestors parent).flatMap fun a =>
    (w.get a).methods.filterMap fun m =>
      match m.callback with
      | none => none
      | some code =>
        if m.excluded || !fresh.contains m.hostName then none else some (code, m.offset)

/-- The descriptor with functions put into its vtable. -/
def installAll (d : Descriptor) : List (Code × Nat) → Except Fault Descriptor
  | [] => .ok d
  | (code, offset) :: rest => do installAll (← d.install code offset) rest

/-- Makes the subclass of a name and registers it, unless the name was bound meanwhile; then the
subclass is dropped and the answer is the class that the name is bound to. -/
def createSubclass (host : Host) (name : String) (parent : ClassId) :
    Step World (Except Report ClassId) := do
  let w ← Step.get
  if (w.get parent).flags.final then
    return .error (.ofComplaint (.finalParent name (w.nameOf parent)))
  let candidate := w.subclassOf parent name
  let fresh ← host.freshMethods name
  let w ← Step.get
  let patches := if fresh.isEmpty then [] else w.overridable parent fresh
  let candidate ← Step.ofExcept (installAll candidate patches)
  let c := w.classes.length
  if ← bindName name c then
    Step.modify fun w => { w with classes := w.classes ++ [candidate] }
    host.registered name (w.nameOf parent)
    Step.emit (.subclassCreated name (w.nameOf parent) patches.length)
    return .ok c
  else
    match (← Step.get).fetchClass name with
    | some winner => return .ok winner
    | none => Step.fault (.registryRace name)

/-- The class of a name, made if there is none.  The parent is the given one, or else what the host
says; at most `allowance` names of parents are followed. -/
def singletonWith (host : Host) : (allowance : Nat) → (name : String) → Option ClassId →
    Step World (Except Report ClassId)
  | allowance, name, parent => do
    match (← Step.get).fetchClass name with
    | some c => return .ok c
    | none =>
      match parent with
      | some p => createSubclass host name p
      | none =>
        match ← host.findParent name with
        | none => return .error (.ofComplaint (.noParentClass name))
        | some parentName =>
          match allowance with
          | 0 => Step.unfinished
          | allowance + 1 =>
            match ← singletonWith host allowance parentName none with
            | .error r => return .error (r.withContext ("resolving parent of " ++ name))
            | .ok p => createSubclass host name p

/-- The class of a name, made if there is none.  A chain of declared parents without a cycle is
never longer than the list of declarations. -/
def singleton (host : Host) (name : String) (parent : Option ClassId) :
    Step World (Except Report ClassId) := fun w =>
  singletonWith host w.host.parents.length name parent w

end World

namespace Host

/-- A host that knows nothing. -/
def none : Host := ⟨fun _ => pure .none, fun _ => pure [], fun _ _ => pure ()⟩

/-- The host that answers from its declarations, and keeps a list of what it was told. -/
def table : Host :=
  { findParent := fun cls => Step.gets fun w => w.host.parentOf cls
    freshMethods := fun cls => Step.gets fun w => w.host.methodsOf cls
    registered := fun cls parent =>
      Step.modify fun w => { w with host := w.host.report cls parent } }

/-- The same, but whoever is asked about the methods of a class first makes it a subclass of
`root`. -/
def eager (root : ClassId) : Host :=
  { table with
    freshMethods := fun cls => do
      let _ ← World.singletonWith none 0 cls (some root)
      table.freshMethods cls }

end Host

end ObjectSystem
