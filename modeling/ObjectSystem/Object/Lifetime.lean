import ObjectSystem.Object.Handle
import ObjectSystem.Class.CoreMethods

/-! # The end of an object

When the last handle on an object is released, the Destroy function of its class is run.  A
function of the user's own does its part and then runs the one that the parent of its owner has;
at the root the memory of the object is given back.

Which function comes next depends only on the one before, so a walk that takes more functions than
there are classes would never end. -/

namespace ObjectSystem.World

/-- Gives the memory of an object back. -/
def free (o : ObjRef) : Step World Unit :=
  match o with
  | .allocated i => .modify fun w =>
    { w with objects := w.objects.modify i ({ · with freed := true }) }
  | _ => pure ()

/-- Takes a note. -/
def note (s : String) : Step World Unit := .modify fun w => { w with notes := w.notes ++ [s] }

/-- What a function notes of the object that it tears down. -/
def teardownNote (w : World) (k : Nat) (o : ObjRef) : String :=
  (Body.teardown k).label ++ ":" ++ w.classNameOf o ++ ":" ++ toString (w.count o)

/-- Runs a Destroy function on an object, and those that it leads to.  At most `allowance`
functions of the user's own are run. -/
def runDestroy (allowance : Nat) (code : Code) (o : ObjRef) : Step World Unit :=
  match code with
  | .objDestroy => free o
  | .immortalDestroy => fun w => Step.fault (.destroyImmortal (w.classNameOf o)) w
  | .custom (.teardown k) =>
    match allowance with
    | 0 => Step.unfinished
    | allowance + 1 => do
      note (← Step.gets (·.teardownNote k o))
      match ← Step.gets (·.owners k) with
      | none => pure ()
      | some slot => do
        let owner ← slotClass slot
        match ← Step.gets fun w => (w.get owner).parent with
        | none => pure ()
        | some parent => do
          let next ← Step.ofExcept ((← Step.get).resolve parent CoreMethod.objDestroy)
          runDestroy allowance next o
  | _ => pure ()

/-- Destroys an object on which there are no handles. -/
def destroy (o : ObjRef) : Step World Unit := do
  let w ← Step.get
  Step.emit (.objectDestroyed (w.classNameOf o))
  let code ← Step.ofExcept (w.resolve (w.classOf o) CoreMethod.objDestroy)
  runDestroy w.classes.length code o

/-- Gives up one handle on an object, and destroys it with the last one.  Answers how many handles
are left. -/
def release (o : ObjRef) : Step World Nat := do
  let w ← Step.get
  let old := w.count o
  if w.isImmortal o then pure old
  else
    modifyCount (· - 1) o
    if old = 1 then
      destroy o
      pure 0
    else pure (old - 1)

/-! ### Handles that may be missing -/

/-- One more handle on an object, if there is one. -/
def retain? : Option ObjRef → Step World (Option ObjRef)
  | none => pure none
  | some o => do
    retain o
    pure (some o)

/-- Gives up one handle on an object, if there is one. -/
def release? : Option ObjRef → Step World Nat
  | none => pure 0
  | some o => release o

/-- The handles on an object, if there is one. -/
def count? (w : World) : Option ObjRef → Nat
  | none => 0
  | some o => w.count o

end ObjectSystem.World
