/-! # What can go wrong

Two tiers.  A `Complaint` goes back to the caller as a value; a `Fault` means that a rule of the
system itself was broken, and stops the operation that met it.  Each constructor is a cause with
its data, and the wording of all of them is in `Complaint.message` and `Fault.message`.

A `Report` is a cause together with an optional note on where it arose. -/

namespace ObjectSystem

/-- Causes that are reported to the caller. -/
inductive Complaint
  | noParentClass (cls : String)
  | finalParent (cls parent : String)
  | configRead (path reason : String)
  | configParse (reason : String)
  deriving DecidableEq, Repr

/-- Causes that stop the operation. -/
inductive Fault
  | bootstrapCycle (parcel : String)
  | doubleBootstrap (cls : String)
  | classNotBootstrapped
  | slotOutOfRange (cls : String) (offset : Nat)
  | registryFull (capacity : Nat)
  | registryRace (cls : String)
  | destroyImmortal (cls : String)
  | abstractMethod (cls method : String)
  | methodNotFound (cls method : String)
  | incomparableObjects (left right : String)
  | refillNotEmpty (remaining : Nat)
  | sortAfterFetch (fetched : Nat)
  | feedAfterFetch (fetched : Nat)
  | feedAfterFlip
  | addRunAfterFetch (fetched : Nat)
  | invalidRunBuffer (tick max cap : Nat)
  deriving DecidableEq, Repr

/-- The text of a complaint. -/
def Complaint.message : Complaint → String
  | noParentClass cls => "Class '" ++ cls ++ "' doesn't descend from Obj"
  | finalParent cls parent =>
    "Can't subclass final class " ++ parent ++ " (requested '" ++ cls ++ "')"
  | configRead path reason => "Failed to read config " ++ path ++ ": " ++ reason
  | configParse reason => "Failed to parse config: " ++ reason

/-- The text of a fault. -/
def Fault.message : Fault → String
  | bootstrapCycle parcel =>
    "Cycle in class inheritance between parcels detected (parcel '" ++ parcel ++ "')"
  | doubleBootstrap cls => "Class '" ++ cls ++ "' was bootstrapped twice"
  | classNotBootstrapped => "Class accessed before its parcel was bootstrapped"
  | slotOutOfRange cls offset =>
    "Method offset " ++ toString offset ++ " is outside the vtable of class '" ++ cls ++ "'"
  | registryFull capacity => "Class registry exhausted (" ++ toString capacity ++ " slots)"
  | registryRace cls => "Failed to either insert or fetch Class for '" ++ cls ++ "'"
  | destroyImmortal cls =>
    "Insane attempt to destroy immortal object of class '" ++ cls ++ "'"
  | abstractMethod cls method =>
    "Abstract method '" ++ method ++ "' not defined by class '" ++ cls ++ "'"
  | methodNotFound cls method => "Method " ++ method ++ " not found in class '" ++ cls ++ "'"
  | incomparableObjects left right => "Can't compare " ++ left ++ " to " ++ right
  | refillNotEmpty remaining =>
    "Can't refill unless empty (" ++ toString remaining ++ " items remain)"
  | sortAfterFetch fetched =>
    "Can't sort_buffer() after fetching " ++ toString fetched ++ " items"
  | feedAfterFetch fetched => "Can't feed() after fetching " ++ toString fetched ++ " items"
  | feedAfterFlip => "Can't feed() after flip()"
  | addRunAfterFetch fetched =>
    "Can't add_run() after draining began (" ++ toString fetched ++ " items fetched)"
  | invalidRunBuffer tick max cap =>
    "Invalid SortExternal buffer access: " ++ toString tick ++ " " ++ toString max ++ " " ++
      toString cap

/-- The text for a sort that stops because what it compares by is no order. -/
def disorderMessage : String :=
  "user-provided comparison function does not correctly implement a total order"

/-- Any cause. -/
inductive ErrorKind
  | reported (c : Complaint)
  | fatal (f : Fault)
  deriving DecidableEq, Repr

/-- Whether the cause stops the operation. -/
def ErrorKind.isFatal : ErrorKind → Bool
  | reported _ => false
  | fatal _ => true

/-- The text of a cause. -/
def ErrorKind.message : ErrorKind → String
  | reported c => c.message
  | fatal f => f.message

/-- A cause, and where it arose when that is known. -/
structure Report where
  kind : ErrorKind
  context : Option String := none
  deriving DecidableEq, Repr

namespace Report

/-- A complaint without a note. -/
def ofComplaint (c : Complaint) : Report := { kind := .reported c }

/-- Notes where the cause arose; a later note takes the place of an earlier one. -/
def withContext (r : Report) (context : String) : Report := { r with context := some context }

/-- The text of a report: the cause, then the note in parentheses. -/
def message (r : Report) : String :=
  match r.context with
  | none => r.kind.message
  | some context => r.kind.message ++ " (" ++ context ++ ")"

end Report

end ObjectSystem
