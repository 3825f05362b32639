import ObjectSystem.Config.Settings
import ObjectSystem.Core

/-! # Parcels

A parcel is a unit of classes that are built together.  It can name other parcels as its
prerequisites, which are bootstrapped before it, in order; then its own init is run.  A parcel is
bootstrapped once: a later request does nothing, and one that comes while the parcel is still being
bootstrapped is a fault, which is how a cycle of prerequisites shows.

Each nested bootstrap begins another parcel, so the allowance for nesting is the number of parcels
there are. -/

namespace ObjectSystem

/-- A parcel: the core parcel, or a declared one by its place in the order of declaration. -/
inductive ParcelId
  | core
  | declared (index : Nat)
  deriving DecidableEq, Repr

/-- How far the bootstrap of a parcel has come. -/
inductive Progress
  | notStarted | inProgress | done
  deriving DecidableEq, Repr

/-- A part of the init of a parcel. -/
inductive InitStep
  | classes (p : ParcelSpec)
  | parcel (id : ParcelId)
  /-- The core parcel, once and for all. -/
  | core
  deriving DecidableEq, Repr

/-- What is declared of a parcel. -/
structure Parcel where
  name : String
  prerequisites : List ParcelId
  init : List InitStep
  deriving DecidableEq, Repr

/-- A world with parcels, and with what is settled once for all of it. -/
structure Process where
  world : World := {}
  declared : List Parcel := []
  progress : ParcelId → Progress := fun _ => .notStarted
  /-- The parcels whose init was run, in order. -/
  initRuns : List ParcelId := []
  /-- The core parcel was bootstrapped on request of `ensureCore`. -/
  coreReady : Bool := false
  /-- The settings in force. -/
  settings : Option Settings := none
  /-- Logging is set up. -/
  logging : Bool := false
  /-- The host was installed for all who do not name one. -/
  hostInstalled : Bool := false

namespace Process

/-- Runs a step on the world. -/
def inWorld {α : Type} (x : Step World α) : Step Process α :=
  Step.zoom Process.world (fun w p => { p with world := w }) x

/-- The core parcel has no prerequisites. -/
def corePrerequisites : Parcel := ⟨"Clownfish", [], []⟩

/-- What is declared of a parcel. -/
def parcel? (e : Process) : ParcelId → Option Parcel
  | .core => some corePrerequisites
  | .declared index => e.declared[index]?

/-- Records how far a parcel has come. -/
def setProgress (id : ParcelId) (p : Progress) : Step Process Unit :=
  .modify fun e => { e with progress := fun i => if i = id then p else e.progress i }

/-- Builds classes; the owners of their teardown functions are settled first. -/
def buildClasses (p : ParcelSpec) : Step Process Nat :=
  inWorld do
    Step.modify (World.settleOwners p.classes p.novel p.overridden)
    World.bootstrap p

/-- Bootstraps parcels in order, given how to bootstrap one. -/
def bootAll (boot : ParcelId → Step Process Unit) : List ParcelId → Step Process Unit
  | [] => pure ()
  | id :: rest => do
    boot id
    bootAll boot rest

/-- Bootstraps the core parcel unless that was done, given how to bootstrap one. -/
def ensureCoreBy (boot : ParcelId → Step Process Unit) : Step Process Unit := do
  if (← Step.get).coreReady then pure ()
  else
    boot .core
    Step.modify ({ · with coreReady := true })

/-- Runs the parts of an init in order, given how to bootstrap a parcel. -/
def runInit (boot : ParcelId → Step Process Unit) : List InitStep → Step Process Unit
  | [] => pure ()
  | .classes p :: rest => do
    let _ ← buildClasses p
    runInit boot rest
  | .parcel id :: rest => do
    boot id
    runInit boot rest
  | .core :: rest => do
    ensureCoreBy boot
    runInit boot rest

/-- Bootstraps a parcel and what it needs, nested at most `allowance` deep. -/
def bootParcel : (allowance : Nat) → ParcelId → Step Process Unit
  | allowance, id => do
    let e ← Step.get
    match e.parcel? id with
    | none => pure ()
    | some p =>
      match e.progress id with
      | .done => pure ()
      | .inProgress => Step.fault (.bootstrapCycle p.name)
      | .notStarted =>
        match allowance with
        | 0 => Step.unfinished
        | allowance + 1 => do
          setProgress id .inProgress
          bootAll (bootParcel allowance) p.prerequisites
          Step.modify fun e => { e with initRuns := e.initRuns ++ [id] }
          if id = .core then inWorld Core.build
          else runInit (bootParcel allowance) p.init
          setProgress id .done

/-- Bootstraps a parcel and what it needs. -/
def boot (id : ParcelId) : Step Process Unit := fun e =>
  bootParcel (e.declared.length + 1) id e

/-- Bootstraps the core parcel unless that was done. -/
def ensureCore : Step Process Unit := ensureCoreBy boot

/-- The text of a parcel. -/
def describeParcel (e : Process) (id : ParcelId) : String :=
  Text.record "Parcel"
    [("name", Text.quote (((e.parcel? id).map (·.name)).getD "")),
      ("bootstrapped", Text.ofBool (e.progress id = .done))]

end Process

end ObjectSystem
