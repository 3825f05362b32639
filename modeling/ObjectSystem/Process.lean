import ObjectSystem.Class.Subclass
import ObjectSystem.Parcel
import ObjectSystem.Sorting.Engine

/-! # Processes

What is settled once in the life of a process: the size of the registry, the core classes, the
settings, and logging.  `Process.start` settles all of it; only the first start counts, and one
that stops leaves no settings behind. -/

namespace ObjectSystem.Process

/-- Sets up logging unless it was set up before. -/
def setUpLogging (openLog : LogOpener) (settings : LogSettings) : Step Process Unit := fun p =>
  if p.logging then ⟨p, .ok (), []⟩
  else
    match openLog settings with
    | .ok () => ⟨{ p with logging := true }, .ok (), []⟩
    | .error problem => Step.unlogged problem p

/-- Makes the registry if there is none yet.  Answers its size. -/
def ensureRegistry (requested : Nat) : Step Process Nat := do
  if (← Step.get).world.registry = none ∧ Registry.maxSlots < Registry.capacityFor requested then
    Step.unallocated
  else
    inWorld (World.ensureRegistry requested)
    Step.gets fun p => (p.world.registry.map Registry.capacity).getD 0

/-- Starts with the given settings, unless the process was started before.  Answers the settings in
force. -/
def start (openLog : LogOpener) (settings : Settings) : Step Process Settings := do
  match (← Step.get).settings with
  | some inForce => pure inForce
  | none => do
    setUpLogging openLog settings.logSettings
    let actual ← ensureRegistry settings.capacity
    if actual ≠ Registry.capacityFor settings.capacity then
      Step.emit (.registryExists settings.capacity actual)
    ensureCore
    Step.emit (.systemStarted actual)
    Step.modify ({ · with settings := some settings })
    pure settings

/-- The cost at which a new sort engine spills its buffer. -/
def memThresh (p : Process) : Nat := (p.settings.getD {}).memThresh

/-- A new sort engine. -/
def newEngine {α : Type} (itemCost : α → Nat) (p : Process) : Sorting.Engine α :=
  .new p.memThresh itemCost

/-- The host of those who do not name one. -/
def host (p : Process) : Host := if p.hostInstalled then Host.table else Host.none

end ObjectSystem.Process
