import ObjectSystem.Session.ClassCommand
import ObjectSystem.Session.ObjectCommand
import ObjectSystem.Session.ParcelCommand
import ObjectSystem.Session.ProcessCommand

/-! # Running commands

A `Command` is what a session can be asked to do.  `Session.perform` runs one and says all that
came of it; whatever the result, the session it leaves is fit for the next command. -/

namespace ObjectSystem

/-- A command. -/
inductive Command
  | onClasses (c : ClassCommand)
  | onObjects (c : ObjectCommand)
  | onParcels (c : ParcelCommand)
  | onProcess (c : ProcessCommand)

/-- Why a command has no answer. -/
inductive Failure
  | refused (r : Refusal)
  | stopped (s : Stop)
  deriving DecidableEq, Repr

/-- What came of a command. -/
structure Turn where
  session : Session
  result : Except Failure Answer
  /-- What teardown functions noted. -/
  notes : List String
  events : List Event

namespace Session

/-- Runs a command. -/
def run : Command → Action Answer
  | .onClasses c => runClassCommand c
  | .onObjects c => runObjectCommand c
  | .onParcels c => runParcelCommand c
  | .onProcess c => do
    refuseConfined (.malformed "step")
    runProcessCommand c

/-- Runs a command and says all that came of it. -/
def perform (command : Command) (s : Session) : Turn :=
  let o := (run command).run s
  { session := o.state
    result := match o.answer with
      | .ok (.ok a) => .ok a
      | .ok (.error r) => .error (.refused r)
      | .error stop => .error (.stopped stop)
    notes := o.state.process.world.notes.drop s.process.world.notes.length
    events := o.events }

/-- The names that the registry of a prepared process has room for. -/
def preparedCapacity : Nat := 4096

/-- A confined session on a prepared process: the core classes are built. -/
def prepared (start : Process) : Session :=
  let build : Step Process Unit := do
    let _ ← Process.ensureRegistry preparedCapacity
    Process.ensureCore
  { process := (build start).state, confined := true }

end Session

end ObjectSystem
