import ObjectSystem.Config.Discovery
import ObjectSystem.Config.Reading
import ObjectSystem.Session.Answer
import ObjectSystem.Session.Basic

/-! # Commands on the process

Starting the process, and what can be settled once before that.  A confined session refuses all of
these commands. -/

namespace ObjectSystem

/-- A command on the process. -/
inductive ProcessCommand
  | ensureCore
  /-- Starts with the settings in a text. -/
  | startWith (settings : String)
  /-- Starts with the settings that are found in a file tree from a directory upward. -/
  | startIn (files : FileTree) (directory : String)
  | inspect
  | setUpLogging
  | ensureRegistry (capacity : Nat)
  | registry
  /-- Installs a hook that keeps a record of the classes it is handed.  One that `overrides` also
  puts a function of its own into the slot of the root class for texts. -/
  | hook (overrides : Bool)
  | hookCalls
  | installHost
  | askHost (cls : String)
  /-- The cost at which a new sort engine spills its buffer. -/
  | memThresh

namespace Session

/-- The hook that puts a function of its own into the slot for texts. -/
def overridingHook : Hook :=
  ⟨fun offsets d => d.install (.custom (.tag 5)) (offsets CoreMethod.objToString)⟩

/-- The hook that does nothing to a class. -/
def recordingHook : Hook := ⟨fun _ d => .ok d⟩

/-- Starts the process unless it was started; the settings are only read off when they count. -/
def startProcess (openLog : LogOpener) (settings : Step Process Settings) :
    Step Process Settings := do
  match (← Step.get).settings with
  | some inForce => pure inForce
  | none => Process.start openLog (← settings)

/-- Runs a command on the process. -/
def runProcessCommand : ProcessCommand → Action Answer
  | .ensureCore => do
    onProcess Process.ensureCore
    return .nothing
  | .startWith text => do
    match Settings.parse text with
    | .error c => throw (.reported (.ofComplaint c))
    | .ok settings =>
      return .settings (← onProcess (startProcess (← look (·.openLog)) (pure settings)))
  | .startIn files directory => do
    let settings := Settings.discover Settings.parse files directory
    return .settings (← onProcess (startProcess (← look (·.openLog)) settings))
  | .inspect => look fun s => .runtime s.process.settings s.process.logging
  | .setUpLogging => do
    onProcess (Process.setUpLogging (← look (·.openLog)) (.ofEnvironment fun _ => none))
    return .flag true
  | .ensureRegistry capacity => do return .number (← onProcess (Process.ensureRegistry capacity))
  | .registry => do
    let _ ← onProcess (Process.ensureRegistry World.defaultCapacity)
    lookWorld fun w =>
      match w.registry with
      | some r => .registry r.capacity r.size r.sortedKeys
      | none => .nothing
  | .hook overrides => do
    if (← lookWorld (·.hook)).isSome then return .flag false
    onWorld (.modify fun w =>
      { w with hook := some (if overrides then overridingHook else recordingHook) })
    return .flag true
  | .hookCalls => do
    let calls ← lookWorld (·.hookCalls)
    let seen ← look (·.hookCallsSeen)
    change ({ · with hookCallsSeen := calls.length })
    return .hookCalls (calls.drop seen)
  | .installHost => do
    if ← look (·.process.hostInstalled) then return .flag false
    changeProcess ({ · with hostInstalled := true })
    return .flag true
  | .askHost cls => do
    let host ← look (·.process.host)
    let parent ← onWorld (host.findParent cls)
    let methods ← onWorld (host.freshMethods cls)
    return .hosted parent methods
  | .memThresh => look fun s =>
    .number (s.process.newEngine fun (_ : ObjRef) => 0).memThresh

end Session

end ObjectSystem
