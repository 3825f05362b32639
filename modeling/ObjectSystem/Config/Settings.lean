import ObjectSystem.Logging

/-! # Settings

The settings of the system, in sections: the registry, sort engines, and logging.  Every setting
has a default. -/

namespace ObjectSystem

/-- The settings of the system. -/
structure Settings where
  /-- The names that the registry is to hold. -/
  capacity : Nat := 256
  /-- The cost at which a sort engine spills its buffer. -/
  memThresh : Nat := 4294967295
  /-- The name of the level of events that are logged. -/
  level : String := "info"
  json : Bool := false
  spans : Bool := false
  /-- The directory of log files, when events are logged to files. -/
  directory : Option String := none
  deriving DecidableEq, Repr

namespace Settings

/-- How events are logged.  A level that is not known counts as the default one. -/
def logSettings (s : Settings) : LogSettings :=
  let defaults : LogSettings := {}
  { level := (Level.parse? s.level).getD defaults.level
    format := if s.json then .json else defaults.format
    output := match s.directory with
      | some directory => LogSettings.fileOutput directory
      | none => defaults.output
    spans := s.spans }

end Settings

end ObjectSystem
