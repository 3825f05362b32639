import ObjectSystem.Event
import ObjectSystem.Text.Lowercase

/-! # How events are logged

`LogSettings` says which events are written, in what form and where.  The settings come from the
configuration or from a few variables of the environment. -/

namespace ObjectSystem

/-- The level of a name, whatever its letter case. -/
def Level.parse? (name : String) : Option Level :=
  match Text.lowercase name with
  | "trace" => some .trace
  | "debug" => some .debug
  | "info" => some .info
  | "warn" => some .warn
  | "error" => some .error
  | _ => none

/-- The forms of a log line. -/
inductive LogFormat
  | pretty | compact | json
  deriving DecidableEq, Repr

/-- Where log lines go. -/
inductive LogOutput
  | stdout
  | stderr
  /-- A file a day in a directory. -/
  | file (directory stem : String)
  deriving DecidableEq, Repr

/-- How events are logged. -/
structure LogSettings where
  level : Level := .info
  format : LogFormat := .compact
  output : LogOutput := .stderr
  /-- The beginnings and ends of spans are logged too. -/
  spans : Bool := false
  deriving DecidableEq, Repr

namespace LogSettings

/-- The output to files in a directory. -/
def fileOutput (directory : String) : LogOutput := .file directory "cfish_runtime"

/-- The settings that variables of the environment ask for.  A level that is not known counts as
the default one, and a variable that only has to be set may be empty. -/
def ofEnvironment (env : String → Option String) : LogSettings :=
  let defaults : LogSettings := {}
  { level := ((env "CFISH_LOG_LEVEL").bind Level.parse?).getD defaults.level
    output := match env "CFISH_LOG_FILE" with
      | some directory => fileOutput directory
      | none => defaults.output
    format := if (env "CFISH_LOG_JSON").isSome then .json else defaults.format
    spans := (env "CFISH_LOG_SPANS").isSome }

end LogSettings

/-- How a log is opened.  Whether it can be is settled outside; if not, there is a problem to tell. -/
abbrev LogOpener : Type := LogSettings → Except String Unit

end ObjectSystem
