import ObjectSystem.Error

/-! # Events

What the system says about itself while it runs.  An `Event` is a cause for a log line with its
data; `Event.target`, `Event.level`, `Event.message` and `Event.fields` give the parts of the line.
A `Level` is a threshold: a filter at a level lets through the events that are at least as
severe. -/

namespace ObjectSystem

/-- Severities, the least severe first. -/
inductive Level
  | trace | debug | info | warn | error
  deriving DecidableEq, Repr

namespace Level

/-- How severe a level is. -/
def severity : Level → Nat
  | trace => 0
  | debug => 1
  | info => 2
  | warn => 3
  | error => 4

/-- The name of a level in a log line. -/
def name : Level → String
  | trace => "TRACE"
  | debug => "DEBUG"
  | info => "INFO"
  | warn => "WARN"
  | error => "ERROR"

/-- The name of a level in a filter directive. -/
def directiveName : Level → String
  | trace => "trace"
  | debug => "debug"
  | info => "info"
  | warn => "warn"
  | error => "error"

/-- A filter at level `l` lets an event of level `e` through. -/
def admits (l e : Level) : Bool := l.severity ≤ e.severity

end Level

/-- The parts of the system that speak. -/
inductive Target
  | runtime | cls | registry | refcount | sort
  deriving DecidableEq, Repr

/-- All targets, in the order in which they are listed to a filter. -/
def Target.all : List Target := [.runtime, .cls, .registry, .refcount, .sort]

/-- The name of a target. -/
def Target.name : Target → String
  | runtime => "runtime"
  | cls => "class"
  | registry => "registry"
  | refcount => "refcount"
  | sort => "sort"

/-- What happened. -/
inductive Event
  | parcelBootstrapped (parcel classes : Nat)
  | classRegistered (cls : String) (parcel classSize : Nat)
  | subclassCreated (cls parent : String) (overrides : Nat)
  | objectDestroyed (cls : String)
  | bufferRefilled (runs slices absorbed : Nat)
  | systemStarted (capacity : Nat)
  | faulted (f : Fault)
  | nameTaken (cls : String)
  | hostAliasTaken (cls method : String)
  | registryExists (requested actual : Nat)
  | configIgnored (reason : String)
  deriving DecidableEq, Repr

/-- The value of a field of an event. -/
inductive FieldValue
  | text (s : String)
  | number (n : Nat)
  deriving DecidableEq, Repr

namespace Event

/-- Who speaks. -/
def target : Event → Target
  | parcelBootstrapped .. | subclassCreated .. | hostAliasTaken .. => .cls
  | classRegistered .. | nameTaken .. => .registry
  | objectDestroyed .. => .refcount
  | bufferRefilled .. => .sort
  | systemStarted .. | faulted .. | registryExists .. | configIgnored .. => .runtime

/-- How severe it is. -/
def level : Event → Level
  | classRegistered .. | objectDestroyed .. | bufferRefilled .. => .trace
  | parcelBootstrapped .. | subclassCreated .. => .debug
  | systemStarted .. => .info
  | nameTaken .. | hostAliasTaken .. | registryExists .. | configIgnored .. => .warn
  | faulted .. => .error

/-- What is said. -/
def message : Event → String
  | parcelBootstrapped .. => "parcel bootstrapped"
  | classRegistered .. => "class registered"
  | subclassCreated .. => "dynamic subclass created"
  | objectDestroyed .. => "object destroyed"
  | bufferRefilled .. => "refilled merge buffer"
  | systemStarted .. => "cfish runtime initialized"
  | faulted .. => "fatal runtime error"
  | nameTaken .. => "class name already registered"
  | hostAliasTaken .. => "host alias already set"
  | registryExists .. => "class registry already created"
  | configIgnored .. => "ignoring config file"

/-- The named data of an event. -/
def fields : Event → List (String × FieldValue)
  | parcelBootstrapped parcel classes =>
    [("event", .text "parcel_bootstrap"), ("parcel_id", .number parcel),
      ("classes", .number classes)]
  | classRegistered cls parcel classSize =>
    [("event", .text "class_registered"), ("class", .text cls), ("parcel_id", .number parcel),
      ("class_alloc_size", .number classSize)]
  | subclassCreated cls parent overrides =>
    [("event", .text "singleton_created"), ("class", .text cls), ("parent", .text parent),
      ("host_overrides", .number overrides)]
  | objectDestroyed cls => [("event", .text "destroy"), ("class", .text cls)]
  | bufferRefilled runs slices absorbed =>
    [("event", .text "refill"), ("runs", .number runs), ("slices", .number slices),
      ("absorbed", .number absorbed)]
  | systemStarted capacity =>
    [("event", .text "runtime_init"), ("registry_capacity", .number capacity)]
  | faulted f => [("error", .text f.message)]
  | nameTaken cls => [("class", .text cls)]
  | hostAliasTaken cls method => [("class", .text cls), ("method", .text method)]
  | registryExists requested actual =>
    [("requested", .number requested), ("actual", .number actual)]
  | configIgnored reason => [("error", .text reason)]

end Event

/-- The directives of a filter that holds every part of the system to one level. -/
def Level.directives (l : Level) : List String :=
  (Target.all.map Target.name ++ ["cfish_runtime"]).map (· ++ "=" ++ l.directiveName)

end ObjectSystem
