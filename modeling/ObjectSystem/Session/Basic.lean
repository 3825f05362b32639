import ObjectSystem.Process

/-! # Sessions

A `Session` is a process that is driven from outside, where objects, methods, classes and parcels
go by keys.  An `Action` is an operation in a session.  Besides stopping with a fault it can be
refused: a `Refusal` means that the request itself does not make sense in the session, and nothing
of the process stops.

A session is confined when its process was prepared for it and is not to be settled by it; then
some requests are refused that are fine in a process of one's own. -/

namespace ObjectSystem

/-- Why an action is refused. -/
inductive Refusal
  /-- A part of the request that has no meaning. -/
  | malformed (what : String)
  | noSuchObject
  | noSuchClass
  | noSuchMethod
  /-- The function in the slot is called in another way. -/
  | wrongSignature
  /-- The class cannot be instantiated from outside. -/
  | unsupported
  /-- The bytes are not those of variables of the object. -/
  | outOfBounds
  | reported (r : Report)
  deriving DecidableEq, Repr

/-- How a class is named: by the slot that it is in, or by a name that it is registered under. -/
inductive ClassRef
  | inSlot (s : ClassSlot)
  | named (name : String)
  deriving DecidableEq, Repr

/-- A process driven from outside. -/
structure Session where
  process : Process := {}
  /-- How logs are opened. -/
  openLog : LogOpener := fun _ => .ok ()
  /-- The process is not the session's own. -/
  confined : Bool := false
  /-- The handles that the session holds. -/
  objects : List (String × ObjRef) := []
  methods : List MethodRef := CoreMethod.all
  /-- The parcels by key; of several with one key the last one declared is meant. -/
  parcels : List (String × ParcelId) := [("core", .core)]
  /-- How many calls of the hook were reported. -/
  hookCallsSeen : Nat := 0

/-- An operation in a session. -/
abbrev Action (α : Type) : Type := ExceptT Refusal (Step Session) α

namespace Session

variable {α : Type}

/-- Runs a step on the process. -/
def onProcess (x : Step Process α) : Action α :=
  ExceptT.lift (Step.zoom Session.process (fun p s => { s with process := p }) x)

/-- Changes the process. -/
def changeProcess (f : Process → Process) : Action Unit := onProcess (.modify f)

/-- Runs a step on the world. -/
def onWorld (x : Step World α) : Action α := onProcess (Process.inWorld x)

/-- Reads off the session. -/
def look (f : Session → α) : Action α := ExceptT.lift (Step.gets f)

/-- Reads off the world. -/
def lookWorld (f : World → α) : Action α := look fun s => f s.process.world

/-- Changes the session. -/
def change (f : Session → Session) : Action Unit := ExceptT.lift (Step.modify f)

/-- Goes on with a value if there is one. -/
def require (r : Refusal) : Option α → Action α
  | some a => pure a
  | none => throw r

/-- The class of a reference; an empty slot is a fault. -/
def classOf : ClassRef → Action ClassId
  | .inSlot s => onWorld (World.slotClass s)
  | .named name => do require .noSuchClass (← lookWorld (·.fetchClass name))

/-- The object under a key. -/
def object (key : String) : Action ObjRef := do
  require .noSuchObject (← look (·.objects.lookup key))

/-- The method reference of a key. -/
def method (key : String) : Action MethodRef := do
  require (.malformed "method") (← look (·.methods.find? (·.key == key)))

/-- Takes a key and its object out of the session. -/
def forgetObject (key : String) : Action Unit :=
  change fun s => { s with objects := s.objects.filter (·.1 != key) }

/-- Keeps an object under a new key. -/
def keepObject (key : String) (o : ObjRef) : Action Unit := do
  if key.isEmpty || (← look (·.objects.lookup key)).isSome then throw (.malformed "object key")
  else change fun s => { s with objects := (key, o) :: s.objects }

/-- Refuses what is not for a confined session. -/
def refuseConfined (r : Refusal) : Action Unit := do
  if ← look (·.confined) then throw r

/-- Looks at the slot that a method would be called through.  A function of another signature is
refused; a slot outside of the vtable is told as the fault that the call itself stops with. -/
def checkSlot (m : MethodRef) (o : ObjRef) : Action Unit := do
  let w ← lookWorld id
  match (w.get (w.classOf o)).slot (w.offsets m) with
  | .ok (some code) => if code.signature = m.signature then pure () else throw .wrongSignature
  | .ok none => pure ()
  | .error f => ExceptT.lift (Step.emit (.faulted f))

end Session

end ObjectSystem
