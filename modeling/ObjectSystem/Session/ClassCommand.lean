import ObjectSystem.Session.Answer
import ObjectSystem.Session.Basic

/-! # Commands on classes

Declaring methods, building classes, looking at them, and making subclasses on demand. -/

namespace ObjectSystem

/-! ### Classes to be built, by keys -/

/-- A method that a class introduces, by the key of its reference and the labels of functions. -/
structure NovelEntry where
  method : String
  code : String
  callback : Option String
  deriving DecidableEq, Repr

/-- A method that a class replaces, by keys and the label of the function. -/
structure OverriddenEntry where
  method : String
  parent : String
  code : String
  deriving DecidableEq, Repr

/-- A method that a class keeps, by keys. -/
structure InheritedEntry where
  method : String
  parent : String
  deriving DecidableEq, Repr

/-- The classes of a parcel, with methods by keys. -/
structure ParcelEntry where
  classes : List ClassSpec
  novel : List NovelEntry
  overridden : List OverriddenEntry
  inherited : List InheritedEntry
  deriving DecidableEq, Repr

namespace Session

/-- The function of a label.  One that there is not has no signature. -/
def code (label : String) : Action Code := do
  require .wrongSignature ((Body.ofLabel? label).map .custom)

/-- Finds the references and functions of classes to be built.  All references have to be known
before an entry is looked at whose parts have different signatures; such an entry is refused. -/
def parcelSpec (p : ParcelEntry) : Action ParcelSpec := do
  let novel ← p.novel.mapM fun e => do return (e, ← method e.method)
  let overridden ← p.overridden.mapM fun e => do
    return (e, ← method e.method, ← method e.parent)
  let inherited ← p.inherited.mapM fun e => do
    return ⟨← method e.method, ← method e.parent⟩
  let novel ← novel.mapM fun (e, m) => do
    return ⟨m, ← code e.code, ← e.callback.mapM code⟩
  let overridden ← overridden.mapM fun (e, m, parent) => do
    return ⟨m, parent, ← code e.code⟩
  let spec : ParcelSpec := ⟨p.classes, novel, overridden, inherited⟩
  if spec.wellSigned then pure spec else throw .wrongSignature

end Session

/-! ### Commands -/

/-- Who is asked about classes that are made on demand. -/
inductive HostChoice
  /-- The host of the session. -/
  | table
  | none
  /-- The host that was installed for the process. -/
  | installed
  /-- The host of the session, but it makes a class that it is asked about by itself. -/
  | eager (root : ClassRef)
  deriving DecidableEq, Repr

/-- A command on classes. -/
inductive ClassCommand
  | declare (key : String) (signature : Signature) (name : String)
  | bootstrap (p : ParcelEntry)
  | slot (s : ClassSlot)
  | cell (s : ClassSlot)
  | reference (method : String)
  | inspect (c : ClassRef)
  | methods (c : ClassRef)
  | findMethod (c : ClassRef) (name : String)
  | describeMethod (c : ClassRef) (name : String)
  | describe (c : ClassRef)
  | isFinal (c : ClassRef)
  | slotAt (c : ClassRef) (offset : Nat)
  | relate (a b : ClassRef)
  | sameVtable (a b : ClassRef)
  | fetch (name : String)
  | register (c : ClassRef)
  | bindName (c : ClassRef) (name : String)
  | hostSubclass (cls parent : String)
  | hostMethod (cls method : String)
  | hostRegistered
  | singleton (name : String) (parent : Option ClassRef) (host : HostChoice)
  | hostAlias (c : ClassRef) (method given : String)
  | exclude (c : ClassRef) (method : String)
  deriving DecidableEq, Repr

namespace Session

/-- Changes what the host declares. -/
def declareToHost (f : HostTable → HostTable) : Action Answer := do
  onWorld (.modify fun w => { w with host := f w.host })
  return .nothing

/-- The host that was chosen. -/
def chosenHost : HostChoice → Action Host
  | .table => pure .table
  | .none => pure .none
  | .installed => look (·.process.host)
  | .eager root => do return .eager (← classOf root)

/-- Refuses to change the methods of a core class that is not the session's own. -/
def protectCore (c : ClassId) : Action Unit := do
  if (← lookWorld fun w => w.slots .obj) = some c then refuseConfined (.malformed "core class")

/-- Runs a command on classes. -/
def runClassCommand : ClassCommand → Action Answer
  | .declare key signature name => do
    if (← look (·.methods.find? (·.key == key))).isSome then throw (.malformed "method key")
    change fun s => { s with methods := s.methods ++ [⟨key, name, signature⟩] }
    return .nothing
  | .bootstrap p => do
    let spec ← parcelSpec p
    return .number (← onProcess (Process.buildClasses spec))
  | .slot s => do
    let c ← lookWorld (·.slots s)
    return .slot c.isSome (← lookWorld fun w => c.map w.nameOf)
  | .cell s => do return .number (← lookWorld (·.cells (.of s)))
  | .reference key => do
    let m ← method key
    lookWorld fun w => .reference (w.offsets m) (w.describeRef m)
  | .inspect c => do
    let c ← classOf c
    lookWorld fun w => .cls (w.view c)
  | .methods c => do
    let c ← classOf c
    lookWorld fun w => .methods (w.get c).methods
  | .findMethod c name => do
    let c ← classOf c
    lookWorld fun w => .method ((w.findMethod c name).bind w.methodAt)
  | .describeMethod c name => do
    let c ← classOf c
    lookWorld fun w => .textIf (((w.findMethod c name).bind w.methodAt).map (·.describe))
  | .describe c => do
    let c ← classOf c
    lookWorld fun w => .text (w.describeClass c)
  | .isFinal c => do
    let c ← classOf c
    lookWorld fun w => .flag (w.get c).flags.final
  | .slotAt c offset => do
    let c ← classOf c
    let d ← lookWorld (·.get c)
    return .code ((← onWorld (.ofExcept (d.slot offset))).map (·.label))
  | .relate a b => do
    let a ← classOf a
    let b ← classOf b
    lookWorld fun w => .flags (w.isSubclassOf a b) (a = b)
  | .sameVtable a b => do
    let a ← classOf a
    let b ← classOf b
    lookWorld fun w => .flag ((w.get a).vtable = (w.get b).vtable)
  | .fetch name => lookWorld fun w => .textIf ((w.fetchClass name).map w.nameOf)
  | .register c => do
    let c ← classOf c
    if (← lookWorld fun w => (w.get c).name?).isNone then
      refuseConfined (.malformed "unnamed class")
    return .flag (← onWorld (World.register c))
  | .bindName c name => do
    let c ← classOf c
    return .flag (← onWorld (World.bindName name c))
  | .hostSubclass cls parent => declareToHost (·.declareSubclass cls parent)
  | .hostMethod cls name => declareToHost (·.declareMethod cls name)
  | .hostRegistered => lookWorld fun w => .pairs w.host.registered
  | .singleton name parent host => do
    let parent ← parent.mapM classOf
    let host ← chosenHost host
    match ← onWorld (World.singleton host name parent) with
    | .error r => throw (.reported r)
    | .ok c => lookWorld fun w => .subclass (w.nameOf c) ((w.get c).parent.map w.nameOf)
  | .hostAlias c name given => do
    let c ← classOf c
    protectCore c
    onWorld (World.setHostAlias c given name)
    return .nothing
  | .exclude c name => do
    let c ← classOf c
    protectCore c
    onWorld (World.excludeMethod c name)
    return .nothing

end Session

end ObjectSystem
