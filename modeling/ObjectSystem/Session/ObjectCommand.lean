import ObjectSystem.Object.Order
import ObjectSystem.Session.Answer
import ObjectSystem.Session.Basic

/-! # Commands on objects

Making objects, holding and giving up handles, calling methods, and looking into instances. -/

namespace ObjectSystem

/-- A command on objects. -/
inductive ObjectCommand
  | make (c : ClassRef) (as : String)
  | makeInteger (n : Int) (as : String)
  | truth (b : Bool) (as : String)
  | ofClass (c : ClassRef) (as : String)
  | ofMethod (c : ClassRef) (name as : String)
  | retain (object as : String)
  | release (object : String)
  | drop (object : String)
  /-- Lets a handle out of the count's sight and takes it back. -/
  | detour (object : String)
  | count (object : String)
  | absent
  | describe (object : String)
  | text (object : String)
  | equals (a b : String)
  | compare (a b : String)
  | isA (object : String) (c : ClassRef)
  | integerValue (object : String)
  | truthValue (object : String)
  | call (object method : String) (number : Int) (text : String) (other : String)
  | writeVariables (object : String) (slot : ClassSlot) (bytes : List UInt8)
  | readVariables (object : String) (slot : ClassSlot) (length : Nat)
  | sort (objects : List String) (thresh : Option Nat) (single : Bool)
  deriving DecidableEq, Repr

namespace Session

/-- The largest instance that can be made from outside. -/
def maxInstanceSize : Nat := 1048576

/-- Whether instances of a class can be made from outside: classes and methods come into being in
other ways only. -/
def instantiable (w : World) (c : ClassId) : Bool :=
  let below (s : ClassSlot) : Bool := (w.slots s).any (w.isSubclassOf c)
  !below .cls && !below .method && (w.get c).objSize ≤ maxInstanceSize

/-- Keeps an object under a new key.  Answers its class and the handles on it. -/
def answerObject (key : String) (o : ObjRef) : Action Answer := do
  keepObject key o
  lookWorld fun w => .object (w.classNameOf o) (w.count o)

/-- Looks at what would be called if a handle on an object were released that is the last one. -/
def checkRelease (o : ObjRef) : Action Unit := do
  if (← lookWorld (·.count o)) = 1 then checkSlot CoreMethod.objDestroy o

/-- Gives up the handle under a key.  Answers how many handles are left.  A refused release leaves
the object where it is; any other one forgets the key, even if it stops with a fault. -/
def releaseObject (key : String) : Action Nat := do
  let o ← object key
  checkRelease o
  forgetObject key
  onWorld (World.release o)

/-- Calls a method of an object. -/
def callMethod (m : MethodRef) (o : ObjRef) (args : Arguments) : Action Value := do
  checkSlot m o
  onWorld (World.call m o args)

/-- Where the variables of a class begin in an object, unless `length` bytes from there on are not
all variables of the object. -/
def variablesAt (o : ObjRef) (slot : ClassSlot) (length : Nat) : Action Nat := do
  let w ← lookWorld id
  let offset := w.cells (.of slot)
  if headerSize ≤ offset && offset + length ≤ (w.get (w.classOf o)).objSize then pure offset
  else throw .outOfBounds

/-- The least key of an object. -/
def keyOf (s : Session) (o : ObjRef) : String :=
  let keys := (s.objects.filter (·.2 = o)).map (·.1)
  (keys.mergeSort fun a b => !(b < a)).headD ""

/-- Gathers the objects under some keys, each by itself if `single` is set. -/
def gatherObjects (thresh : Nat) (single : Bool) : List String → ObjectPile → Action ObjectPile
  | [], p => pure p
  | key :: keys, p => do
    let o ← object key
    checkSlot CoreMethod.objCompareTo o
    let p ← if single then pure (p.putAway o) else onWorld (World.gatherObject thresh o p)
    gatherObjects thresh single keys p

/-- Sorts the objects under some keys.  The pile holds on to each object until all that can be taken
were taken. -/
def sortObjects (keys : List String) (thresh : Option Nat) (single : Bool) : Action Answer := do
  let thresh := thresh.getD (← look (·.process.memThresh))
  let pile ← gatherObjects thresh single keys {}
  let pile ← onWorld (pile.close World.compareObjects)
  let (taken, stuck) ← onWorld (pile.drain World.compareObjects)
  let objects ← keys.mapM object
  onWorld (World.retainAll objects)
  let gathered ← lookWorld fun w => objects.map w.count
  onWorld (World.releaseAll (taken ++ stuck))
  let drained ← lookWorld fun w => objects.map w.count
  return .sorted (taken.map (keyOf (← look id))) gathered drained

/-- Runs a command on objects. -/
def runObjectCommand : ObjectCommand → Action Answer
  | .make c as => do
    let c ← classOf c
    if !(← lookWorld (instantiable · c)) then throw .unsupported
    answerObject as (← onWorld (World.makeInstance c))
  | .makeInteger n as => do answerObject as (← onWorld (World.newInteger n))
  | .truth b as => do answerObject as (← onWorld (World.truth b))
  | .ofClass c as => do
    let c ← classOf c
    answerObject as (← onWorld (World.classObject c))
  | .ofMethod c name as => do
    let c ← classOf c
    let m ← require .noSuchMethod (← lookWorld (·.findMethod c name))
    answerObject as (← onWorld (World.methodObject m))
  | .retain key as => do
    let o ← object key
    onWorld (World.retain o)
    answerObject as o
  | .release key => do return .number (← releaseObject key)
  | .drop key => do
    let _ ← releaseObject key
    return .nothing
  | .detour key => do
    let o ← object key
    checkRelease o
    lookWorld fun w => .object (w.classNameOf o) (w.count o)
  | .count key => do
    let o ← object key
    lookWorld fun w => .number (w.count o)
  | .absent => do
    let still ← onWorld (World.retain? none)
    let left ← onWorld (World.release? none)
    lookWorld fun w => .absent still.isNone (w.count? none) left
  | .describe key => do
    let o ← object key
    lookWorld fun w => .text (w.describeObject o)
  | .text key => do
    let o ← object key
    return .value (← callMethod CoreMethod.objToString o { other := o })
  | .equals a b => do
    let a ← object a
    let b ← object b
    match ← callMethod CoreMethod.objEquals a { other := b } with
    | .truth equal => return .flags equal (a = b)
    | v => return .value v
  | .compare a b => do
    let a ← object a
    let b ← object b
    return .value (← callMethod CoreMethod.objCompareTo a { other := b })
  | .isA key c => do
    let c ← classOf c
    let o ← object key
    lookWorld fun w => .flag (w.isA o c)
  | .integerValue key => do
    let o ← object key
    return .numberIf (← onWorld (World.integerValue o))
  | .truthValue key => do
    let o ← object key
    return .flagIf (← onWorld (World.truthValue o))
  | .call key m number text other => do
    let o ← object key
    let m ← method m
    let other ← match m.signature with
      | .equals | .compare => object other
      | _ => pure o
    return .value (← callMethod m o { number, text, other })
  | .writeVariables key slot bytes => do
    let o ← object key
    let offset ← variablesAt o slot bytes.length
    onWorld (World.writeBytes o offset bytes)
    return .nothing
  | .readVariables key slot length => do
    let o ← object key
    let offset ← variablesAt o slot length
    lookWorld fun w => .bytes (w.bytesAt o offset length)
  | .sort keys thresh single => sortObjects keys thresh single

end Session

end ObjectSystem
