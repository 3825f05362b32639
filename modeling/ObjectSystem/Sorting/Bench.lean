import ObjectSystem.Sorting.Item

/-! # A bench of engines

On a `Bench` engines go by number.  `Bench.run` carries out a `Bench.Command` on one of them and
gives a `Bench.Answer`.  A bench knows the type of its items, their order, and the threshold of a
new engine. -/

namespace ObjectSystem.Sorting

/-- What to do with an engine. -/
inductive Bench.Command
  | new
  | fromSorted (items : List Item)
  | fromItems (items : List Item) (size : Nat)
  | fromBatches (batches : List (List Item)) (claimed : Option Nat)
  | addRun (child : Int)
  | setMemThresh (bytes : Nat)
  | memThresh
  | setItemCost (cost : Cost)
  | feed (item : Item)
  | feedAll (items : List Item)
  | feedMeasured (items : List Item)
  | sortBuffer
  | flush
  | flip
  | clearBuffer
  | shrink
  | growBuffer (n : Nat)
  | fetch
  | peek
  | fetchUpTo (n : Nat)
  | drain
  | refill
  | capacity
  | compare (a b : Item)
  | describe
  deriving DecidableEq, Repr

/-- What a command answers. -/
inductive Bench.Answer
  | none
  | number (n : Int)
  | numbers (ns : List Nat)
  /-- Items that were taken out of an engine. -/
  | taken (items : List Item)
  /-- Items that are still in an engine. -/
  | shown (items : List Item)
  | text (s : String)
  /-- The command names an engine that it cannot use. -/
  | noEngine
  deriving DecidableEq, Repr

/-- Engines by number. -/
structure Bench where
  itemType : ItemType
  order : Order
  memThresh : Nat
  engines : List (Int × Engine Item) := []

namespace Bench

/-- The engine of a number. -/
def engine? (b : Bench) (id : Int) : Option (Engine Item) := b.engines.lookup id

/-- The bench without an engine. -/
def remove (b : Bench) (id : Int) : Bench :=
  { b with engines := b.engines.filter (·.1 != id) }

/-- The bench with an engine in place of any other of that number. -/
def put (b : Bench) (id : Int) (e : Engine Item) : Bench :=
  { b with engines := (id, e) :: (b.remove id).engines }

/-- How the items of the bench are sorted. -/
def policy (b : Bench) : Policy Item := b.order.policy b.itemType

/-- Puts a new engine in its place; an engine that was there is let go of. -/
def place (id : Int) (e : Engine Item) : Step Bench Answer := fun b =>
  let gone := match b.engine? id with
    | some old => b.policy.disposals old.contents.length
    | none => []
  ⟨b.put id e, .ok .none, gone⟩

/-- Runs a step on the engine of a number. -/
def onEngine {α : Type} (id : Int) (e : Engine Item) (x : Step (Engine Item) α) : Step Bench α :=
  fun b => (x e).mapState (b.put id)

/-- Feeds items one by one and gives the capacity after each.  Items that are refused are let go
of, with all that come after them. -/
def feedEach (p : Policy Item) : List Item → Step (Engine Item) (List Nat)
  | [] => pure []
  | x :: xs => fun e =>
    let o := Engine.feed p x e
    match o.answer with
    | .error _ => ⟨o.state, o.answer.map fun _ => [], o.events ++ p.disposals (xs.length + 1)⟩
    | .ok () => o.bind fun _ e => (feedEach p xs e).bind fun caps e' =>
        ⟨e', .ok (e.capacity :: caps), []⟩

/-- Takes up to `n` items, each of which is let go of once it was seen. -/
def takeUpTo (p : Policy Item) : Nat → Step (Engine Item) (List Item)
  | 0 => pure []
  | n + 1 => fun e => (Engine.fetch p e).bind fun x e =>
    match x with
    | none => ⟨e, .ok [], []⟩
    | some x =>
      let rest := takeUpTo p n e
      ⟨rest.state, rest.answer.map (x :: ·), p.disposal ++ rest.events⟩

/-- Runs a command on an engine that is there. -/
def runOn (id : Int) (e : Engine Item) (command : Command) : Step Bench Answer := fun b =>
  let p := b.policy
  let take (n : Nat) : Step Bench Answer :=
    Answer.taken <$> onEngine id e (takeUpTo p (min n (e.contents.length + 1)))
  let quiet (x : Step (Engine Item) Unit) : Step Bench Answer :=
    (fun _ => Answer.none) <$> onEngine id e x
  let step : Step Bench Answer :=
    match command with
    | .new => place id (.new b.memThresh fun _ => b.itemType.cost)
    | .fromSorted items => place id (.fromSorted b.memThresh (fun _ => b.itemType.cost) items)
    | .fromItems items size =>
      place id (.fromReader b.memThresh (fun _ => b.itemType.cost) (.ofItems items size))
    | .fromBatches batches claimed =>
      place id (.fromReader b.memThresh (fun _ => b.itemType.cost)
        ⟨batches.map fun items => ⟨items, claimed.getD items.length⟩⟩)
    | .addRun child =>
      match if child = id then none else b.engine? child with
      | none => pure .noEngine
      | some run => fun b =>
        let o := (quiet (Engine.addRun p run)) (b.remove child)
        match o.answer with
        | .ok _ => o
        | .error _ => { o with events := o.events ++ p.disposals run.contents.length }
    | .setMemThresh bytes => quiet (Engine.setMemThresh bytes)
    | .memThresh => pure (.number e.memThresh)
    | .setItemCost cost => quiet (Engine.setItemCost cost.of)
    | .feed item => (fun _ => Answer.none) <$> onEngine id e (feedEach p [item])
    | .feedAll items => (fun _ => Answer.none) <$> onEngine id e (feedEach p items)
    | .feedMeasured items => Answer.numbers <$> onEngine id e (feedEach p items)
    | .sortBuffer => quiet (Engine.sortBuffer p)
    | .flush => quiet (Engine.flush p)
    | .flip => quiet (Engine.flip p)
    | .clearBuffer => fun b =>
      let o := quiet Engine.clearBuffer b
      { o with events := o.events ++ p.disposals e.live.length }
    | .shrink => quiet Engine.shrink
    | .growBuffer n => quiet (Engine.growBuffer n)
    | .fetch => take 1
    | .peek => (fun x => Answer.shown x.toList) <$> onEngine id e (Engine.peek p)
    | .fetchUpTo n => take n
    | .drain => take (e.contents.length + 1)
    | .refill => (fun n => Answer.number (Int.ofNat n)) <$> onEngine id e (Engine.refill p)
    | .capacity => pure (.number e.capacity)
    | .compare x y => fun b =>
      ⟨b, .ok (.number (match p.compare x y with | .lt => -1 | .eq => 0 | .gt => 1)), p.disposals 2⟩
    | .describe => pure (.text e.describe)
  step b

/-- Whether a command makes a new engine. -/
def makes : Command → Bool
  | .new | .fromSorted _ | .fromItems .. | .fromBatches .. => true
  | _ => false

/-- Runs a command on the engine of a number. -/
def run (id : Int) (command : Command) : Step Bench Answer := fun b =>
  match b.engine? id with
  | some e => runOn id e command b
  | none =>
    if makes command then runOn id (.new b.memThresh fun _ => b.itemType.cost) command b
    else ⟨b, .ok .noEngine, []⟩

end Bench

end ObjectSystem.Sorting
