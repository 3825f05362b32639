import ObjectSystem.Sorting.Reader
import ObjectSystem.Text.Record

/-! # Sort engines

An `Engine` sorts more items than its buffer is meant to hold.  Items are fed into the buffer; when
the items in it cost as much as the threshold allows, the buffer is sorted and becomes a run, an
engine of its own.  Once the engine is flipped nothing more can be fed, and the items come out in
order, merged from the runs.

The buffer is a row of slots.  Items leave it from the front: a slot whose item was taken stays
behind empty, and `tick` counts those.  `Core.window` is the part from `tick` on, and `Core.live`
the items in it.  An engine that serves a reader has no runs; an engine with runs
merges them; a leaf has neither. -/

namespace ObjectSystem.Sorting

variable {α : Type}

/-- What an engine knows about its items: their order, the width of a slot in bytes, and what is
emitted when an item is let go of. -/
structure Policy (α : Type) where
  compare : α → α → Ordering
  slotWidth : Nat
  disposal : List Event := []

namespace Policy

/-- `a` may stand before `b`. -/
def le (p : Policy α) (a b : α) : Bool := p.compare a b != .gt

/-- What is emitted when `n` items are let go of. -/
def disposals (p : Policy α) (n : Nat) : List Event := (List.replicate n p.disposal).flatten

/-- The order of slots: items by the policy, empty slots last. -/
def compareSlots (p : Policy α) : Option α → Option α → Ordering
  | some a, some b => p.compare a b
  | some _, none => .lt
  | none, some _ => .gt
  | none, none => .eq

/-- The slot `a` may stand before the slot `b`. -/
def leSlots (p : Policy α) (a b : Option α) : Bool := p.compareSlots a b != .gt

@[simp] theorem leSlots_some (p : Policy α) (a b : α) : p.leSlots (some a) (some b) = p.le a b :=
  rfl

end Policy

/-- A row of slots with the number of slots that there is room for. -/
structure Buffer (α : Type) where
  slots : List (Option α) := []
  capacity : Nat := 0
  deriving DecidableEq, Repr

namespace Buffer

/-- Makes room for exactly `n` slots if there is less. -/
def grow (b : Buffer α) (n : Nat) : Buffer α := { b with capacity := max b.capacity n }

/-- Empties the buffer and keeps the room. -/
def clear (b : Buffer α) : Buffer α := { b with slots := [] }

/-- Appends slots, with as much room as they need. -/
def append (b : Buffer α) (slots : List (Option α)) : Buffer α :=
  ⟨b.slots ++ slots, max b.capacity (b.slots.length + slots.length)⟩

end Buffer

/-- Everything in an engine but its runs. -/
structure Core (α : Type) where
  /-- The slots that items are fed into and fetched from. -/
  buffer : Buffer α := {}
  /-- How many slots at the front of the buffer were emptied. -/
  tick : Nat := 0
  /-- The room that merging works in. -/
  scratch : Buffer α := {}
  /-- Where a leaf gets its items from, if not from its own buffer. -/
  reader : Option (Reader α) := none
  /-- The cost at which the buffer is spilled. -/
  memThresh : Nat
  /-- The cost of the items fed since the buffer was last cleared, as a machine word. -/
  memConsumed : Nat := 0
  /-- The cost of an item. -/
  itemCost : α → Nat
  /-- How many items were fetched. -/
  fetched : Nat := 0
  /-- Feeding is over. -/
  flipped : Bool := false
  /-- A peek, fetch or refill took place. -/
  draining : Bool := false

namespace Core

/-- The slots from which nothing was taken yet. -/
def window (c : Core α) : List (Option α) := c.buffer.slots.drop c.tick

/-- The items that are buffered. -/
def live (c : Core α) : List α := c.window.filterMap id

/-- How many slots are still to be fetched. -/
def buffered (c : Core α) : Nat := c.buffer.slots.length - c.tick

/-- The items that the reader still has. -/
def unread (c : Core α) : List α :=
  match c.reader with
  | none => []
  | some r => r.items

/-- Lets go of everything buffered and starts the account anew. -/
def clear (c : Core α) : Core α := { c with buffer := c.buffer.clear, tick := 0, memConsumed := 0 }

theorem length_window (c : Core α) : c.window.length = c.buffered := by
  simp [window, buffered]

@[simp] theorem window_clear (c : Core α) : c.clear.window = [] := rfl

@[simp] theorem buffered_clear (c : Core α) : c.clear.buffered = 0 := rfl

@[simp] theorem unread_clear (c : Core α) : c.clear.unread = c.unread := rfl

end Core

/-- An engine: its own part, and the runs that it merges. -/
structure Engine (α : Type) extends Core α where
  runs : List (Engine α) := []

namespace Engine

/-- An engine to be fed. -/
def new (memThresh : Nat) (itemCost : α → Nat) : Engine α := { memThresh, itemCost }

/-- A leaf over items that are in order already. -/
def fromSorted (memThresh : Nat) (itemCost : α → Nat) (items : List α) : Engine α :=
  { memThresh, itemCost, buffer := ⟨items.map some, items.length⟩, flipped := true }

/-- A leaf that serves a reader. -/
def fromReader (memThresh : Nat) (itemCost : α → Nat) (reader : Reader α) : Engine α :=
  { memThresh, itemCost, reader := some reader, flipped := true }

/-- How many slots the buffer has room for. -/
def capacity (e : Engine α) : Nat := e.buffer.capacity

/-- How many runs there are. -/
def numRuns (e : Engine α) : Nat := e.runs.length

mutual

/-- All items in an engine: buffered, unread, and those of its runs. -/
def contents (e : Engine α) : List α :=
  match e with
  | ⟨core, runs⟩ => core.live ++ core.unread ++ contentsAll runs

/-- All items in a row of runs. -/
def contentsAll : List (Engine α) → List α
  | [] => []
  | r :: rs => contents r ++ contentsAll rs

end

/-- The text of an engine. -/
def describe (e : Engine α) : String :=
  Text.record "SortExternal"
    [("buffered", toString e.buffered), ("runs", toString e.numRuns),
      ("has_reader", Text.ofBool e.reader.isSome), ("fetched", toString e.fetched),
      ("flipped", Text.ofBool e.flipped)]

end Engine

end ObjectSystem.Sorting
