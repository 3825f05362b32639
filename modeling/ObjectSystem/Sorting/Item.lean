import ObjectSystem.Sorting.Draining

/-! # Items to sort

Items are of one of a few types and are sorted by one of a few orders.  `ItemType` says how wide an
item is and what it costs, `Item.key` is the number that the orders by key look at, and
`Order.policy` is the policy of an engine for both. -/

namespace ObjectSystem.Sorting

/-- What can be sorted. -/
inductive Item
  | number (n : Int)
  | flag (b : Bool)
  | nothing
  | text (s : String)
  | pair (n : Int) (s : String)
  deriving DecidableEq, Repr

/-- The types of items. -/
inductive ItemType
  | u8 | u16 | i32 | i64 | bool | unit | str | pair | obj
  deriving DecidableEq, Repr

namespace ItemType

/-- The bytes that an item takes. -/
def size : ItemType → Nat
  | u8 => 1
  | u16 => 2
  | i32 => 4
  | i64 => 8
  | bool => 1
  | unit => 0
  | str => 24
  | pair => 32
  | obj => 8

/-- The bytes that a slot for an item takes. -/
def slotWidth : ItemType → Nat
  | u8 => 2
  | u16 => 4
  | i32 => 8
  | i64 => 16
  | bool => 1
  | unit => 1
  | str => 24
  | pair => 32
  | obj => 8

/-- The cost of an item unless another one was set: its size, and 1 if it has none. -/
def cost (t : ItemType) : Nat := max t.size 1

/-- What is emitted when an item is let go of: an object dies with its last handle. -/
def disposal : ItemType → List Event
  | obj => [.objectDestroyed "Clownfish::Integer"]
  | _ => []

end ItemType

namespace Item

/-- The number that orders by key compare. -/
def key : Item → Int
  | number n => n
  | flag b => if b then 1 else 0
  | nothing => 0
  | text s => s.utf8ByteSize
  | pair n _ => n

/-- The natural order: numbers by value, texts byte by byte, pairs by number first. -/
def compareNatural : Item → Item → Ordering
  | text a, text b => compare a b
  | pair m a, pair n b => (compare m n).then (compare a b)
  | a, b => compare a.key b.key

end Item

/-- The orders. -/
inductive Order
  | ascending | descending | byKey | byKeyDescending | constant | modulo (n : Int)
  deriving DecidableEq, Repr

namespace Order

/-- Compares two items. -/
def compare (o : Order) (a b : Item) : Ordering :=
  match o with
  | ascending => a.compareNatural b
  | descending => b.compareNatural a
  | byKey => Ord.compare a.key b.key
  | byKeyDescending => Ord.compare b.key a.key
  | constant => .eq
  | modulo n => Ord.compare (a.key % n) (b.key % n)

/-- The policy of an engine that sorts items of a type in an order. -/
def policy (o : Order) (t : ItemType) : Policy Item := ⟨o.compare, t.slotWidth, t.disposal⟩

end Order

/-- The costs that items can be given. -/
inductive Cost
  | zero | one | key
  deriving DecidableEq, Repr

/-- The cost of an item. -/
def Cost.of : Cost → Item → Nat
  | zero, _ => 0
  | one, _ => 1
  | key, x => x.key.toNat

end ObjectSystem.Sorting
