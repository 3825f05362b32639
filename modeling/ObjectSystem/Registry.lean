import ObjectSystem.Step

/-! # Registries

A `Registry V` binds names to values, each name once and for good.  It is a table of fixed size: a
name is looked for from the slot that its hash points to, and from there on slot by slot, round
the end of the table, until the name or an empty slot is met.  A new name takes that empty slot.
The table never grows, and a new name that finds it full is a fault.

Which slot a name ends up in depends on the hash; what the registry answers does not. -/

namespace ObjectSystem

variable {V : Type}

/-- A bound name. -/
structure Binding (V : Type) where
  key : String
  value : V
  deriving DecidableEq, Repr

/-- A table of bindings with the hash that places them. -/
structure Registry (V : Type) where
  hash : String → Nat
  slots : Array (Option (Binding V))
  size : Nat

namespace Registry

/-- What a search for a name ends at. -/
inductive Probe (V : Type)
  /-- The name is bound. -/
  | bound (value : V)
  /-- The name is not bound, and this slot is empty. -/
  | vacant (slot : Nat)
  /-- The name is not bound, and no slot is empty. -/
  | full
  deriving DecidableEq, Repr

/-- The largest request that can be rounded up to a power of two in a machine word. -/
def maxRequest : Nat := UInt64.size / 2

/-- The largest number of slots, of eight bytes each, that a memory can be asked for. -/
def maxSlots : Nat := UInt64.size / 32

/-- The number of slots of a table that is asked to hold `requested` names, which are at most
`maxRequest`. -/
def capacityFor (requested : Nat) : Nat := (max requested 1).nextPowerOfTwo

/-- An empty table for at least `requested` names. -/
def new (hash : String → Nat) (requested : Nat) : Registry V :=
  ⟨hash, Array.replicate (capacityFor requested) none, 0⟩

/-- The number of slots. -/
def capacity (r : Registry V) : Nat := r.slots.size

/-- The slot that is looked at after `steps` others in the search for `key`. -/
def slotAt (r : Registry V) (key : String) (steps : Nat) : Nat :=
  (r.hash key + steps) % r.capacity

/-- The search for `key` with `left` slots still to look at. -/
def probeFrom (r : Registry V) (key : String) : Nat → Probe V
  | 0 => .full
  | left + 1 =>
    let slot := r.slotAt key (r.capacity - (left + 1))
    match r.slots[slot]? with
    | some (some b) => if b.key = key then .bound b.value else probeFrom r key left
    | _ => .vacant slot

/-- The search for `key`. -/
def probe (r : Registry V) (key : String) : Probe V := r.probeFrom key r.capacity

/-- The value of a name. -/
def fetch (r : Registry V) (key : String) : Option V :=
  match r.probe key with
  | .bound v => some v
  | _ => none

/-- Binds a name that is not bound yet.  Answers whether it did. -/
def register (key : String) (value : V) : Step (Registry V) Bool := fun r =>
  match r.probe key with
  | .bound _ => ⟨r, .ok false, []⟩
  | .vacant slot =>
    ⟨{ r with slots := r.slots.setIfInBounds slot (some ⟨key, value⟩), size := r.size + 1 },
      .ok true, []⟩
  | .full => Step.fault (.registryFull r.capacity) r

/-- Binds names one after the other.  Answers how many were new. -/
def registerAll : List (String × V) → Step (Registry V) Nat
  | [] => pure 0
  | (key, value) :: rest => do
    let new ← register key value
    return (if new then 1 else 0) + (← registerAll rest)

/-- The names, in the order of their slots. -/
def keys (r : Registry V) : List String := r.slots.toList.filterMap (·.map Binding.key)

/-- The names in ascending order. -/
def sortedKeys (r : Registry V) : List String := r.keys.mergeSort (compare · · != .gt)

@[simp] theorem fetch_new (hash : String → Nat) (requested : Nat) (key : String) :
    (new hash requested : Registry V).fetch key = none := by
  have : ∀ left, ∀ v, (new hash requested : Registry V).probeFrom key left ≠ .bound v := by
    intro left v
    cases left with
    | zero => simp [probeFrom]
    | succ left =>
      simp only [probeFrom, new, Array.getElem?_replicate]
      split
      · rename_i h
        split at h <;> simp at h
      · simp
  simp only [fetch, probe]
  split
  · rename_i h
    exact absurd h (this _ _)
  · rfl

@[simp] theorem capacity_new (hash : String → Nat) (requested : Nat) :
    (new hash requested : Registry V).capacity = capacityFor requested := by
  simp [new, capacity]

end Registry

end ObjectSystem
