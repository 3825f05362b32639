import ObjectSystem.Object.Handle

/-! # Boxed values

Truth values and whole numbers as objects.  There are two truth values, made once and shared; a
number is a new object each time.  A value stands in the bytes after the header of the core part
of the object, a number in eight bytes with the lowest first. -/

namespace ObjectSystem

/-- A number in `n` bytes, the lowest first. -/
def littleEndian : Nat → Nat → List UInt8
  | 0, _ => []
  | n + 1, value => UInt8.ofNat (value % 256) :: littleEndian n (value / 256)

/-- The number that bytes stand for, the lowest first. -/
def ofLittleEndian : List UInt8 → Nat
  | [] => 0
  | b :: rest => b.toNat + 256 * ofLittleEndian rest

theorem ofLittleEndian_littleEndian {value : Nat} (h : value < UInt64.size) :
    ofLittleEndian (littleEndian 8 value) = value := by
  have hs : UInt64.size = 18446744073709551616 := rfl
  have hb (n : Nat) : (UInt8.ofNat (n % 256)).toNat = n % 256 := by simp
  simp only [littleEndian, ofLittleEndian, hb]
  omega

/-- The eight bytes of a whole number. -/
def numberBytes (n : Int) : List UInt8 := littleEndian 8 (n % UInt64.size).toNat

/-- The whole number of eight bytes. -/
def ofNumberBytes (bytes : List UInt8) : Int := (ofLittleEndian bytes : Int).bmod UInt64.size

theorem ofNumberBytes_numberBytes {n : Int} (h : n.bmod UInt64.size = n) :
    ofNumberBytes (numberBytes n) = n := by
  have h₀ : 0 ≤ n % (UInt64.size : Int) := Int.emod_nonneg _ (by decide)
  have h₁ : n % (UInt64.size : Int) < UInt64.size := Int.emod_lt_of_pos _ (by decide)
  unfold ofNumberBytes numberBytes
  rw [ofLittleEndian_littleEndian (by omega), Int.toNat_of_nonneg h₀, Int.emod_bmod, h]

namespace World

/-- Where the value of a boxed object of a core class stands. -/
def boxAddress (w : World) (slot : ClassSlot) : Nat := w.cells (.ofCore slot) + headerSize

/-- A new object with a number in it. -/
def newInteger (n : Int) : Step World ObjRef := do
  let o ← makeInstance (← slotClass .integer)
  writeBytes o (← Step.gets (·.boxAddress .integer)) (numberBytes n)
  pure o

/-- The number in an object, if it is one with a number. -/
def integerValue (o : ObjRef) : Step World (Option Int) := do
  let c ← slotClass .integer
  Step.gets fun w =>
    if w.isA o c then some (ofNumberBytes (w.bytesAt o (w.boxAddress .integer) 8)) else none

/-- A new object with a truth value in it. -/
def newTruth (b : Bool) : Step World Nat := do
  let c ← slotClass .boolean
  let i ← Step.gets (·.objects.length)
  let o ← makeInstance c
  writeBytes o (← Step.gets (·.boxAddress .boolean)) [if b then 1 else 0]
  pure i

/-- Makes the two truth values if they are not there yet. -/
def ensureTruths : Step World (Nat × Nat) := do
  match ← Step.gets (·.truths) with
  | some pair => pure pair
  | none => do
    let no ← newTruth false
    let yes ← newTruth true
    Step.modify fun w => { w with truths := some (no, yes) }
    pure (no, yes)

/-- The object of a truth value. -/
def truth (b : Bool) : Step World ObjRef := do
  let (no, yes) ← ensureTruths
  pure (.allocated (if b then yes else no))

/-- The truth value in an object, if it is one with a truth value. -/
def truthValue (o : ObjRef) : Step World (Option Bool) := do
  let c ← slotClass .boolean
  Step.gets fun w =>
    if w.isA o c then some (w.byteAt o (w.boxAddress .boolean) != 0) else none

end World

end ObjectSystem
