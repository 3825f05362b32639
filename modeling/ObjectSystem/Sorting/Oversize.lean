import ObjectSystem.Step

/-! # How much room to ask for

`oversize` is the growth policy of item arrays: about an eighth more than the minimum, at least
three items more, rounded up so that narrow items fill whole words.  A request that would not fit
in a machine word is answered by the largest word.

`oversizeWord` is the same policy computed with machine words, where a sum that does not fit would
wrap around. -/

namespace ObjectSystem.Sorting

/-- One more than the largest machine word. -/
def wordLimit : Nat := UInt64.size

/-- Rounds up to a multiple of `unit`. -/
def roundUp (amount unit : Nat) : Nat := (amount + (unit - 1)) / unit * unit

/-- The spare room that is asked for on top of the minimum. -/
def spare (minimum : Nat) : Nat := max (minimum / 8) 3

/-- How many items of a width fill a word. -/
def itemsPerWord (width : Nat) : Nat :=
  match width with
  | 1 => 8
  | 2 => 4
  | 4 => 2
  | _ => 1

/-- The number of items to make room for when at least `minimum` are needed. -/
def oversize (minimum width : Nat) : Nat :=
  if minimum + (spare minimum + 7) < wordLimit then
    roundUp (minimum + spare minimum) (itemsPerWord width)
  else wordLimit - 1

/-- The policy on machine words. -/
def oversizeWord (minimum width : UInt64) : UInt64 :=
  let extra := max (minimum >>> 3) 3
  let headroom := extra + 7
  if minimum + headroom < minimum then 0 - 1
  else
    let amount := minimum + extra
    if width = 1 then (amount + 7) / 8 * 8
    else if width = 2 then (amount + 3) / 4 * 4
    else if width = 4 then (amount + 1) / 2 * 2
    else amount

theorem le_roundUp (amount : Nat) {unit : Nat} (h : 0 < unit) : amount ≤ roundUp amount unit := by
  unfold roundUp
  have h₁ := Nat.div_add_mod (amount + (unit - 1)) unit
  have h₂ := Nat.mod_lt (amount + (unit - 1)) h
  rw [Nat.mul_comm]
  omega

theorem roundUp_lt (amount : Nat) {unit : Nat} (h : 0 < unit) :
    roundUp amount unit < amount + unit := by
  unfold roundUp
  have := Nat.div_mul_le_self (amount + (unit - 1)) unit
  omega

theorem dvd_roundUp (amount unit : Nat) : unit ∣ roundUp amount unit := Nat.dvd_mul_left _ _

theorem itemsPerWord_pos (width : Nat) : 0 < itemsPerWord width := by
  unfold itemsPerWord; split <;> omega

end ObjectSystem.Sorting
