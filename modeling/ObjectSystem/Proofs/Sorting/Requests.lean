import ObjectSystem.Sorting.Oversize

/-! # Requests for room

The growth policy of item arrays is computed with machine words, and words wrap around.  Whether
there is headroom for a request is tested by one sum, and what is asked for comes from others: a
smaller one, rounded up.  `oversize?` is the policy with sums that must fit (`sum?`), and it always
has an answer.  So the words do what the numbers do (`toNat_oversizeWord`), and what holds of
`oversize` holds of `oversizeWord`: the bounds, the multiples, the place where it gives up, and that
a larger minimum never gets less, also where one request is answered and the next gives up
(`oversizeWord_never_wraps`). -/

namespace ObjectSystem.Sorting

/-! ### Numbers -/

section

variable {minimum minimum' amount amount' : Nat}

theorem itemsPerWord_cases (width : Nat) :
    itemsPerWord width = 8 ∨ itemsPerWord width = 4 ∨ itemsPerWord width = 2 ∨
      itemsPerWord width = 1 := by
  unfold itemsPerWord
  split <;> simp

theorem spare_mono (h : minimum ≤ minimum') : spare minimum ≤ spare minimum' := by
  unfold spare
  omega

theorem roundUp_mono (h : amount ≤ amount') (unit : Nat) :
    roundUp amount unit ≤ roundUp amount' unit :=
  Nat.mul_le_mul_right _ (Nat.div_le_div_right (Nat.add_le_add_right h _))

theorem oversize_of_lt (h : minimum + (spare minimum + 7) < wordLimit) (width : Nat) :
    oversize minimum width = roundUp (minimum + spare minimum) (itemsPerWord width) := if_pos h

theorem oversize_of_le (h : wordLimit ≤ minimum + (spare minimum + 7)) (width : Nat) :
    oversize minimum width = wordLimit - 1 := if_neg (Nat.not_lt.mpr h)

theorem oversize_bounds (h : minimum + (spare minimum + 7) < wordLimit) (width : Nat) :
    minimum + spare minimum ≤ oversize minimum width ∧
      oversize minimum width ≤ minimum + spare minimum + 7 := by
  have hpos := itemsPerWord_pos width
  have hlt := roundUp_lt (minimum + spare minimum) hpos
  have hcases := itemsPerWord_cases width
  rw [oversize_of_lt h]
  exact ⟨le_roundUp _ hpos, by omega⟩

theorem oversize_lt (h : minimum + (spare minimum + 7) < wordLimit) (width : Nat) :
    oversize minimum width < wordLimit - 1 := by
  have hlt := roundUp_lt (minimum + spare minimum) (itemsPerWord_pos width)
  have hdvd := dvd_roundUp (minimum + spare minimum) (itemsPerWord width)
  rw [oversize_of_lt h]
  have hlimit : wordLimit = 18446744073709551616 := rfl
  obtain hunit | hunit | hunit | hunit := itemsPerWord_cases width
  · rw [hunit] at hlt hdvd ⊢
    omega
  all_goals
    rw [hunit] at hlt ⊢
    omega

theorem oversize_eq_iff (minimum width : Nat) :
    oversize minimum width = wordLimit - 1 ↔ wordLimit ≤ minimum + (spare minimum + 7) := by
  by_cases h : minimum + (spare minimum + 7) < wordLimit
  · have hlt := oversize_lt h width
    omega
  · have hle := Nat.not_lt.mp h
    exact ⟨fun _ => hle, fun _ => oversize_of_le hle width⟩

theorem oversize_le (minimum width : Nat) : oversize minimum width ≤ wordLimit - 1 := by
  by_cases h : minimum + (spare minimum + 7) < wordLimit
  · exact Nat.le_of_lt (oversize_lt h width)
  · exact Nat.le_of_eq (oversize_of_le (Nat.not_lt.mp h) width)

theorem oversize_mono (h : minimum ≤ minimum') (width : Nat) :
    oversize minimum width ≤ oversize minimum' width := by
  have hspare := spare_mono h
  by_cases h' : minimum' + (spare minimum' + 7) < wordLimit
  · rw [oversize_of_lt h', oversize_of_lt (by omega)]
    exact roundUp_mono (Nat.add_le_add h hspare) _
  · rw [oversize_of_le (Nat.not_lt.mp h')]
    exact oversize_le minimum width

end

/-! ### Words -/

section

variable {a b amount less unit : UInt64}

/-- The sum of two words, if a word can hold it. -/
def sum? (a b : UInt64) : Option UInt64 := if a.toNat + b.toNat < wordLimit then some (a + b) else none

/-- An amount rounded up so that items of a width fill whole words. -/
def wholeWords (amount width : UInt64) : UInt64 :=
  if width = 1 then (amount + 7) / 8 * 8
  else if width = 2 then (amount + 3) / 4 * 4
  else if width = 4 then (amount + 1) / 2 * 2
  else amount

/-- The same by a sum that must fit. -/
def wholeWords? (amount width : UInt64) : Option UInt64 :=
  if width = 1 then (sum? amount 7).map (· / 8 * 8)
  else if width = 2 then (sum? amount 3).map (· / 4 * 4)
  else if width = 4 then (sum? amount 1).map (· / 2 * 2)
  else some amount

/-- The policy on machine words with sums that must fit.  The one sum that tests for headroom may
fail to; there is no answer if any other does. -/
def oversize? (minimum width : UInt64) : Option UInt64 :=
  let extra := max (minimum >>> 3) 3
  (sum? extra 7).bind fun headroom =>
    match sum? minimum headroom with
    | none => some (0 - 1)
    | some _ => (sum? minimum extra).bind (wholeWords? · width)

theorem sum?_of_lt (h : a.toNat + b.toNat < wordLimit) : sum? a b = some (a + b) := if_pos h

theorem sum?_of_le (h : wordLimit ≤ a.toNat + b.toNat) : sum? a b = none :=
  if_neg (Nat.not_lt.mpr h)

theorem toNat_add_of_lt (h : a.toNat + b.toNat < wordLimit) :
    (a + b).toNat = a.toNat + b.toNat := by
  rw [UInt64.toNat_add]
  exact Nat.mod_eq_of_lt h

theorem add_lt_iff (a b : UInt64) : a + b < a ↔ wordLimit ≤ a.toNat + b.toNat := by
  have hlimit : wordLimit = 18446744073709551616 := rfl
  have ha := a.toNat_lt
  have hb := b.toNat_lt
  rw [UInt64.lt_iff_toNat_lt, UInt64.toNat_add]
  omega

theorem toNat_max (a b : UInt64) : (max a b).toNat = max a.toNat b.toNat := by
  have hmax : max a b = if a ≤ b then b else a := rfl
  rw [hmax]
  split
  next h => exact (Nat.max_eq_right (UInt64.le_iff_toNat_le.mp h)).symm
  next h =>
    rw [UInt64.le_iff_toNat_le] at h
    exact (Nat.max_eq_left (Nat.le_of_not_le h)).symm

theorem toNat_extra (minimum : UInt64) : (max (minimum >>> 3) 3).toNat = spare minimum.toNat := by
  have hshift : (minimum >>> 3).toNat = minimum.toNat / 8 := by
    rw [UInt64.toNat_shiftRight]
    exact Nat.shiftRight_eq_div_pow _ 3
  rw [toNat_max, hshift]
  rfl

theorem extra_add_seven_lt (minimum : UInt64) :
    (max (minimum >>> 3) 3).toNat + (7 : UInt64).toNat < wordLimit := by
  have hlimit : wordLimit = 18446744073709551616 := rfl
  have hminimum := minimum.toNat_lt
  rw [toNat_extra, spare]
  show _ + 7 < _
  omega

theorem toNat_headroom (minimum : UInt64) :
    (max (minimum >>> 3) 3 + 7).toNat = spare minimum.toNat + 7 := by
  rw [toNat_add_of_lt (extra_add_seven_lt minimum), toNat_extra]
  rfl

theorem toNat_rounded (hunit : unit.toNat = less.toNat + 1)
    (h : amount.toNat + less.toNat < wordLimit) :
    ((amount + less) / unit * unit).toNat = roundUp amount.toNat unit.toNat := by
  have hfits : (amount.toNat + less.toNat) / unit.toNat * unit.toNat < wordLimit :=
    Nat.lt_of_le_of_lt (Nat.div_mul_le_self _ _) h
  rw [UInt64.toNat_mul, UInt64.toNat_div, toNat_add_of_lt h]
  refine (Nat.mod_eq_of_lt hfits).trans ?_
  rw [roundUp, hunit, Nat.add_sub_cancel]

theorem itemsPerWord_word (width : UInt64) : itemsPerWord width.toNat =
    if width = 1 then 8 else if width = 2 then 4 else if width = 4 then 2 else 1 := by
  split
  next h => rw [h]; rfl
  split
  next h => rw [h]; rfl
  split
  next h => rw [h]; rfl
  next h1 h2 h4 =>
    unfold itemsPerWord
    split
    next h => exact absurd (UInt64.toNat_inj.mp h) h1
    next h => exact absurd (UInt64.toNat_inj.mp h) h2
    next h => exact absurd (UInt64.toNat_inj.mp h) h4
    next => rfl

theorem wholeWords?_of_lt (h : amount.toNat + 7 < wordLimit) (width : UInt64) :
    wholeWords? amount width = some (wholeWords amount width) ∧
      (wholeWords amount width).toNat = roundUp amount.toNat (itemsPerWord width.toNat) := by
  have hseven : amount.toNat + (7 : UInt64).toNat < wordLimit := h
  have hthree : amount.toNat + (3 : UInt64).toNat < wordLimit := Nat.lt_of_le_of_lt (by simp) h
  have hone : amount.toNat + (1 : UInt64).toNat < wordLimit := Nat.lt_of_le_of_lt (by simp) h
  rw [itemsPerWord_word, wholeWords?, wholeWords, sum?_of_lt hseven, sum?_of_lt hthree,
    sum?_of_lt hone]
  split
  next => exact ⟨rfl, toNat_rounded rfl hseven⟩
  split
  next => exact ⟨rfl, toNat_rounded rfl hthree⟩
  split
  next => exact ⟨rfl, toNat_rounded rfl hone⟩
  next => exact ⟨rfl, by simp [roundUp]⟩

theorem oversizeWord_eq (minimum width : UInt64) : oversizeWord minimum width =
    if minimum + (max (minimum >>> 3) 3 + 7) < minimum then 0 - 1
    else wholeWords (minimum + max (minimum >>> 3) 3) width := rfl

/-- No sum but the one that tests for headroom is too large for a word, and the words do what the
numbers do. -/
theorem oversize?_eq (minimum width : UInt64) :
    oversize? minimum width = some (oversizeWord minimum width) ∧
      (oversizeWord minimum width).toNat = oversize minimum.toNat width.toNat := by
  have hheadroom := toNat_headroom minimum
  have hwrap := add_lt_iff minimum (max (minimum >>> 3) 3 + 7)
  rw [hheadroom] at hwrap
  rw [oversize?, sum?_of_lt (extra_add_seven_lt minimum), Option.bind_some, oversizeWord_eq]
  by_cases h : minimum.toNat + (spare minimum.toNat + 7) < wordLimit
  · have htest : minimum.toNat + (max (minimum >>> 3) 3 + 7).toNat < wordLimit := by rwa [hheadroom]
    have hsum : minimum.toNat + (max (minimum >>> 3) 3).toNat < wordLimit := by
      rw [toNat_extra]
      omega
    have hamount : (minimum + max (minimum >>> 3) 3).toNat = minimum.toNat + spare minimum.toNat := by
      rw [toNat_add_of_lt hsum, toNat_extra]
    have hmore : (minimum + max (minimum >>> 3) 3).toNat + 7 < wordLimit := by
      rw [hamount]
      omega
    obtain ⟨hwhole, hnat⟩ := wholeWords?_of_lt hmore width
    rw [hamount, ← oversize_of_lt h] at hnat
    rw [sum?_of_lt htest, sum?_of_lt hsum, if_neg (mt hwrap.mp (Nat.not_le.mpr h))]
    exact ⟨hwhole, hnat⟩
  · have hle := Nat.not_lt.mp h
    have htest : wordLimit ≤ minimum.toNat + (max (minimum >>> 3) 3 + 7).toNat := by
      rwa [hheadroom]
    rw [sum?_of_le htest, if_pos (hwrap.mpr hle), oversize_of_le hle]
    exact ⟨rfl, rfl⟩

/-- Whatever the minimum and the width, no sum is too large for a word, but for the one that tests
for headroom.  A request is given up exactly if there is no headroom for it: if seven more than the
minimum and its spare room would not fit.  Otherwise what is asked for is the minimum with its spare
room and at most seven more, in whole words for the narrow widths.  And a larger minimum never gets
less, not even where a request is given up. -/
theorem oversizeWord_never_wraps (minimum width : UInt64) :
    let least := minimum.toNat + max (minimum.toNat / 8) 3
    let asked := (oversizeWord minimum width).toNat
    oversize? minimum width = some (oversizeWord minimum width) ∧
      (asked = wordLimit - 1 ↔ wordLimit ≤ least + 7) ∧
      (least + 7 < wordLimit → least ≤ asked ∧ asked ≤ least + 7 ∧
        (width = 1 → 8 ∣ asked) ∧ (width = 2 → 4 ∣ asked) ∧ (width = 4 → 2 ∣ asked)) ∧
      ∀ minimum' : UInt64, minimum ≤ minimum' →
        oversizeWord minimum width ≤ oversizeWord minimum' width := by
  obtain ⟨hfits, hnat⟩ := oversize?_eq minimum width
  intro least asked
  have hleast : minimum.toNat + (spare minimum.toNat + 7) = least + 7 :=
    (Nat.add_assoc _ _ _).symm
  have hiff := oversize_eq_iff minimum.toNat width.toNat
  rw [hleast, ← hnat] at hiff
  refine ⟨hfits, hiff, fun hlt => ?_, fun minimum' hle => ?_⟩
  · rw [← hleast] at hlt
    obtain ⟨hge, hle⟩ := oversize_bounds hlt width.toNat
    have hdvd := dvd_roundUp (minimum.toNat + spare minimum.toNat) (itemsPerWord width.toNat)
    rw [← oversize_of_lt hlt, ← hnat] at hdvd
    rw [← hnat] at hge hle
    refine ⟨hge, hle, ?_, ?_, ?_⟩
    all_goals
      rintro rfl
      exact hdvd
  · rw [UInt64.le_iff_toNat_le, hnat, (oversize?_eq minimum' width).2]
    exact oversize_mono (UInt64.le_iff_toNat_le.mp hle) _

/-- The largest minimum that is answered gets eight less than a word can count, in whole words of
eight items.  The next one is given up, and gets no less. -/
theorem oversizeWord_near_limit :
    oversize? 16397105843297379207 1 = some 18446744073709551608 ∧
      8 ∣ (oversizeWord 16397105843297379207 1).toNat ∧
      (oversizeWord 16397105843297379208 1).toNat = wordLimit - 1 ∧
      oversizeWord 16397105843297379207 1 ≤ oversizeWord 16397105843297379208 1 := by
  obtain ⟨hfits, -, hbounds, hmono⟩ := oversizeWord_never_wraps 16397105843297379207 1
  obtain ⟨-, hgiven, -⟩ := oversizeWord_never_wraps 16397105843297379208 1
  obtain ⟨-, -, hdvd, -⟩ := hbounds (by decide)
  exact ⟨hfits, hdvd rfl, hgiven.mpr (by decide), hmono _ (by decide)⟩

end

end ObjectSystem.Sorting
