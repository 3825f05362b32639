/-! # Where a row divides

When everything in a row that meets a condition stands before everything that does not, the row
divides in two, and `partitionPoint` finds the place by halving.  `Divided` is the premise;
`partitionPoint_eq` says what is found under it.  In any other row some place is found that lies
within the row. -/

namespace ObjectSystem.Sorting

variable {α : Type}

theorem half_lt {n : Nat} (h : 2 ≤ n) : n / 2 < n := Nat.div_lt_self (by omega) (by decide)

/-- How many elements of a row meet a condition, if those stand in front of all others. -/
def partitionPoint (q : α → Bool) (row : List α) : Nat :=
  if h : 2 ≤ row.length then
    let half := row.length / 2
    have hh : half < row.length := half_lt h
    if q row[half] then half + partitionPoint q (row.drop half)
    else partitionPoint q (row.take (row.length - half))
  else row.countP q
termination_by row.length
decreasing_by
  · simp only [List.length_drop]; omega
  · simp only [List.length_take]; omega

/-- Whatever meets the condition stands in front of whatever does not. -/
def Divided (q : α → Bool) (row : List α) : Prop := row.Pairwise fun a b => q b → q a

theorem partitionPoint_le (q : α → Bool) (row : List α) : partitionPoint q row ≤ row.length := by
  fun_induction partitionPoint q row with
  | case1 row h half hh hq ih => simp only [List.length_drop] at ih; omega
  | case2 row h half hh hq ih => simp only [List.length_take] at ih; omega
  | case3 row h => exact List.countP_le_length

theorem Divided.sublist {q : α → Bool} {row part : List α} (h : Divided q row)
    (hp : part.Sublist row) : Divided q part :=
  List.Pairwise.sublist hp h

theorem Divided.of_index {q : α → Bool} {row : List α} (h : Divided q row) {i j : Nat}
    (hij : i < j) (hi : i < row.length) (hj : j < row.length) (hq : q row[j]) : q row[i] :=
  List.pairwise_iff_getElem.mp h i j hi hj hij hq

/-- In a divided row the place found is the number of elements that meet the condition. -/
theorem partitionPoint_eq {q : α → Bool} {row : List α} (h : Divided q row) :
    partitionPoint q row = row.countP q := by
  fun_induction partitionPoint q row with
  | case1 row hl half hh hq ih =>
    have hf : (row.take half).countP q = half := by
      rw [List.countP_eq_length.mpr, List.length_take]
      · omega
      · intro a ha
        obtain ⟨i, hi, rfl⟩ := List.mem_iff_getElem.mp ha
        simp only [List.length_take] at hi
        rw [List.getElem_take]
        exact h.of_index (by omega) (by omega) hh hq
    rw [ih (h.sublist (List.drop_sublist _ _)), ← hf, ← List.countP_append, hf,
      List.take_append_drop]
  | case2 row hl half hh hq ih =>
    have hb : (row.drop (row.length - half)).countP q = 0 := by
      rw [List.countP_eq_zero]
      intro a ha hqa
      obtain ⟨i, hi, rfl⟩ := List.mem_iff_getElem.mp ha
      simp only [List.length_drop] at hi
      rw [List.getElem_drop] at hqa
      rcases Nat.eq_or_lt_of_le (show half ≤ row.length - half + i by omega) with he | hlt
      · exact hq (by simpa only [← he] using hqa)
      · exact hq (h.of_index hlt hh (by omega) hqa)
    rw [ih (h.sublist (List.take_sublist _ _)), ← Nat.add_zero (List.countP q _), ← hb,
      ← List.countP_append, List.take_append_drop]
  | case3 row hl => rfl

end ObjectSystem.Sorting
