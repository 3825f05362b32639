import ObjectSystem.Sorting.Merge
import Mathlib.Data.List.Basic

/-! # Ties

Two items are tied if neither comes before the other; tied items need not be equal.
`Rearranges steady l₁ l₂` says that `l₁` holds the items of `l₂` in some order, and, where `steady`
is asked for, that items tied with each other stand in the same order in both.

In order and steady, a rearrangement is determined: it is the stable sort
(`Rearranges.eq_mergeSort`).  Sorting, merging two rows and merging many rows are steady
rearrangements of what they are given (`rearranges_mergeSort`, `rearranges_merge`,
`rearranges_mergeAll`). -/

namespace ObjectSystem.Sorting

variable {α : Type}

namespace Policy

/-- Neither item comes before the other. -/
def tied (p : Policy α) (a b : α) : Bool := p.compare a b == .eq

/-- `a` comes before `b`, not tied with it. -/
def lt (p : Policy α) (a b : α) : Prop := p.compare a b = .lt

/-- The items of `l₁` are those of `l₂`, with ties in the same order if `steady`. -/
structure Rearranges (p : Policy α) (steady : Prop) (l₁ l₂ : List α) : Prop where
  perm : l₁.Perm l₂
  ties : steady → ∀ c, l₁.filter (p.tied c) = l₂.filter (p.tied c)

namespace Rearranges

variable {p : Policy α} {steady : Prop} {l l₁ l₂ l₃ r₁ r₂ : List α}

protected theorem refl (l : List α) : p.Rearranges steady l l := ⟨.refl _, fun _ _ => rfl⟩

protected theorem symm (h : p.Rearranges steady l₁ l₂) : p.Rearranges steady l₂ l₁ :=
  ⟨h.perm.symm, fun hs c => (h.ties hs c).symm⟩

protected theorem trans (h : p.Rearranges steady l₁ l₂) (h' : p.Rearranges steady l₂ l₃) :
    p.Rearranges steady l₁ l₃ :=
  ⟨h.perm.trans h'.perm, fun hs c => (h.ties hs c).trans (h'.ties hs c)⟩

theorem append (h : p.Rearranges steady l₁ l₂) (h' : p.Rearranges steady r₁ r₂) :
    p.Rearranges steady (l₁ ++ r₁) (l₂ ++ r₂) :=
  ⟨h.perm.append h'.perm, fun hs c => by
    rw [List.filter_append, List.filter_append, h.ties hs, h'.ties hs]⟩

theorem of_steady (h : p.Rearranges True l₁ l₂) : p.Rearranges steady l₁ l₂ :=
  ⟨h.perm, fun _ => h.ties trivial⟩

end Rearranges

/-! ### The order -/

section order

variable {p : Policy α}

theorem le_eq_isLE (p : Policy α) (a b : α) : p.le a b = (p.compare a b).isLE := by
  unfold le
  cases p.compare a b <;> rfl

theorem not_le_iff (a b : α) : ¬ p.le a b = true ↔ p.compare a b = .gt := by
  unfold le
  cases p.compare a b <;> simp

theorem le_of_lt {a b : α} (h : p.lt a b) : p.le a b := by
  rw [le_eq_isLE, h]
  rfl

theorem le_of_tied {a b : α} (h : p.tied a b) : p.le a b := by
  rw [le_eq_isLE, beq_iff_eq.mp h]
  rfl

variable [Std.TransCmp p.compare]

theorem le_trans (a b c : α) (hab : p.le a b) (hbc : p.le b c) : p.le a c := by
  rw [le_eq_isLE] at *
  exact Std.TransCmp.isLE_trans hab hbc

theorem le_total (a b : α) : p.le a b || p.le b a := by
  have hswap : p.compare b a = (p.compare a b).swap := Std.OrientedCmp.eq_swap
  rw [le_eq_isLE, le_eq_isLE, hswap]
  cases p.compare a b <;> rfl

theorem le_refl (a : α) : p.le a a := by
  simpa using le_total (p := p) a a

theorem lt_of_not_le {a b : α} (h : ¬ p.le a b = true) : p.lt b a :=
  Std.OrientedCmp.lt_of_gt ((not_le_iff a b).mp h)

theorem lt_of_le_of_lt {a b c : α} (h : p.le a b) (h' : p.lt b c) : p.lt a c := by
  rw [le_eq_isLE] at h
  exact Std.TransCmp.lt_of_isLE_of_lt h h'

theorem tied_symm {a b : α} (h : p.tied a b) : p.tied b a :=
  beq_iff_eq.mpr (Std.OrientedCmp.eq_symm (beq_iff_eq.mp h))

theorem tied_trans {a b c : α} (h : p.tied a b) (h' : p.tied b c) : p.tied a c :=
  beq_iff_eq.mpr (Std.TransCmp.eq_trans (beq_iff_eq.mp h) (beq_iff_eq.mp h'))

theorem tied_refl (a : α) : p.tied a a := beq_iff_eq.mpr Std.ReflCmp.compare_self

theorem tied_of_le_of_le {a b : α} (h : p.le a b) (h' : p.le b a) : p.tied a b := by
  rw [le_eq_isLE] at h h'
  exact beq_iff_eq.mpr (Std.OrientedCmp.isLE_antisymm h h')

theorem not_tied_of_lt {a b c : α} (h : p.lt a b) (hb : p.tied c b) : ¬ p.tied c a = true := by
  intro ha
  have hab := tied_trans (tied_symm ha) hb
  rw [tied, h] at hab
  exact absurd hab (by decide)

end order

/-! ### Rows in order -/

section rows

variable {p : Policy α} [Std.TransCmp p.compare] {steady : Prop} {l l₁ l₂ r : List α}

/-- A row in order is determined by its items and the order of its ties. -/
theorem Rearranges.eq_of_pairwise : ∀ {l₁ l₂ : List α}, p.Rearranges True l₁ l₂ →
    l₁.Pairwise (p.le · ·) → l₂.Pairwise (p.le · ·) → l₁ = l₂
  | [], l₂, h, _, _ => h.perm.nil_eq
  | a :: l₁, [], h, _, _ => absurd h.perm.symm.nil_eq (by simp)
  | a :: l₁, b :: l₂, h, h₁, h₂ => by
    have hab : p.le a b := by
      rcases List.mem_cons.mp (h.perm.mem_iff.mpr List.mem_cons_self) with rfl | hb
      · exact le_refl _
      · exact List.rel_of_pairwise_cons h₁ hb
    have hba : p.le b a := by
      rcases List.mem_cons.mp (h.perm.mem_iff.mp List.mem_cons_self) with rfl | ha
      · exact le_refl _
      · exact List.rel_of_pairwise_cons h₂ ha
    have heads := h.ties trivial a
    rw [List.filter_cons_of_pos (tied_refl a),
      List.filter_cons_of_pos (tied_of_le_of_le hab hba)] at heads
    obtain rfl : a = b := (List.cons.inj heads).1
    have rest : p.Rearranges True l₁ l₂ := by
      refine ⟨h.perm.cons_inv, fun _ c => ?_⟩
      have hc := h.ties trivial c
      by_cases hca : p.tied c a
      · rw [List.filter_cons_of_pos hca, List.filter_cons_of_pos hca] at hc
        exact (List.cons.inj hc).2
      · rwa [List.filter_cons_of_neg hca, List.filter_cons_of_neg hca] at hc
    rw [rest.eq_of_pairwise h₁.of_cons h₂.of_cons]

/-- Sorting keeps the order of ties. -/
theorem rearranges_mergeSort (l : List α) : p.Rearranges True (l.mergeSort p.le) l := by
  refine ⟨List.mergeSort_perm l p.le, fun _ c => ?_⟩
  have hp : (l.filter (p.tied c)).Pairwise (p.le · ·) := by
    refine List.pairwise_of_forall_mem_list fun a ha b hb => ?_
    rw [List.mem_filter] at ha hb
    exact le_of_tied (tied_trans (tied_symm ha.2) hb.2)
  have hs := List.sublist_mergeSort le_trans le_total hp List.filter_sublist
  have hf := hs.filter (p.tied c)
  simp only [List.filter_filter, Bool.and_self] at hf
  refine (hf.eq_of_length ?_).symm
  exact (((List.mergeSort_perm l p.le).filter _).length_eq).symm

theorem pairwise_mergeSort (l : List α) : (l.mergeSort p.le).Pairwise (p.le · ·) :=
  List.pairwise_mergeSort le_trans le_total l

/-- The only steady rearrangement in order is the stable sort. -/
theorem Rearranges.eq_mergeSort (h : p.Rearranges True l₁ l₂) (h₁ : l₁.Pairwise (p.le · ·)) :
    l₁ = l₂.mergeSort p.le :=
  (h.trans (rearranges_mergeSort l₂).symm).eq_of_pairwise h₁ (pairwise_mergeSort l₂)

theorem rearranges_append_comm (h : ∀ a ∈ l, ∀ b ∈ r, steady → p.lt b a) :
    p.Rearranges steady (l ++ r) (r ++ l) := by
  refine ⟨List.perm_append_comm, fun hs c => ?_⟩
  rw [List.filter_append, List.filter_append]
  by_cases hr : r.filter (p.tied c) = []
  · rw [hr, List.append_nil, List.nil_append]
  · obtain ⟨b, hb⟩ := List.exists_mem_of_ne_nil _ hr
    rw [List.mem_filter] at hb
    have hl : l.filter (p.tied c) = [] := by
      refine List.filter_eq_nil_iff.mpr fun a ha hca => ?_
      exact not_tied_of_lt (h a ha b hb.1 hs) hca hb.2
    rw [hl, List.append_nil, List.nil_append]

theorem rearranges_flatMap_append {β : Type} (f g : β → List α) : ∀ (bs : List β),
    (∀ b ∈ bs, ∀ y ∈ g b, ∀ b' ∈ bs, ∀ x ∈ f b', steady → p.lt x y) →
    p.Rearranges steady (bs.flatMap f ++ bs.flatMap g) (bs.flatMap fun b => f b ++ g b)
  | [], _ => .refl _
  | b :: bs, h => by
    have front : p.Rearranges steady (bs.flatMap f ++ g b) (g b ++ bs.flatMap f) := by
      refine (rearranges_append_comm fun y hy x hx => ?_).symm
      obtain ⟨b', hb', hx⟩ := List.mem_flatMap.mp hx
      exact h b List.mem_cons_self y hy b' (List.mem_cons_of_mem _ hb') x hx
    have rest := rearranges_flatMap_append f g bs fun b hb y hy b' hb' =>
      h b (List.mem_cons_of_mem _ hb) y hy b' (List.mem_cons_of_mem _ hb')
    have both := (front.append (.refl (bs.flatMap g))).trans
      (by rw [List.append_assoc]; exact (Rearranges.refl (g b)).append rest)
    simp only [List.flatMap_cons, List.append_assoc] at both ⊢
    exact (Rearranges.refl (f b)).append both

/-- Merging keeps the order of ties, those of the left row first. -/
theorem rearranges_merge : ∀ {l r : List α}, l.Pairwise (p.le · ·) →
    p.Rearranges True (l.merge r p.le) (l ++ r)
  | [], r, _ => by rw [List.nil_merge]; exact .refl _
  | a :: l, [], _ => by rw [List.merge_right, List.append_nil]; exact .refl _
  | a :: l, b :: r, hl => by
    by_cases hab : p.le a b
    · rw [List.cons_merge_cons_pos p.le l r hab]
      exact (Rearranges.refl [a]).append (rearranges_merge hl.of_cons)
    · rw [List.cons_merge_cons_neg p.le l r hab]
      have hb : ∀ x ∈ a :: l, ∀ y ∈ [b], True → p.lt y x := by
        intro x hx y hy _
        obtain rfl := List.mem_singleton.mp hy
        rcases List.mem_cons.mp hx with rfl | hx
        · exact lt_of_not_le hab
        · refine lt_of_not_le fun hxb => hab ?_
          exact le_trans _ _ _ (List.rel_of_pairwise_cons hl hx) hxb
      have := (rearranges_append_comm hb).symm.append (Rearranges.refl r)
      simp only [List.append_assoc, List.cons_append] at this
      exact ((Rearranges.refl [b]).append (rearranges_merge hl)).trans this
termination_by l r => l.length + r.length

theorem pairwise_merge (hl : l.Pairwise (p.le · ·)) (hr : r.Pairwise (p.le · ·)) :
    (l.merge r p.le).Pairwise (p.le · ·) :=
  List.pairwise_merge le_trans le_total l r hl hr

theorem pairwise_mergePass {slices : List (List α)} (h : ∀ l ∈ slices, l.Pairwise (p.le · ·)) :
    ∀ l ∈ mergePass p.le slices, l.Pairwise (p.le · ·) := by
  fun_induction mergePass p.le slices with
  | case1 a b rest ih =>
    simp only [List.forall_mem_cons] at h ⊢
    exact ⟨pairwise_merge h.1 h.2.1, ih h.2.2⟩
  | case2 a => exact h
  | case3 => exact h

theorem rearranges_mergePass {slices : List (List α)}
    (h : ∀ l ∈ slices, l.Pairwise (p.le · ·)) :
    p.Rearranges True (mergePass p.le slices).flatten slices.flatten := by
  fun_induction mergePass p.le slices with
  | case1 a b rest ih =>
    simp only [List.forall_mem_cons] at h
    simp only [List.flatten_cons, ← List.append_assoc]
    exact (rearranges_merge h.1).append (ih h.2.2)
  | case2 a => exact .refl _
  | case3 => exact .refl _

theorem pairwise_mergeAll {slices : List (List α)} (h : ∀ l ∈ slices, l.Pairwise (p.le · ·)) :
    (mergeAll p.le slices).Pairwise (p.le · ·) := by
  fun_induction mergeAll p.le slices with
  | case1 => exact .nil
  | case2 a => exact h a List.mem_cons_self
  | case3 a b rest ih => exact ih (pairwise_mergePass h)

/-- Merging rows in order keeps the order of ties, those of earlier rows first. -/
theorem rearranges_mergeAll {slices : List (List α)} (h : ∀ l ∈ slices, l.Pairwise (p.le · ·)) :
    p.Rearranges True (mergeAll p.le slices) slices.flatten := by
  fun_induction mergeAll p.le slices with
  | case1 => exact .refl _
  | case2 a => rw [List.flatten_singleton]; exact .refl _
  | case3 a b rest ih => exact (ih (pairwise_mergePass h)).trans (rearranges_mergePass h)

end rows

end Policy

/-! ### Slots that hold items -/

theorem mergePass_map {β : Type} {f : α → β} {le : α → α → Bool} {le' : β → β → Bool}
    (h : ∀ a b, le' (f a) (f b) = le a b) (slices : List (List α)) :
    mergePass le' (slices.map (·.map f)) = (mergePass le slices).map (·.map f) := by
  fun_induction mergePass le slices with
  | case1 a b rest ih =>
    simp only [List.map_cons, mergePass, ih]
    rw [List.map_merge fun a _ b _ => (h a b).symm]
  | case2 a => rfl
  | case3 => rfl

theorem mergeAll_map {β : Type} {f : α → β} {le : α → α → Bool} {le' : β → β → Bool}
    (h : ∀ a b, le' (f a) (f b) = le a b) (slices : List (List α)) :
    mergeAll le' (slices.map (·.map f)) = (mergeAll le slices).map f := by
  fun_induction mergeAll le slices with
  | case1 => rw [List.map_nil, mergeAll]; rfl
  | case2 a => rw [List.map_cons, List.map_nil, mergeAll]
  | case3 a b rest ih =>
    rw [← ih, ← mergePass_map h, List.map_cons, List.map_cons, mergeAll]

end ObjectSystem.Sorting
