import ObjectSystem.Proofs.Class.Marks

/-! # Chains of classes

From a class upward a chain goes through the classes of its own parcel, and then through those of
other parcels.  The variables of a class begin behind the nearest class from another parcel
(`World.varsBegin`).

`Layered w` is what keeps parcels apart: from a parent to its child parcels come one after the
other, and instances do not get smaller.  Then all classes of a parcel on a chain begin at the same
place (`Layered.begin_eq`), which is behind every class above from another parcel
(`Layered.begin_le`). -/

namespace ObjectSystem

namespace World

variable {w w' : World} {a c p n : Nat}

/-- The nearest of the classes above that came with another parcel. -/
def foreign (w : World) (c : ClassId) : Option ClassId :=
  (w.ancestors c).find? fun a => (w.get a).parcel != (w.get c).parcel

/-- Where the variables of its parcel begin in the instances of a class: behind those of the nearest
class from another parcel. -/
def varsBegin (w : World) (c : ClassId) : Nat := (w.foreign c).elim 0 fun a => (w.get a).objSize

/-! ### Chains of classes -/

/-- The parents of the first classes came before them. -/
def ParentsFirst (w : World) (n : Nat) : Prop :=
  ∀ c p : Nat, c < n → (w.get c).parent = some p → p < c

namespace ParentsFirst

theorem ancestorsUpTo_eq (h : ParentsFirst w n) (hc : c < n) {j k : Nat} (hj : c < j) (hk : c < k) :
    w.ancestorsUpTo j c = w.ancestorsUpTo k c := by
  induction c using Nat.strongRecOn generalizing j k with
  | ind c ih =>
    obtain ⟨j, rfl⟩ : ∃ i, j = i + 1 := Nat.exists_eq_add_one.2 (Nat.zero_lt_of_lt hj)
    obtain ⟨k, rfl⟩ : ∃ i, k = i + 1 := Nat.exists_eq_add_one.2 (Nat.zero_lt_of_lt hk)
    unfold ancestorsUpTo
    cases hp : (w.get c).parent with
    | none => rfl
    | some p =>
      have hlt := h c p hc hp
      exact congrArg (c :: ·) (ih p hlt (by omega) (by omega) (by omega))

theorem ancestors_cons (h : ParentsFirst w n) (hn : n ≤ w.classes.length) (hc : c < n) :
    w.ancestors c = c :: (w.get c).parent.elim [] w.ancestors := by
  unfold ancestors
  obtain ⟨k, hk⟩ : ∃ k, w.classes.length = k + 1 := Nat.exists_eq_add_one.2 (by omega)
  rw [hk]
  conv => lhs; unfold ancestorsUpTo
  cases hp : (w.get c).parent with
  | none => rfl
  | some p =>
    have hlt := h c p hc hp
    exact congrArg (c :: ·) (h.ancestorsUpTo_eq (by omega) (by omega) (by omega))

theorem ivarsOffset_some (h : ParentsFirst w n) (hn : n ≤ w.classes.length) (hp : p < n)
    (parcel : Nat) :
    w.ivarsOffset (some p) parcel =
      if (w.get p).parcel = parcel then w.ivarsOffset (w.get p).parent parcel
      else (w.get p).objSize := by
  simp only [ivarsOffset, h.ancestors_cons hn hp, List.find?_cons]
  by_cases hsame : (w.get p).parcel = parcel
  · rw [if_pos hsame, bne_eq_false_iff_eq.2 hsame]
    cases (w.get p).parent <;> rfl
  · rw [if_neg hsame, bne_iff_ne.2 hsame]

theorem varsBegin_eq (h : ParentsFirst w n) (hn : n ≤ w.classes.length) (hc : c < n) :
    w.varsBegin c = w.ivarsOffset (w.get c).parent (w.get c).parcel := by
  unfold varsBegin foreign
  rw [h.ancestors_cons hn hc, List.find?_cons, bne_self_eq_false]
  cases hp : (w.get c).parent with
  | none => rfl
  | some q =>
    unfold ivarsOffset
    simp only [Option.elim_some]
    cases (w.ancestors q).find? fun a => (w.get a).parcel != (w.get c).parcel <;> rfl

/-- What is above a class is the class itself or above its parent. -/
theorem eq_or_above (h : ParentsFirst w w.classes.length) (ha : a ∈ w.ancestors c) :
    a = c ∨ ∃ p : Nat, (w.get c).parent = some p ∧ p < c ∧ a ∈ w.ancestors p := by
  by_cases hc : c < w.classes.length
  · rw [h.ancestors_cons (Nat.le_refl _) hc] at ha
    refine (List.mem_cons.1 ha).imp_right fun ha => ?_
    cases hp : (w.get c).parent with
    | none =>
      rw [hp] at ha
      cases ha
    | some p =>
      rw [hp] at ha
      exact ⟨p, rfl, h c p hc hp, ha⟩
  · have hblank : (w.get c).parent = none := by
      rw [get_of_length_le (Nat.le_of_not_lt hc)]
      rfl
    unfold ancestors at ha
    cases hn : w.classes.length with
    | zero =>
      rw [hn] at ha
      cases ha
    | succ n =>
      rw [hn] at ha
      unfold ancestorsUpTo at ha
      rw [hblank] at ha
      exact .inl (List.mem_singleton.1 ha)

end ParentsFirst

/-- The first classes of two worlds have the same parents, parcels and sizes. -/
structure Matches (n : Nat) (w w' : World) : Prop where
  parent : ∀ c : Nat, c < n → (w'.get c).parent = (w.get c).parent
  parcel : ∀ c : Nat, c < n → (w'.get c).parcel = (w.get c).parcel
  objSize : ∀ c : Nat, c < n → (w'.get c).objSize = (w.get c).objSize

namespace Matches

theorem of_get (h : ∀ c : Nat, c < n → w'.get c = w.get c) : Matches n w w' :=
  ⟨fun c hc => by rw [h c hc], fun c hc => by rw [h c hc], fun c hc => by rw [h c hc]⟩

theorem parentsFirst (h : Matches n w w') (hfirst : ParentsFirst w n) : ParentsFirst w' n :=
  fun c p hc hp => hfirst c p hc ((h.parent c hc).symm.trans hp)

/-- Among the same classes the search ends at the same place. -/
theorem ivarsOffset_eq (h : Matches n w w') (hfirst : ParentsFirst w n)
    (hn : n ≤ w.classes.length) (hn' : n ≤ w'.classes.length) {parent : Option ClassId}
    (hparent : ∀ p : Nat, parent = some p → p < n) (parcel : Nat) :
    w'.ivarsOffset parent parcel = w.ivarsOffset parent parcel := by
  cases parent with
  | none => rfl
  | some p =>
    replace hparent := hparent p rfl
    induction p using Nat.strongRecOn with
    | ind p ih =>
      rw [(h.parentsFirst hfirst).ivarsOffset_some hn' hparent, hfirst.ivarsOffset_some hn hparent,
        h.parcel p hparent, h.objSize p hparent, h.parent p hparent]
      cases hq : (w.get p).parent with
      | none => rfl
      | some q =>
        have hlt := hfirst p q hparent hq
        rw [ih q hlt (Nat.lt_trans hlt hparent)]

theorem varsBegin_eq (h : Matches n w w') (hfirst : ParentsFirst w n)
    (hn : n ≤ w.classes.length) (hn' : n ≤ w'.classes.length) (hc : c < n) :
    w'.varsBegin c = w.varsBegin c := by
  rw [(h.parentsFirst hfirst).varsBegin_eq hn' hc, hfirst.varsBegin_eq hn hc, h.parcel c hc,
    h.parent c hc]
  exact h.ivarsOffset_eq hfirst hn hn' (fun p hp => Nat.lt_trans (hfirst c p hc hp) hc) _

end Matches

/-- Parents come first.  From a parent to its child parcels come one after the other, and instances
do not get smaller. -/
structure Layered (w : World) : Prop where
  first : ParentsFirst w w.classes.length
  parcel_le : ∀ c p : Nat, (w.get c).parent = some p → (w.get p).parcel ≤ (w.get c).parcel
  objSize_le : ∀ c p : Nat, (w.get c).parent = some p → (w.get p).objSize ≤ (w.get c).objSize

theorem lt_of_parent (h : (w.get c).parent = some p) : c < w.classes.length := by
  by_contra hc
  rw [get_of_length_le (Nat.le_of_not_lt hc)] at h
  cases h

namespace Layered

theorem of_ancestor (h : Layered w) (ha : a ∈ w.ancestors c) :
    (w.get a).parcel ≤ (w.get c).parcel ∧ (w.get a).objSize ≤ (w.get c).objSize := by
  induction c using Nat.strongRecOn with
  | ind c ih =>
    rcases h.first.eq_or_above ha with rfl | ⟨p, hp, hlt, ha⟩
    · exact ⟨Nat.le_refl _, Nat.le_refl _⟩
    · obtain ⟨hparcel, hsize⟩ := ih p hlt ha
      exact ⟨Nat.le_trans hparcel (h.parcel_le c p hp), Nat.le_trans hsize (h.objSize_le c p hp)⟩

theorem varsBegin_child (h : Layered w) (hp : (w.get c).parent = some p) :
    w.varsBegin c =
      if (w.get p).parcel = (w.get c).parcel then w.varsBegin p else (w.get p).objSize := by
  have hc := lt_of_parent hp
  have hlt := h.first c p hc hp
  rw [h.first.varsBegin_eq (Nat.le_refl _) hc, hp,
    h.first.ivarsOffset_some (Nat.le_refl _) (Nat.lt_trans hlt hc)]
  split
  · next hsame => rw [h.first.varsBegin_eq (Nat.le_refl _) (Nat.lt_trans hlt hc), hsame]
  · rfl

/-- The classes of a parcel on a chain begin at the same place. -/
theorem begin_eq (h : Layered w) (ha : a ∈ w.ancestors c)
    (hsame : (w.get a).parcel = (w.get c).parcel) : w.varsBegin a = w.varsBegin c := by
  induction c using Nat.strongRecOn with
  | ind c ih =>
    rcases h.first.eq_or_above ha with rfl | ⟨p, hp, hlt, ha⟩
    · rfl
    · have hle := (h.of_ancestor ha).1
      have hle' := h.parcel_le c p hp
      have hbetween : (w.get p).parcel = (w.get c).parcel := by omega
      rw [h.varsBegin_child hp, if_pos hbetween]
      exact ih p hlt ha (hsame.trans hbetween.symm)

/-- A class begins behind all those above it that are from another parcel. -/
theorem begin_le (h : Layered w) (ha : a ∈ w.ancestors c)
    (hother : (w.get a).parcel ≠ (w.get c).parcel) : (w.get a).objSize ≤ w.varsBegin c := by
  induction c using Nat.strongRecOn with
  | ind c ih =>
    rcases h.first.eq_or_above ha with rfl | ⟨p, hp, hlt, ha⟩
    · exact absurd rfl hother
    · rw [h.varsBegin_child hp]
      split
      · next hsame => exact ih p hlt ha (hsame ▸ hother)
      · exact (h.of_ancestor ha).2

end Layered

end World

end ObjectSystem
