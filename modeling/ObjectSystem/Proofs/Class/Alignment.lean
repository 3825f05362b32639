import Mathlib.Algebra.BigOperators.Ring.List
import ObjectSystem.Proofs.Class.Publishing
import ObjectSystem.Proofs.Class.Variables

/-! # How far in variables begin

An object is at a multiple of `objectAlign`, and all of it is rounded up to one, but the parts that
its classes from different parcels add are not.  Where the variables of a class begin is the sum of
what the nearest class above from another parcel asks for, the nearest one above that from yet
another, and so on (`beneath`, `bytesBeneath`), as far as it can be written down.  This is read off
the specs alone, and it holds for any sizes and any number of parcels upon each other
(`offsets_add_up`).  What can be written down is limited to a multiple of the alignment, so it takes
sizes that are multiples to get offsets that are. -/

namespace ObjectSystem

/-- The alignment of objects in memory. -/
def objectAlign : Nat := 8

/-- The bytes that the class of a spec adds to those before it.  The class of classes takes as many
as a descriptor, counted from the start. -/
def ClassSpec.width (s : ClassSpec) : Nat := if s.slot = .cls then vtableOffset else s.ivarsSize

namespace World

variable {w w' : World} {laid earlier : List (Nat × ClassSpec)} {e : Nat × ClassSpec}
  {p : ParcelSpec} {number parent : Nat} {t : ClassSlot} {above : Option ClassSlot}

/-! ### Specs upon each other -/

/-- The specs whose bytes come before the variables of a parcel below a class: the nearest one from
another parcel, the nearest one above that from yet another, and so on, to the class of classes at
the most.  Specs are given with the numbers of their parcels, the last one first. -/
def beneath : List (Nat × ClassSpec) → Nat → Option ClassSlot → List ClassSpec
  | [], _, _ => []
  | e :: earlier, number, above =>
    if above ≠ some e.2.slot then beneath earlier number above
    else if e.1 = number then beneath earlier number e.2.parent
    else if e.2.slot = .cls then [e.2]
    else e.2 :: beneath earlier e.1 e.2.parent

/-- The bytes before the variables of a parcel below a class. -/
def bytesBeneath (laid : List (Nat × ClassSpec)) (number : Nat) (above : Option ClassSlot) : Nat :=
  ((beneath laid number above).map ClassSpec.width).sum

theorem beneath_subset (laid : List (Nat × ClassSpec)) (number : Nat) (above : Option ClassSlot) :
    beneath laid number above ⊆ laid.map Prod.snd := by
  induction laid generalizing number above with
  | nil => exact List.Subset.refl _
  | cons e earlier ih =>
    have htail : earlier.map Prod.snd ⊆ (e :: earlier).map Prod.snd := List.subset_cons_self _ _
    have hhead : e.2 ∈ (e :: earlier).map Prod.snd := List.mem_cons_self
    unfold beneath
    split
    · exact List.Subset.trans (ih number above) htail
    split
    · exact List.Subset.trans (ih number _) htail
    split
    · exact List.cons_subset.2 ⟨hhead, List.nil_subset _⟩
    · exact List.cons_subset.2 ⟨hhead, List.Subset.trans (ih _ _) htail⟩

theorem dvd_bytesBeneath (h : ∀ e ∈ laid, objectAlign ∣ e.2.ivarsSize) (number : Nat)
    (above : Option ClassSlot) : objectAlign ∣ bytesBeneath laid number above := by
  refine List.dvd_sum fun n hn => ?_
  obtain ⟨s, hs, rfl⟩ := List.mem_map.1 hn
  obtain ⟨e, he, rfl⟩ := List.mem_map.1 (beneath_subset _ _ _ hs)
  unfold ClassSpec.width
  split
  · decide
  · exact h e he

/-- The parent of every spec is that of an earlier one. -/
def Founded : List (Nat × ClassSpec) → Prop
  | [] => True
  | e :: earlier => (∀ t, e.2.parent = some t → t ∈ earlier.map (·.2.slot)) ∧ Founded earlier

theorem Founded.parent_mem (h : Founded laid) (he : e ∈ laid) (ht : e.2.parent = some t) :
    t ∈ laid.map (·.2.slot) := by
  induction laid with
  | nil => cases he
  | cons r earlier ih =>
    rcases List.mem_cons.1 he with rfl | he
    · exact List.mem_cons_of_mem _ (h.1 t ht)
    · exact List.mem_cons_of_mem _ (ih h.2 he)

/-- The specs of a parcel, upon those that there were. -/
def layUpon (number : Nat) (specs : List ClassSpec) (laid : List (Nat × ClassSpec)) :
    List (Nat × ClassSpec) :=
  (specs.map (number, ·)).reverse ++ laid

theorem mem_layUpon {specs : List ClassSpec} :
    e ∈ layUpon number specs laid ↔ (e.1 = number ∧ e.2 ∈ specs) ∨ e ∈ laid := by
  unfold layUpon
  rw [List.mem_append, List.mem_reverse, List.mem_map]
  refine or_congr_left ⟨?_, fun h => ⟨e.2, h.2, Prod.ext h.1.symm rfl⟩⟩
  rintro ⟨s, hs, rfl⟩
  exact ⟨rfl, hs⟩

theorem mem_slots_layUpon {specs : List ClassSpec} :
    t ∈ (layUpon number specs laid).map (·.2.slot) ↔
      t ∈ specs.map (·.slot) ∨ t ∈ laid.map (·.2.slot) := by
  simp [layUpon, List.map_append, List.map_reverse]

theorem Founded.layUpon (h : Founded laid) {specs : List ClassSpec} (hin : InOrder w.slots specs)
    (hknown : ∀ t, (w.slots t).isSome → t ∈ laid.map (·.2.slot)) :
    Founded (layUpon number specs laid) := by
  induction specs using List.reverseRecOn with
  | nil => exact h
  | append_singleton specs s ih =>
    obtain ⟨hinit, hlast⟩ := inOrder_concat.1 hin
    have hcons : World.layUpon number (specs ++ [s]) laid =
        (number, s) :: World.layUpon number specs laid := by
      simp [World.layUpon]
    rw [hcons]
    refine ⟨fun t ht => mem_slots_layUpon.2 ?_, ih hinit⟩
    exact (not_not.1 fun hempty => hlast _ (.early ht hempty)).symm.imp_right (hknown t)

theorem find?_layUpon (cell : IvarsCell) (specs : List ClassSpec) :
    ((layUpon number specs laid).find? fun e => e.2.cell = some cell) =
      ((naming cell specs).map (number, ·)).or (laid.find? fun e => e.2.cell = some cell) := by
  unfold layUpon naming
  rw [List.find?_append, ← List.map_reverse, List.find?_map]
  rfl

/-! ### The classes of the specs -/

/-- What is known of a world with the classes of some specs: each has its parcel and its size, and a
cell holds where the last class that has it begins. -/
structure Surveyed (laid : List (Nat × ClassSpec)) (w : World) : Prop where
  founded : Founded laid
  first : ParentsFirst w w.classes.length
  slotsInside : SlotsInside w
  namesInside : NamesInside w
  known : ∀ t, (w.slots t).isSome ↔ t ∈ laid.map (·.2.slot)
  seated : ∀ e ∈ laid, ∃ c, w.slots e.2.slot = some c ∧ Measured w e.2 c e.1
  cells : ∀ cell, w.cells cell =
    ((laid.find? fun e => e.2.cell = some cell).map fun e => w.varsStart e.2 e.1).getD 0

namespace Surveyed

theorem start (t : HostTable) : Surveyed [] { host := t } where
  founded := trivial
  first c _ hc := absurd hc (Nat.not_lt_zero c)
  slotsInside := nofun
  namesInside := nofun
  known _ := by simp
  seated := nofun
  cells _ := rfl

/-- The search for a class from another parcel ends behind the bytes of the specs beneath, as far as
they can be written down. -/
theorem ivarsOffset_eq (h : Surveyed laid w) (hsub : earlier ⊆ laid) (hfounded : Founded earlier)
    (habove : ∀ t, above = some t → t ∈ earlier.map (·.2.slot)) :
    w.ivarsOffset (above.bind w.slots) number =
      bytesBeneath earlier number above % sizeLimit := by
  induction earlier generalizing number above with
  | nil =>
    cases above with
    | none => rfl
    | some t => cases habove t rfl
  | cons e earlier ih =>
    have hsub' : earlier ⊆ laid := List.Subset.trans (List.subset_cons_self e earlier) hsub
    unfold bytesBeneath beneath
    by_cases hslot : above = some e.2.slot
    · obtain ⟨c, hc, hparcel, hparent, hsize⟩ := h.seated e (hsub List.mem_cons_self)
      rw [if_neg (not_not.2 hslot), hslot, Option.bind_some, hc,
        h.first.ivarsOffset_some (Nat.le_refl _) (h.slotsInside _ c hc), hparcel, hparent, hsize]
      by_cases hnumber : e.1 = number
      · rw [if_pos hnumber, if_pos hnumber]
        exact ih hsub' hfounded.2 hfounded.1
      rw [if_neg hnumber, if_neg hnumber]
      by_cases hcls : e.2.slot = .cls
      · rw [if_pos hcls, if_pos hcls, List.map_singleton, List.sum_singleton, ClassSpec.width,
          if_pos hcls]
        rfl
      · have hstart : w.varsStart e.2 e.1 = _ := ih hsub' hfounded.2 hfounded.1
        rw [if_neg hcls, if_neg hcls, hstart, Nat.mod_add_mod, List.map_cons, List.sum_cons,
          ClassSpec.width, if_neg hcls, Nat.add_comm]
        rfl
    · rw [if_pos hslot]
      refine ih hsub' hfounded.2 fun t ht => ?_
      refine (List.mem_cons.1 (habove t ht)).resolve_left fun heq => hslot ?_
      rw [ht, heq]

theorem varsStart_eq (h : Surveyed laid w) (he : e ∈ laid) :
    w.varsStart e.2 e.1 = bytesBeneath laid e.1 e.2.parent % sizeLimit :=
  h.ivarsOffset_eq (List.Subset.refl _) h.founded fun _ ht => h.founded.parent_mem he ht

section Onward

variable (h : Surveyed laid w) (hsame : Matches w.classes.length w w')
  (hle : w.classes.length ≤ w'.classes.length)
  (hslots : ∀ t c, w.slots t = some c → w'.slots t = some c)

include h hsame hle hslots

/-- The class of a spec keeps the place where it begins, and what was measured. -/
theorem seated_onward (he : e ∈ laid) :
    w'.varsStart e.2 e.1 = w.varsStart e.2 e.1 ∧
      ∃ c, w'.slots e.2.slot = some c ∧ Measured w' e.2 c e.1 := by
  have hparents : e.2.parent.bind w'.slots = e.2.parent.bind w.slots := by
    cases ht : e.2.parent with
    | none => rfl
    | some t =>
      obtain ⟨d, hd⟩ := Option.isSome_iff_exists.1 ((h.known t).2 (h.founded.parent_mem he ht))
      rw [Option.bind_some, Option.bind_some, hd, hslots t d hd]
  have hstart : w'.varsStart e.2 e.1 = w.varsStart e.2 e.1 := by
    unfold varsStart
    rw [hparents]
    refine hsame.ivarsOffset_eq h.first (Nat.le_refl _) hle (fun q hq => ?_) _
    obtain ⟨t, -, hslot⟩ := Option.bind_eq_some_iff.1 hq
    exact h.slotsInside t q hslot
  obtain ⟨c, hc, hparcel, hparent, hsize⟩ := h.seated e he
  have hlt := h.slotsInside _ c hc
  refine ⟨hstart, c, hslots _ c hc, (hsame.parcel c hlt).trans hparcel, ?_, ?_⟩
  · rw [hsame.parent c hlt, hparent, hparents]
  · rw [hsame.objSize c hlt, hsize, hstart]

theorem cells_onward (cell : IvarsCell) :
    ((laid.find? fun e => e.2.cell = some cell).map fun e => w'.varsStart e.2 e.1).getD 0 =
      w.cells cell := by
  rw [h.cells]
  cases hfind : laid.find? fun e => e.2.cell = some cell with
  | none => rfl
  | some e => exact (h.seated_onward hsame hle hslots (List.mem_of_find?_eq_some hfind)).1

end Onward

/-- Another parcel is laid upon those that there are. -/
theorem bootstrap (h : Surveyed laid w) (hcall : (World.bootstrap p).Gives w number w')
    (hhook : ∀ hook, w.hook = some hook → hook.OnlyFills) :
    Surveyed (layUpon number p.classes laid) w' := by
  obtain ⟨hmeasured, hcells, hfirst⟩ := bootstrap_measures h.slotsInside h.first hcall hhook
  obtain ⟨-, w₁, -, hpublish, -⟩ := bootstrap_steps hcall
  have hp := bootstrap_populates h.slotsInside hcall hhook
  have hsame : Matches w.classes.length w w' := .of_get hp.old
  have hle : w.classes.length ≤ w'.classes.length := hp.length_eq ▸ Nat.le_add_right _ _
  refine ⟨h.founded.layUpon (inOrder_of_publishAll hpublish) fun t => (h.known t).1, hfirst,
    hp.slotsInside, hp.namesInside h.namesInside, fun t => ?_, fun e he => ?_, fun cell => ?_⟩
  · rw [hp.slots_eq, isSome_fillSlots, Filled, h.known, mem_slots_layUpon, or_comm]
  · rcases mem_layUpon.1 he with ⟨hnumber, hs⟩ | he
    · obtain ⟨k, hk⟩ := List.mem_iff_getElem?.1 hs
      exact ⟨_, (hp.born k _ hk).slot, hnumber ▸ hmeasured k _ hk⟩
    · exact (h.seated_onward hsame hle hp.slots he).2
  · rw [hcells, find?_layUpon]
    cases naming cell p.classes with
    | some s => rfl
    | none =>
      rw [Option.map_none, Option.map_none, Option.none_or]
      exact (h.cells_onward hsame hle hp.slots cell).symm

theorem onward (h : Surveyed laid w) (hsame : Matches w.classes.length w w')
    (hle : w.classes.length ≤ w'.classes.length) (hslots : w'.slots = w.slots)
    (hcells : w'.cells = w.cells) (hnames : NamesInside w')
    (hnew : ∀ c q : Nat, w.classes.length ≤ c → (w'.get c).parent = some q →
      q < w.classes.length) : Surveyed laid w' := by
  have hkept : ∀ t c, w.slots t = some c → w'.slots t = some c := fun t c ht => hslots ▸ ht
  refine ⟨h.founded, fun c q _ hq => ?_, fun t c ht => ?_, hnames, hslots ▸ h.known,
    fun e he => (h.seated_onward hsame hle hkept he).2, fun cell => ?_⟩
  · by_cases hc : c < w.classes.length
    · exact h.first c q hc ((hsame.parent c hc).symm.trans hq)
    · exact Nat.lt_of_lt_of_le (hnew c q (Nat.le_of_not_lt hc) hq) (Nat.le_of_not_lt hc)
  · exact Nat.lt_of_lt_of_le (h.slotsInside t c (hslots ▸ ht)) hle
  · rw [hcells]
    exact (h.cells_onward hsame hle hkept cell).symm

theorem subclass {fresh : List String} {name : String} (h : Surveyed laid w)
    (hparent : parent < w.classes.length)
    (hcall : (createSubclass (.answering fresh) name parent).Gives w (.ok w.classes.length) w') :
    Surveyed laid w' := by
  obtain ⟨hnames, r, vtable, hw'⟩ := createSubclass_copy h.namesInside hcall
  have hget : ∀ c : Nat, w'.get c = if c = w.classes.length then
      { w.subclassOf parent name with vtable := vtable } else w.get c := by
    rw [hw']
    exact get_append w _ w.slots
  have hlength : w'.classes.length = w.classes.length + 1 := by
    rw [hw']
    exact List.length_append
  refine h.onward (.of_get fun c hc => (hget c).trans (if_neg (Nat.ne_of_lt hc)))
    (hlength ▸ Nat.le_succ _) (by rw [hw']) (by rw [hw']) hnames fun c q hle hq => ?_
  have hlt := lt_of_parent hq
  obtain rfl : c = w.classes.length := by omega
  rw [hget, if_pos rfl] at hq
  exact Option.some.inj hq ▸ hparent

end Surveyed

/-! ### Parcels of any sizes -/

/-- The worlds that come about by calls that make classes and complete, from parcels of any sizes,
as long as the sizes of descriptors can be written down.  The specs are listed with the numbers of
their parcels, the last one first. -/
inductive Piled : List (Nat × ClassSpec) → World → Prop
  | start (t : HostTable) : Piled [] { host := t }
  /-- A parcel is bootstrapped.  A hook, if there is one, does no more than put functions into
  vtables. -/
  | bootstrap {laid : List (Nat × ClassSpec)} {w w' : World} {p : ParcelSpec} {n : Nat}
    (before : Piled laid w) (call : (World.bootstrap p).Gives w n w')
    (hook : ∀ hook, w.hook = some hook → hook.OnlyFills)
    (descriptors : ∀ d ∈ w'.classes, d.classSize < sizeLimit) : Piled (layUpon n p.classes laid) w'
  /-- A subclass is made for a host that defines the methods `fresh`. -/
  | subclass {laid : List (Nat × ClassSpec)} {w w' : World} {fresh : List String} {name : String}
    {parent : Nat} (before : Piled laid w) (inside : parent < w.classes.length)
    (call : (createSubclass (.answering fresh) name parent).Gives w (.ok w.classes.length) w') :
    Piled laid w'
  /-- Something is done that makes no classes and does not fill slots and cells. -/
  | aside {laid : List (Nat × ClassSpec)} {w w' : World} (before : Piled laid w)
    (same : Matches w.classes.length w w') (length_eq : w'.classes.length = w.classes.length)
    (slots : w'.slots = w.slots) (cells : w'.cells = w.cells) (names : NamesInside w') :
    Piled laid w'

theorem Piled.lay (before : Piled laid w)
    (h : (World.bootstrap p w).answer = .ok number ∧ w.hook.isNone = true ∧
      ∀ d ∈ (World.bootstrap p w).state.classes, d.classSize < sizeLimit) :
    Piled (layUpon number p.classes laid) (World.bootstrap p w).state := by
  obtain ⟨hanswer, hnone, hsizes⟩ := h
  refine .bootstrap before ⟨hanswer, rfl⟩ (fun hook hhook => ?_) hsizes
  rw [Option.isNone_iff_eq_none.1 hnone] at hhook
  cases hhook

theorem Piled.surveyed (h : Piled laid w) : Surveyed laid w := by
  induction h with
  | start t => exact .start t
  | bootstrap _ call hook _ ih => exact ih.bootstrap call hook
  | subclass _ inside call ih => exact ih.subclass inside call
  | aside _ same length_eq slots cells names ih =>
    refine ih.onward same (Nat.le_of_eq length_eq.symm) slots cells names fun c q hle hq => ?_
    exact absurd (lt_of_parent hq) (Nat.not_lt_of_le (length_eq ▸ hle))

/-- What a cell holds is the sum of what the classes beneath ask for, which wraps around when it is
too large to be written down: of the last class that has it, the nearest class above from another
parcel, the nearest one above that from yet another, and so on.  In an object, which is at a multiple
of the alignment, the variables are at one exactly if this sum is one; and all offsets are multiples
when all classes ask for multiples. -/
theorem offsets_add_up (h : Piled laid w) :
    (∀ cell, w.cells cell = ((laid.find? fun e => e.2.cell = some cell).map fun e =>
        bytesBeneath laid e.1 e.2.parent % sizeLimit).getD 0) ∧
      (∀ cell e, (laid.find? fun e => e.2.cell = some cell) = some e →
        ∀ object, objectAlign ∣ object → (objectAlign ∣ object + w.cells cell ↔
          objectAlign ∣ bytesBeneath laid e.1 e.2.parent)) ∧
      ((∀ e ∈ laid, objectAlign ∣ e.2.ivarsSize) → ∀ cell, objectAlign ∣ w.cells cell) := by
  have hs := h.surveyed
  have halign : objectAlign ∣ sizeLimit := by decide
  have hcells : ∀ cell, w.cells cell = ((laid.find? fun e => e.2.cell = some cell).map fun e =>
      bytesBeneath laid e.1 e.2.parent % sizeLimit).getD 0 := by
    intro cell
    rw [hs.cells]
    cases hfind : laid.find? fun e => e.2.cell = some cell with
    | none => rfl
    | some e => exact hs.varsStart_eq (List.mem_of_find?_eq_some hfind)
  refine ⟨hcells, fun cell e hfind object hobject => ?_, fun hsizes cell => ?_⟩
  · rw [Nat.dvd_add_right hobject, hcells, hfind]
    exact Nat.dvd_mod_iff halign
  · rw [hcells]
    cases laid.find? fun e => e.2.cell = some cell with
    | none => exact Nat.dvd_zero _
    | some e => exact (Nat.dvd_mod_iff halign).2 (dvd_bytesBeneath hsizes _ _)

end World

namespace Attic

open World

/-- Boxes, which ask for a single byte. -/
def boxes : ParcelSpec where
  classes := [⟨⟨"Box"⟩, some .obj, "Box", 1, some (.of ⟨"Box"⟩), 0, 0, 0, {}⟩]

/-- Chests and trunks upon boxes. -/
def chests : ParcelSpec where
  classes :=
    [⟨⟨"Chest"⟩, some ⟨"Box"⟩, "Chest", 8, some (.of ⟨"Chest"⟩), 0, 0, 0, {}⟩,
      ⟨⟨"Trunk"⟩, some ⟨"Chest"⟩, "Trunk", 15, some (.of ⟨"Trunk"⟩), 0, 0, 0, {}⟩]

/-- Crates upon trunks. -/
def crates : ParcelSpec where
  classes := [⟨⟨"Crate"⟩, some ⟨"Trunk"⟩, "Crate", 8, some (.of ⟨"Crate"⟩), 0, 0, 0, {}⟩]

/-- The specs of the four parcels, the last one first. -/
def pile : List (Nat × ClassSpec) :=
  layUpon 4 crates.classes <| layUpon 3 chests.classes <| layUpon 2 boxes.classes <|
    layUpon 1 Core.parcel.classes []

/-- The world with the core classes and boxes. -/
def boxed : World := (bootstrap boxes (bootstrap Core.parcel {}).state).state

/-- The world with chests and trunks as well. -/
def stuffed : World := (bootstrap chests boxed).state

/-- The world with all of them. -/
def crammed : World := (bootstrap crates stuffed).state

theorem piled_stuffed :
    Piled (layUpon 3 chests.classes <| layUpon 2 boxes.classes <| layUpon 1 Core.parcel.classes [])
      stuffed := by
  have hcore : Piled (layUpon 1 Core.parcel.classes []) (bootstrap Core.parcel {}).state :=
    (Piled.start {}).lay (by decide +kernel)
  have hboxed : Piled (layUpon 2 boxes.classes <| layUpon 1 Core.parcel.classes []) boxed :=
    hcore.lay (by decide +kernel)
  exact hboxed.lay (by decide +kernel)

/-- The variables of a chest begin behind the single byte of the box, so they are not at a multiple
in any object that is. -/
theorem chest_askew :
    Piled (layUpon 3 chests.classes <| layUpon 2 boxes.classes <| layUpon 1 Core.parcel.classes [])
        stuffed ∧
      stuffed.cells (.of ⟨"Chest"⟩) = 25 ∧
      ∀ object, objectAlign ∣ object → ¬ objectAlign ∣ object + stuffed.cells (.of ⟨"Chest"⟩) := by
  have hcell : stuffed.cells (.of ⟨"Chest"⟩) = 25 := by decide +kernel
  refine ⟨piled_stuffed, hcell, fun object hobject => ?_⟩
  rw [hcell, Nat.dvd_add_right hobject]
  decide

/-- What a box and a trunk ask for adds up, so the variables of a crate are at a multiple again. -/
theorem crate_upright :
    (beneath pile 4 (some ⟨"Trunk"⟩)).map ClassSpec.width = [15, 1, 24] ∧
      crammed.cells (.of ⟨"Crate"⟩) = 40 ∧
      objectAlign ∣ 64 + crammed.cells (.of ⟨"Crate"⟩) := by
  have hpiled : Piled pile crammed := piled_stuffed.lay (by decide +kernel)
  obtain ⟨hcells, hplace, -⟩ := offsets_add_up hpiled
  have hfind : (pile.find? fun e => e.2.cell = some (.of ⟨"Crate"⟩)) =
      some (4, ⟨⟨"Crate"⟩, some ⟨"Trunk"⟩, "Crate", 8, some (.of ⟨"Crate"⟩), 0, 0, 0, {}⟩) := by
    decide
  have hwidths : (beneath pile 4 (some ⟨"Trunk"⟩)).map ClassSpec.width = [15, 1, 24] := by decide
  refine ⟨hwidths, ?_, (hplace _ _ hfind 64 (by decide)).2 ?_⟩
  · rw [hcells, hfind]
    exact congrArg (fun widths => List.sum widths % sizeLimit) hwidths
  · unfold bytesBeneath
    rw [hwidths]
    decide

end Attic

end ObjectSystem
