import ObjectSystem.Proofs.Class.Apart
import ObjectSystem.Proofs.Class.Chains

/-! # Where variables are

The second pass of a bootstrap measures out the classes of a parcel, parents before children.  Each
takes the bytes that it asks for behind where the variables of the parcel begin
(`bootstrap_measures`), and so it makes room for those above it by asking for no fewer
(`ParcelSpec.Widens`).  The class of classes is the one whose size is not what it asks for, so those
around it have to fit it (`ParcelSpec.FitsClass`).

Parcels of this kind, with room for what they ask for (`HasRoom`), are laid one upon the other
(`Laid.bootstrap`), and their variables are apart (`variables_apart`). -/

namespace ObjectSystem

namespace World

variable {w w' : World} {c n : Nat}

/-! ### What a bootstrap measures out -/

section Bootstrap

variable {u : Unit} {s : ClassSpec} {specs : List ClassSpec} {novel : List NovelSpec}
  {overridden : List OverriddenSpec} {inherited : List InheritedSpec} {parcel : Nat}
  {cell : IvarsCell}

/-- Of some specs the last one that has a cell. -/
def naming (cell : IvarsCell) (specs : List ClassSpec) : Option ClassSpec :=
  specs.reverse.find? fun s => s.cell = some cell

theorem naming_append (l l' : List ClassSpec) :
    naming cell (l ++ l') = (naming cell l').or (naming cell l) := by
  unfold naming
  rw [List.reverse_append, List.find?_append]

theorem mem_of_naming (h : naming cell specs = some s) : s ∈ specs :=
  List.mem_reverse.1 (List.mem_of_find?_eq_some h)

/-- The class of a spec has the number of its parcel, and the bytes that it asked for behind where
its variables begin, as far as they can be written down; the class of classes has as many as there
are in a descriptor. -/
structure Measured (w : World) (s : ClassSpec) (c number : Nat) : Prop where
  parcel : (w.get c).parcel = number
  parent : (w.get c).parent = s.parent.bind w.slots
  objSize : (w.get c).objSize =
    if s.slot = .cls then vtableOffset else (w.varsStart s number + s.ivarsSize) % sizeLimit

/-- What is read of a world is no matter of its classes and what leads to them. -/
structure Remote {β : Type} (f : World → β) : Prop where
  classes : ∀ w classes, f { w with classes := classes } = f w
  slots : ∀ w slots, f { w with slots := slots } = f w
  offsets : ∀ w offsets, f { w with offsets := offsets } = f w
  hookCalls : ∀ w calls, f { w with hookCalls := calls } = f w
  registry : ∀ w registry, f { w with registry := registry } = f w

theorem remote_cells : Remote (·.cells) :=
  ⟨fun _ _ => rfl, fun _ _ => rfl, fun _ _ => rfl, fun _ _ => rfl, fun _ _ => rfl⟩

theorem remote_parcels : Remote (·.parcels) :=
  ⟨fun _ _ => rfl, fun _ _ => rfl, fun _ _ => rfl, fun _ _ => rfl, fun _ _ => rfl⟩

namespace Remote

variable {β : Type} {f : World → β}

theorem frame (hf : Remote f) (x : β) :
    Frame (fun _ => True) (fun _ => True) (fun _ => True) fun w => f w = x where
  building _ := trivial
  slot _ _ := trivial
  change _ _ _ h := (hf.classes _ _).trans h
  offsets _ h := (hf.offsets _ _).trans h
  hookCalls _ h := (hf.hookCalls _ _).trans h
  hook _ _ := ⟨fun _ => trivial, fun _ _ _ => .inr trivial⟩

theorem publishAll (hf : Remote f) (h : (publishAll specs).Gives w u w') : f w' = f w := by
  have hkeeps := publishAll_keeps (F := fun _ => True) (I := fun v => f v = f w) (fun _ => trivial)
    specs fun {v} _ _ _ hv =>
      ((hf.slots { v with classes := _ } _).trans (hf.classes v _)).trans hv
  exact h.2 ▸ (hkeeps w rfl).1

theorem finishAll (hf : Remote f) (h : (finishAll parcel specs novel).Gives w u w') :
    f w' = f w := by
  have hregister : ∀ {v : World} {c}, True → f v = f w → f (register c v).state = f w := by
    intro v c _ hv
    unfold register
    rw [bindName_apply]
    exact (hf.registry _ _).trans hv
  exact h.2 ▸ ((hf.frame (f w)).finishAll_keeps hregister (fun _ _ _ _ _ _ => trivial) parcel novel
    w rfl).1

end Remote

theorem complete_cells (h : (complete parcel s novel overridden inherited).Gives w u w')
    (hc : w.slots s.slot = some c) : w'.cells = w.cellsWith s (w.varsStart s parcel) := by
  obtain ⟨w₁, w₂, w₃, w₄, w₅, hw₁, h₂, hw₃, h₄, h₅, h₆⟩ := complete_steps h hc
  have hframe := remote_cells.frame (w.cellsWith s (w.varsStart s parcel))
  have hcells₁ : w₁.cells = w.cellsWith s (w.varsStart s parcel) := by rw [hw₁]
  have hcells₂ := h₂.2 ▸ (hframe.callHook_keeps trivial _ hcells₁).1
  have hcells₃ : w₃.cells = w.cellsWith s (w.varsStart s parcel) := by
    rw [hw₃]
    exact hcells₂
  have hcells₄ := h₄.2 ▸ (hframe.inheritAll_keeps inherited _ hcells₃).1
  have hcells₅ := h₅.2 ▸ (hframe.overrideAll_keeps trivial overridden _ hcells₄).1
  exact h₆.2 ▸ (hframe.introduceAll_keeps trivial _ novel _ hcells₅).1

theorem Matches.varsStart_eq (h : Matches n w w') (hfirst : ParentsFirst w n)
    (hn : n ≤ w.classes.length) (hn' : n ≤ w'.classes.length) (hslots : w'.slots = w.slots)
    (hparent : ∀ p : Nat, s.parent.bind w.slots = some p → p < n) :
    w'.varsStart s parcel = w.varsStart s parcel := by
  unfold varsStart
  rw [hslots]
  exact h.ivarsOffset_eq hfirst hn hn' hparent parcel

/-- The second pass measures out the classes one after the other. -/
theorem completeAll_measures
    (h : (completeAll parcel specs novel overridden inherited).Gives w u w')
    (hslots : ∀ (k : Nat) s, specs[k]? = some s → w.slots s.slot = some (n + k))
    (habove : ∀ (k : Nat) s, specs[k]? = some s →
      ∀ p : Nat, s.parent.bind w.slots = some p → p < n + k)
    (hlength : n + specs.length ≤ w.classes.length) (hfirst : ParentsFirst w n)
    (hhook : ∀ hook, w.hook = some hook → hook.OnlyFills) :
    (∀ (k : Nat) s, specs[k]? = some s → Measured w' s (n + k) parcel) ∧
      (∀ cell, w'.cells cell =
        ((naming cell specs).map (w'.varsStart · parcel)).getD (w.cells cell)) ∧
      ParentsFirst w' (n + specs.length) := by
  induction specs generalizing w n novel overridden inherited with
  | nil =>
    obtain ⟨-, rfl⟩ := (Step.gives_pure _ _ _ _).1 h
    exact ⟨fun k s hk => by simp at hk, fun _ => rfl, hfirst⟩
  | cons s rest ih =>
    obtain ⟨_, w₁, h₁, hrest⟩ := (Step.gives_bind _ _ _ _ _).1 h
    rw [List.length_cons] at hlength
    have hslot : w.slots s.slot = some n := hslots 0 s rfl
    have hparent : ∀ p : Nat, s.parent.bind w.slots = some p → p < n := habove 0 s rfl
    obtain ⟨hbeside, vtable, hself⟩ := complete_self h₁ hslot (by omega) hhook
    have hcells₁ := complete_cells h₁ hslot
    have hshift : ∀ k : Nat, n + 1 + k = n + (k + 1) := fun k => by omega
    have hslots₁ : ∀ (k : Nat) r, rest[k]? = some r → w₁.slots r.slot = some (n + 1 + k) := by
      intro k r hk
      rw [hbeside.slots, hslots (k + 1) r hk, hshift]
    have hlength₁ : n + 1 + rest.length ≤ w₁.classes.length := by
      rw [hbeside.length]
      omega
    have hfirst₁ : ParentsFirst w₁ (n + 1) := by
      intro c p hc hp
      by_cases hcn : c = n
      · rw [hcn, hself] at hp
        exact hcn ▸ hparent p hp
      · rw [hbeside.get c hcn] at hp
        exact hfirst c p (by omega) hp
    obtain ⟨hmeasured', hcells', hfirst'⟩ := ih hrest hslots₁
      (fun k r hk p hp => by
        rw [hbeside.slots] at hp
        rw [hshift]
        exact habove (k + 1) r hk p hp)
      hlength₁ hfirst₁ (hbeside.hook ▸ hhook)
    obtain ⟨-, hget', hlength', hslots', -⟩ :=
      completeAll_settles hrest hslots₁ hlength₁ (hbeside.hook ▸ hhook)
    have hslots'' : w'.slots = w.slots := hslots'.trans hbeside.slots
    have hmatch : Matches n w w' := .of_get fun d hd => by
      rw [hget' d (by omega), hbeside.get d (Nat.ne_of_lt hd)]
    have hstart : w'.varsStart s parcel = w.varsStart s parcel :=
      hmatch.varsStart_eq hfirst (by omega) (by rw [hlength', hbeside.length]; omega) hslots''
        hparent
    refine ⟨fun k r hk => ?_, fun cell => ?_, ?_⟩
    · cases k with
      | zero =>
        obtain rfl : s = r := Option.some.inj hk
        have hself' := (hget' n (Nat.lt_succ_self n)).trans hself
        rw [Nat.add_zero]
        exact ⟨by rw [hself']; rfl, by rw [hself', hslots'']; rfl, by rw [hself', hstart]; rfl⟩
      | succ k => exact hshift k ▸ hmeasured' k r hk
    · rw [hcells', hcells₁, ← List.singleton_append, naming_append]
      cases hnaming : naming cell rest with
      | some r => rfl
      | none =>
        unfold cellsWith naming
        rw [List.reverse_singleton, List.find?_singleton]
        cases hcell : s.cell with
        | none => simp
        | some own =>
          by_cases hown : own = cell
          · simp [hown, hstart]
          · simp [hown, Ne.symm hown]
    · rw [List.length_cons, ← hshift]
      exact hfirst'

theorem bootstrap_parcels {p : ParcelSpec} {number : Nat} (h : (bootstrap p).Gives w number w') :
    w'.parcels = w.parcels + 1 := by
  obtain ⟨-, w₁, w₂, h₁, h₂, h₃⟩ := bootstrap_steps h
  have hparcels₂ := h₂.2 ▸ ((remote_parcels.frame w₁.parcels).completeAll_keeps (fun _ hv => hv)
    (fun _ _ _ _ _ _ => trivial) number p.novel p.overridden p.inherited w₁ rfl).1
  exact (remote_parcels.finishAll h₃).trans (hparcels₂.trans (remote_parcels.publishAll h₁))

/-- The classes of a parcel are measured out, and of each cell the last class that has it counts. -/
theorem bootstrap_measures {p : ParcelSpec} {number : Nat} (hs : SlotsInside w)
    (hfirst : ParentsFirst w w.classes.length) (h : (bootstrap p).Gives w number w')
    (hhook : ∀ hook, w.hook = some hook → hook.OnlyFills) :
    (∀ (k : Nat) s, p.classes[k]? = some s → Measured w' s (w.classes.length + k) number) ∧
      (∀ cell, w'.cells cell =
        ((naming cell p.classes).map (w'.varsStart · number)).getD (w.cells cell)) ∧
      ParentsFirst w' w'.classes.length := by
  obtain ⟨-, w₁, w₂, h₁, h₂, h₃⟩ := bootstrap_steps h
  obtain ⟨hext, hinside₁, -, hpub⟩ := publishAll_gives h₁ hs
  have hlength₁ : w₁.classes.length = w.classes.length + p.classes.length := hpub.length_eq
  have hfirst₁ : ParentsFirst w₁ w.classes.length :=
    (Matches.of_get hext.get).parentsFirst hfirst
  have hslots₁ : ∀ (k : Nat) s, p.classes[k]? = some s →
      w₁.slots s.slot = some (w.classes.length + k) := fun k s hk => (hpub.blank_at hk).1
  have habove₁ : ∀ (k : Nat) s, p.classes[k]? = some s →
      ∀ q : Nat, s.parent.bind w₁.slots = some q → q < w.classes.length + k := by
    intro k s hk q hq
    obtain ⟨t, ht, hslot⟩ := Option.bind_eq_some_iff.1 hq
    obtain ⟨d, hd, hlt⟩ := (hpub.blank_at hk).2.1 t ht
    exact Option.some.inj (hslot.symm.trans hd) ▸ hlt
  obtain ⟨hmeasured₂, hcells₂, hfirst₂⟩ := completeAll_measures h₂ hslots₁ habove₁
    (Nat.le_of_eq hlength₁.symm) hfirst₁ (hext.hook ▸ hhook)
  obtain ⟨-, -, hlength₂, hslots₂, -⟩ := completeAll_settles h₂ hslots₁
    (Nat.le_of_eq hlength₁.symm) (hext.hook ▸ hhook)
  rw [← hlength₁, ← hlength₂] at hfirst₂
  obtain ⟨-, -, hlength₃, hslots₃, -, hfields⟩ := finishAll_shape h₃
    (fun k s hk => hslots₂ ▸ hslots₁ k s hk) (Nat.le_of_eq (hlength₁.symm.trans hlength₂.symm))
  have hmatch : Matches w₂.classes.length w₂ w' := by
    refine ⟨fun c _ => ?_, fun c _ => ?_, fun c _ => ?_⟩ <;>
    · obtain ⟨_, _, hself⟩ := hfields c
      rw [hself]
  have hcells₁ : w₁.cells = w.cells := (remote_cells.publishAll h₁ :)
  have hcells₃ : w'.cells = w₂.cells := remote_cells.finishAll h₃
  have hstart : ∀ s ∈ p.classes, w'.varsStart s number = w₂.varsStart s number := by
    intro s hs
    obtain ⟨k, hk⟩ := List.mem_iff_getElem?.1 hs
    refine hmatch.varsStart_eq hfirst₂ (Nat.le_refl _) (Nat.le_of_eq hlength₃.symm) hslots₃
      fun q hq => ?_
    rw [hslots₂] at hq
    have hlt := habove₁ k s hk q hq
    have hk' := (List.getElem?_eq_some_iff.1 hk).1
    omega
  refine ⟨fun k s hk => ?_, fun cell => ?_, ?_⟩
  · obtain ⟨hparcel, hparent, hsize⟩ := hmeasured₂ k s hk
    have hk' := (List.getElem?_eq_some_iff.1 hk).1
    have hlt : w.classes.length + k < w₂.classes.length := by omega
    refine ⟨(hmatch.parcel _ hlt).trans hparcel, ?_, ?_⟩
    · rw [hmatch.parent _ hlt, hparent, hslots₃]
    · rw [hmatch.objSize _ hlt, hsize, hstart s (List.mem_of_getElem? hk)]
  · rw [hcells₃, hcells₂, hcells₁]
    cases hnaming : naming cell p.classes with
    | none => rfl
    | some s => exact (hstart s (mem_of_naming hnaming)).symm
  · rw [hlength₃]
    exact hmatch.parentsFirst hfirst₂

end Bootstrap

end World

/-! ### Parcels one after the other -/

/-- A class asks for no fewer bytes than its parent if that is of the same parcel; the class of
classes is excepted. -/
def ParcelSpec.Widens (p : ParcelSpec) : Prop :=
  ∀ s ∈ p.classes, s.slot ≠ .cls → ∀ r ∈ p.classes, s.parent = some r.slot →
    r.ivarsSize ≤ s.ivarsSize

instance (p : ParcelSpec) : Decidable p.Widens :=
  inferInstanceAs (Decidable (∀ s ∈ p.classes, s.slot ≠ .cls → ∀ r ∈ p.classes,
    s.parent = some r.slot → r.ivarsSize ≤ s.ivarsSize))

/-- The class of classes takes as many bytes as a descriptor, whatever it asks for.  Its parent
takes no more, and the classes of its parcel that are directly below it take no fewer. -/
structure ParcelSpec.FitsClass (p : ParcelSpec) (w : World) : Prop where
  above : ∀ s ∈ p.classes, s.slot = .cls → ∀ a ∈ s.parent.bind w.slots,
    (w.get a).objSize ≤ vtableOffset
  below : (∃ r ∈ p.classes, r.slot = .cls) → ∀ s ∈ p.classes, s.parent = some .cls →
    ∀ c ∈ w.slots s.slot, vtableOffset ≤ (w.get c).objSize

instance (p : ParcelSpec) (w : World) : Decidable (p.FitsClass w) :=
  decidable_of_iff
    ((∀ s ∈ p.classes, s.slot = .cls → ∀ a ∈ s.parent.bind w.slots,
        (w.get a).objSize ≤ vtableOffset) ∧
      ((∃ r ∈ p.classes, r.slot = .cls) → ∀ s ∈ p.classes, s.parent = some .cls →
        ∀ c ∈ w.slots s.slot, vtableOffset ≤ (w.get c).objSize))
    ⟨fun h => ⟨h.1, h.2⟩, fun h => ⟨h.above, h.below⟩⟩

namespace World

variable {w w' : World} {history : List (Nat × ParcelSpec)} {p : ParcelSpec} {number parent : Nat}
  {s : ClassSpec} {fresh : List String} {name : String}

/-- Sizes can be written down: what the classes of a parcel ask for fits behind where their
variables begin, and all descriptors fit. -/
structure HasRoom (w : World) (p : ParcelSpec) (number : Nat) : Prop where
  instances : ∀ s ∈ p.classes, s.slot ≠ .cls → w.varsStart s number + s.ivarsSize < sizeLimit
  descriptors : ∀ d ∈ w.classes, d.classSize < sizeLimit

instance (w : World) (p : ParcelSpec) (number : Nat) : Decidable (w.HasRoom p number) :=
  decidable_of_iff
    ((∀ s ∈ p.classes, s.slot ≠ .cls → w.varsStart s number + s.ivarsSize < sizeLimit) ∧
      ∀ d ∈ w.classes, d.classSize < sizeLimit)
    ⟨fun h => ⟨h.1, h.2⟩, fun h => ⟨h.instances, h.descriptors⟩⟩

theorem Measured.objSize_eq {c : Nat} (h : Measured w s c number) (hroom : w.HasRoom p number)
    (hs : s ∈ p.classes) (hcls : s.slot ≠ .cls) :
    (w.get c).objSize = w.varsStart s number + s.ivarsSize := by
  rw [h.objSize, if_neg hcls, Nat.mod_eq_of_lt (hroom.instances s hs hcls)]

/-- The specs of parcels, in the order in which their classes were made. -/
def specsOf (history : List (Nat × ParcelSpec)) : List ClassSpec := history.flatMap (·.2.classes)

/-- What is known of a world with some parcels, each with its number: it is layered, the classes of
the parcels have their numbers, and a cell holds where the last class that has it begins. -/
structure Laid (history : List (Nat × ParcelSpec)) (w : World) : Prop extends Layered w where
  slotsInside : SlotsInside w
  namesInside : NamesInside w
  parcel_le_parcels : ∀ c : Nat, (w.get c).parcel ≤ w.parcels
  ordered : (history.map Prod.fst).Pairwise (· < ·)
  numbered : ∀ n ∈ history.map Prod.fst, n ≤ w.parcels
  seated : ∀ e ∈ history, ∀ s ∈ e.2.classes,
    ∃ c, w.slots s.slot = some c ∧ (w.get c).parcel = e.1
  cells : ∀ cell s c, naming cell (specsOf history) = some s → w.slots s.slot = some c →
    w.cells cell = w.varsBegin c

theorem Laid.start (t : HostTable) : Laid [] { host := t } where
  first c _ hc := absurd hc (Nat.not_lt_zero c)
  parcel_le c p hp := absurd (lt_of_parent hp) (Nat.not_lt_zero c)
  objSize_le c p hp := absurd (lt_of_parent hp) (Nat.not_lt_zero c)
  slotsInside := nofun
  namesInside := nofun
  parcel_le_parcels c := by
    rw [get_of_length_le (Nat.zero_le c)]
    exact Nat.le_refl 0
  ordered := .nil
  numbered := nofun
  seated := nofun
  cells _ _ _ := nofun

/-- A class of a parcel that widens takes no fewer bytes than its parent, wherever that is from. -/
theorem Populated.objSize_le (hp : Populated p w w')
    (hmeasured : ∀ (k : Nat) s, p.classes[k]? = some s →
      Measured w' s (w.classes.length + k) number)
    (hfirst : ParentsFirst w' w'.classes.length) (hinside : SlotsInside w)
    (hold : ∀ c : Nat, (w.get c).parcel < number) (hwidens : p.Widens) (hfits : p.FitsClass w')
    (hroom : w'.HasRoom p number) {k : Nat} (hk : p.classes[k]? = some s) {q : Nat}
    (hq : (w'.get (w.classes.length + k)).parent = some q) :
    (w'.get q).objSize ≤ (w'.get (w.classes.length + k)).objSize := by
  have hmem := List.mem_of_getElem? hk
  have hqlt := hfirst _ q (lt_of_parent hq) hq
  have hqin := Nat.lt_trans hqlt (lt_of_parent hq)
  have hself := hmeasured k s hk
  rw [hself.parent] at hq
  obtain ⟨t, ht, hslot⟩ := Option.bind_eq_some_iff.1 hq
  by_cases hcls : s.slot = .cls
  · rw [hself.objSize, if_pos hcls]
    exact hfits.above s hmem hcls q hq
  have hstart : w'.varsStart s number =
      if (w'.get q).parcel = number then w'.ivarsOffset (w'.get q).parent number
      else (w'.get q).objSize := by
    unfold varsStart
    rw [hq, hfirst.ivarsOffset_some (Nat.le_refl _) hqin]
  have hsize := hself.objSize_eq hroom hmem hcls
  rcases Ledger.fillSlots_cases (hp.slots_eq ▸ hslot) with hslot | ⟨j, r, hj, hrt, rfl⟩
  · -- the parent is from another parcel, and its instances are where the variables begin
    have hother : (w'.get q).parcel ≠ number := by
      rw [hp.old q (hinside t q hslot)]
      exact Nat.ne_of_lt (hold q)
    rw [hsize, hstart, if_neg hother]
    exact Nat.le_add_right _ _
  · have hother := hmeasured j r hj
    have hmem' := List.mem_of_getElem? hj
    by_cases hcls' : r.slot = .cls
    · rw [hother.objSize, if_pos hcls']
      exact hfits.below ⟨r, hmem', hcls'⟩ s hmem (by rw [ht, ← hrt, hcls']) _ (hp.born k s hk).slot
    · -- both begin at the same place
      rw [hother.objSize_eq hroom hmem' hcls', hsize, hstart, if_pos hother.parcel, hother.parent]
      exact Nat.add_le_add_left (hwidens s hmem hcls r hmem' (hrt.symm ▸ ht)) _

/-- Another parcel is laid upon those that there are. -/
theorem Laid.bootstrap (hl : Laid history w) (h : (World.bootstrap p).Gives w number w')
    (hhook : ∀ hook, w.hook = some hook → hook.OnlyFills) (hwidens : p.Widens)
    (hfits : p.FitsClass w') (hroom : w'.HasRoom p number) :
    Laid (history ++ [(number, p)]) w' := by
  have hnumber : number = w.parcels + 1 := (bootstrap_steps h).1
  have hparcels : w'.parcels = number := (bootstrap_parcels h).trans hnumber.symm
  obtain ⟨hmeasured, hcells, hfirst⟩ := bootstrap_measures hl.slotsInside hl.first h hhook
  have hp := bootstrap_populates hl.slotsInside h hhook
  have hold : ∀ c : Nat, (w.get c).parcel < number := fun c =>
    hnumber ▸ Nat.lt_succ_of_le (hl.parcel_le_parcels c)
  have hnew : ∀ c : Nat, w.classes.length ≤ c → c < w'.classes.length →
      ∃ k s, p.classes[k]? = some s ∧ c = w.classes.length + k := by
    intro c hle hlt
    rw [hp.length_eq] at hlt
    obtain ⟨k, rfl⟩ := Nat.exists_eq_add_of_le hle
    exact ⟨k, _, List.getElem?_eq_getElem (Nat.lt_of_add_lt_add_left hlt), rfl⟩
  have hparcel_le : ∀ c : Nat, (w'.get c).parcel ≤ number := by
    intro c
    by_cases hc : c < w.classes.length
    · rw [hp.old c hc]
      exact Nat.le_of_lt (hold c)
    · by_cases hlt : c < w'.classes.length
      · obtain ⟨k, s, hk, rfl⟩ := hnew c (Nat.le_of_not_lt hc) hlt
        exact Nat.le_of_eq (hmeasured k s hk).parcel
      · rw [get_of_length_le (Nat.le_of_not_lt hlt)]
        exact Nat.zero_le _
  have hslot : ∀ s ∈ p.classes, ∃ k, p.classes[k]? = some s ∧
      w'.slots s.slot = some (w.classes.length + k) := by
    intro s hs
    obtain ⟨k, hk⟩ := List.mem_iff_getElem?.1 hs
    exact ⟨k, hk, (hp.born k s hk).slot⟩
  refine ⟨⟨hfirst, fun c q hq => ?_, fun c q hq => ?_⟩, hp.slotsInside,
    hp.namesInside hl.namesInside, fun c => hparcels ▸ hparcel_le c, ?_, fun n hn => ?_,
    fun e he s hs => ?_, fun cell s c hnaming hs => ?_⟩
  · by_cases hc : c < w.classes.length
    · rw [hp.old c hc] at hq ⊢
      rw [hp.old q (Nat.lt_trans (hl.first c q hc hq) hc)]
      exact hl.parcel_le c q hq
    · obtain ⟨k, s, hk, rfl⟩ := hnew c (Nat.le_of_not_lt hc) (lt_of_parent hq)
      exact (hmeasured k s hk).parcel ▸ hparcel_le q
  · by_cases hc : c < w.classes.length
    · rw [hp.old c hc] at hq ⊢
      rw [hp.old q (Nat.lt_trans (hl.first c q hc hq) hc)]
      exact hl.objSize_le c q hq
    · obtain ⟨k, s, hk, rfl⟩ := hnew c (Nat.le_of_not_lt hc) (lt_of_parent hq)
      exact hp.objSize_le hmeasured hfirst hl.slotsInside hold hwidens hfits hroom hk hq
  · rw [List.map_append, List.pairwise_append]
    refine ⟨hl.ordered, List.pairwise_singleton _ _, fun m hm n hn => ?_⟩
    rw [List.mem_singleton.1 hn]
    exact hnumber ▸ Nat.lt_succ_of_le (hl.numbered m hm)
  · rw [List.map_append, List.mem_append] at hn
    rcases hn with hn | hn
    · have := hl.numbered n hn
      omega
    · rw [List.mem_singleton.1 hn]
      exact Nat.le_of_eq hparcels.symm
  · rcases List.mem_append.1 he with he | he
    · obtain ⟨c, hc, hparcel⟩ := hl.seated e he s hs
      exact ⟨c, hp.slots _ c hc, (hp.old c (hl.slotsInside _ c hc)).symm ▸ hparcel⟩
    · obtain rfl := List.mem_singleton.1 he
      obtain ⟨k, hk, hc⟩ := hslot s hs
      exact ⟨_, hc, (hmeasured k s hk).parcel⟩
  · unfold specsOf at hnaming
    rw [List.flatMap_append, naming_append, List.flatMap_singleton] at hnaming
    rw [hcells]
    cases hlast : naming cell p.classes with
    | some r =>
      rw [hlast] at hnaming
      obtain rfl : r = s := Option.some.inj hnaming
      obtain ⟨k, hk, hc⟩ := hslot r (mem_of_naming hlast)
      obtain rfl : w.classes.length + k = c := Option.some.inj (hc.symm.trans hs)
      obtain ⟨hparcel, hparent, -⟩ := hmeasured k r hk
      rw [hfirst.varsBegin_eq (Nat.le_refl _) (hp.slotsInside _ _ hc), hparcel, hparent]
      rfl
    | none =>
      rw [hlast, Option.none_or] at hnaming
      obtain ⟨e, he, hmem⟩ := List.mem_flatMap.1 (mem_of_naming hnaming)
      obtain ⟨d, hd, -⟩ := hl.seated e he s hmem
      obtain rfl : d = c := Option.some.inj ((hp.slots _ d hd).symm.trans hs)
      have hd' := hl.slotsInside _ d hd
      rw [(Matches.of_get hp.old).varsBegin_eq hl.first (Nat.le_refl _)
        (hp.length_eq ▸ Nat.le_add_right _ _) hd']
      exact hl.cells cell s d hnaming hd

/-- Parents, parcels, sizes, slots and cells stay as they are, and new classes are copies of old
ones. -/
theorem Laid.onward (hl : Laid history w) (hsame : Matches w.classes.length w w')
    (hle : w.classes.length ≤ w'.classes.length) (hslots : w'.slots = w.slots)
    (hcells : w'.cells = w.cells) (hparcels : w'.parcels = w.parcels) (hnames : NamesInside w')
    (hnew : ∀ c : Nat, w.classes.length ≤ c → c < w'.classes.length →
      ∃ p : Nat, p < w.classes.length ∧ (w'.get c).parent = some p ∧
        (w'.get c).parcel = (w.get p).parcel ∧ (w'.get c).objSize = (w.get p).objSize) :
    Laid history w' := by
  have hstep : ∀ c q : Nat, (w'.get c).parent = some q → q < c ∧
      (w'.get q).parcel ≤ (w'.get c).parcel ∧ (w'.get q).objSize ≤ (w'.get c).objSize := by
    intro c q hq
    by_cases hc : c < w.classes.length
    · rw [hsame.parent c hc] at hq
      have hqlt := hl.first c q hc hq
      have hq' := Nat.lt_trans hqlt hc
      rw [hsame.parcel c hc, hsame.parcel q hq', hsame.objSize c hc, hsame.objSize q hq']
      exact ⟨hqlt, hl.parcel_le c q hq, hl.objSize_le c q hq⟩
    · have hc := Nat.le_of_not_lt hc
      obtain ⟨p, hp, hparent, hparcel, hsize⟩ := hnew c hc (lt_of_parent hq)
      obtain rfl : p = q := Option.some.inj (hparent.symm.trans hq)
      rw [hparcel, hsize, hsame.parcel p hp, hsame.objSize p hp]
      exact ⟨Nat.lt_of_lt_of_le hp hc, Nat.le_refl _, Nat.le_refl _⟩
  refine ⟨⟨fun c q _ hq => (hstep c q hq).1, fun c q hq => (hstep c q hq).2.1,
    fun c q hq => (hstep c q hq).2.2⟩, fun t c ht => ?_, hnames, fun c => ?_, hl.ordered,
    hparcels ▸ hl.numbered, fun e he s hs => ?_, fun cell s c hnaming hs => ?_⟩
  · exact Nat.lt_of_lt_of_le (hl.slotsInside t c (hslots ▸ ht)) hle
  · rw [hparcels]
    by_cases hc : c < w.classes.length
    · rw [hsame.parcel c hc]
      exact hl.parcel_le_parcels c
    · by_cases hlt : c < w'.classes.length
      · obtain ⟨p, -, -, hparcel, -⟩ := hnew c (Nat.le_of_not_lt hc) hlt
        exact hparcel ▸ hl.parcel_le_parcels p
      · rw [get_of_length_le (Nat.le_of_not_lt hlt)]
        exact Nat.zero_le _
  · obtain ⟨c, hc, hparcel⟩ := hl.seated e he s hs
    exact ⟨c, hslots ▸ hc, (hsame.parcel c (hl.slotsInside _ c hc)).trans hparcel⟩
  · rw [hslots] at hs
    rw [hcells, hsame.varsBegin_eq hl.first (Nat.le_refl _) hle (hl.slotsInside _ c hs)]
    exact hl.cells cell s c hnaming hs

/-- A subclass made on demand begins where its parent does and takes as many bytes. -/
theorem Laid.subclass (hl : Laid history w) (hparent : parent < w.classes.length)
    (h : (createSubclass (.answering fresh) name parent).Gives w (.ok w.classes.length) w') :
    Laid history w' := by
  obtain ⟨hnames, r, vtable, hw'⟩ := createSubclass_copy hl.namesInside h
  have hget : ∀ c : Nat, w'.get c = if c = w.classes.length then
      { w.subclassOf parent name with vtable := vtable } else w.get c := by
    rw [hw']
    exact get_append w _ w.slots
  have hlength : w'.classes.length = w.classes.length + 1 := by
    rw [hw']
    exact List.length_append
  refine hl.onward (.of_get fun c hc => (hget c).trans (if_neg (Nat.ne_of_lt hc)))
    (hlength ▸ Nat.le_succ _) (by rw [hw']) (by rw [hw']) (by rw [hw']) hnames fun c hle hlt => ?_
  obtain rfl : c = w.classes.length := by omega
  rw [hget, if_pos rfl]
  exact ⟨parent, hparent, rfl, rfl, rfl⟩

/-- The worlds that come about by calls that make classes and complete, from parcels that widen,
fit the class of classes and have room.  Each parcel is listed with its number. -/
inductive Stacked : List (Nat × ParcelSpec) → World → Prop
  | start (t : HostTable) : Stacked [] { host := t }
  /-- A parcel is bootstrapped.  A hook, if there is one, does no more than put functions into
  vtables. -/
  | bootstrap {history : List (Nat × ParcelSpec)} {w w' : World} {p : ParcelSpec} {n : Nat}
    (before : Stacked history w) (call : (World.bootstrap p).Gives w n w')
    (hook : ∀ hook, w.hook = some hook → hook.OnlyFills) (widens : p.Widens)
    (fits : p.FitsClass w') (room : w'.HasRoom p n) : Stacked (history ++ [(n, p)]) w'
  /-- A subclass is made for a host that defines the methods `fresh`. -/
  | subclass {history : List (Nat × ParcelSpec)} {w w' : World} {fresh : List String}
    {name : String} {parent : Nat} (before : Stacked history w)
    (inside : parent < w.classes.length)
    (call : (createSubclass (.answering fresh) name parent).Gives w (.ok w.classes.length) w') :
    Stacked history w'
  /-- Something is done that makes no classes and does not fill slots and cells. -/
  | aside {history : List (Nat × ParcelSpec)} {w w' : World} (before : Stacked history w)
    (same : Matches w.classes.length w w') (length_eq : w'.classes.length = w.classes.length)
    (slots : w'.slots = w.slots) (cells : w'.cells = w.cells) (parcels : w'.parcels = w.parcels)
    (names : NamesInside w') : Stacked history w'

theorem Stacked.lay (before : Stacked history w)
    (h : (World.bootstrap p w).answer = .ok number ∧ w.hook.isNone = true ∧
      p.FitsClass (World.bootstrap p w).state ∧ (World.bootstrap p w).state.HasRoom p number)
    (widens : p.Widens) : Stacked (history ++ [(number, p)]) (World.bootstrap p w).state := by
  obtain ⟨hanswer, hnone, hfits, hroom⟩ := h
  refine .bootstrap before ⟨hanswer, rfl⟩ (fun hook hhook => ?_) widens hfits hroom
  rw [Option.isNone_iff_eq_none.1 hnone] at hhook
  cases hhook

theorem Stacked.laid (h : Stacked history w) : Laid history w := by
  induction h with
  | start t => exact .start t
  | bootstrap _ call hook widens fits room ih => exact ih.bootstrap call hook widens fits room
  | subclass _ inside call ih => exact ih.subclass inside call
  | aside _ same length_eq slots cells parcels names ih =>
    exact ih.onward same (Nat.le_of_eq length_eq.symm) slots cells parcels names fun c hle hlt =>
      absurd (length_eq ▸ hlt) (Nat.not_lt_of_le hle)

/-- The variables of different parcels are apart.  Parcels have different numbers, and their classes
have these.  A cell holds where the last class that has it begins: behind the nearest class above
from another parcel.  From a class upward the numbers of parcels do not grow, and neither do
instances.  The classes of a parcel on a chain begin at the same place, which is behind all classes
above from other parcels. -/
theorem variables_apart (h : Stacked history w) :
    ((history.map Prod.fst).Pairwise (· < ·) ∧ ∀ e ∈ history, ∀ s ∈ e.2.classes,
        ∃ c, w.slots s.slot = some c ∧ (w.get c).parcel = e.1) ∧
      (∀ cell s c, naming cell (specsOf history) = some s → w.slots s.slot = some c →
        w.cells cell = w.varsBegin c) ∧
      (∀ c p : Nat, (w.get c).parent = some p → (w.get p).objSize ≤ (w.get c).objSize) ∧
      ∀ c a : Nat, a ∈ w.ancestors c →
        (w.get a).parcel ≤ (w.get c).parcel ∧ (w.get a).objSize ≤ (w.get c).objSize ∧
        ((w.get a).parcel = (w.get c).parcel → w.varsBegin a = w.varsBegin c) ∧
        ((w.get a).parcel ≠ (w.get c).parcel → (w.get a).objSize ≤ w.varsBegin c) := by
  have hl := h.laid
  refine ⟨⟨hl.ordered, hl.seated⟩, hl.cells, hl.objSize_le, fun c a ha => ?_⟩
  obtain ⟨hparcel, hsize⟩ := hl.of_ancestor ha
  exact ⟨hparcel, hsize, hl.begin_eq ha, hl.begin_le ha⟩

end World

namespace Garden

open World

/-- Plants, and roses below them. -/
def bed : ParcelSpec where
  classes :=
    [⟨⟨"Plant"⟩, some .obj, "Plant", 8, some (.of ⟨"Plant"⟩), 0, 0, 0, {}⟩,
      ⟨⟨"Rose"⟩, some ⟨"Plant"⟩, "Rose", 16, some (.of ⟨"Rose"⟩), 0, 0, 0, {}⟩]

/-- Roses that climb, of another parcel. -/
def fence : ParcelSpec where
  classes := [⟨⟨"Climber"⟩, some ⟨"Rose"⟩, "Climber", 4, some (.of ⟨"Climber"⟩), 0, 0, 0, {}⟩]

/-- The world with the core classes. -/
def soil : World := (bootstrap Core.parcel {}).state

/-- The world with plants and roses. -/
def planted : World := (bootstrap bed soil).state

/-- The world with climbing roses as well. -/
def fenced : World := (bootstrap fence planted).state

/-- The world with ramblers, which are made on demand. -/
def grown : World := (createSubclass (.answering []) "Rambler" 7 fenced).state

theorem stacked_grown : Stacked [(1, Core.parcel), (2, bed), (3, fence)] grown := by
  have hsoil : Stacked [(1, Core.parcel)] soil :=
    (Stacked.start {}).lay (by decide +kernel) (by decide)
  have hplanted : Stacked [(1, Core.parcel), (2, bed)] planted :=
    hsoil.lay (by decide +kernel) (by decide)
  have hfenced : Stacked [(1, Core.parcel), (2, bed), (3, fence)] fenced :=
    hplanted.lay (by decide +kernel) (by decide)
  have hmade : fenced.classes.length = 8 ∧
      (createSubclass (.answering []) "Rambler" 7 fenced).answer = .ok (.ok 8) := by decide +kernel
  exact .subclass hfenced (hmade.1 ▸ by decide) ⟨hmade.1.symm ▸ hmade.2, rfl⟩

/-- What climbing roses add is behind all of a rose, and in every rambler. -/
theorem variables_apart_rambler :
    grown.varsBegin 6 = 24 ∧ grown.varsBegin 7 = 40 ∧ (grown.get 7).objSize = 44 ∧
      grown.cells (.of ⟨"Climber"⟩) = grown.varsBegin 7 ∧
      grown.varsBegin 5 = grown.varsBegin 6 ∧ (grown.get 6).objSize ≤ grown.varsBegin 8 ∧
      (grown.get 7).objSize ≤ (grown.get 8).objSize := by
  obtain ⟨-, hcells, hparents, hchain⟩ := variables_apart stacked_grown
  have hfacts : (grown.varsBegin 6 = 24 ∧ grown.varsBegin 7 = 40 ∧ (grown.get 7).objSize = 44) ∧
      grown.slots ⟨"Climber"⟩ = some 7 ∧ (grown.get 8).parent = some 7 ∧
      (5 ∈ grown.ancestors 6 ∧ (grown.get 5).parcel = (grown.get 6).parcel) ∧
      6 ∈ grown.ancestors 8 ∧ (grown.get 6).parcel ≠ (grown.get 8).parcel := by decide +kernel
  obtain ⟨⟨hbed, hfence, hsize⟩, hslot, hparent, ⟨hplant, hsame⟩, hrose, hother⟩ := hfacts
  refine ⟨hbed, hfence, hsize, ?_, ?_, ?_, hparents 8 7 hparent⟩
  · exact hcells _ ⟨⟨"Climber"⟩, some ⟨"Rose"⟩, "Climber", 4, some (.of ⟨"Climber"⟩), 0, 0, 0, {}⟩ 7
      (by decide) hslot
  · exact (hchain 6 5 hplant).2.2.1 hsame
  · exact (hchain 8 6 hrose).2.2.2 hother

end Garden

namespace Litter

open World

/-- Objects, classes, and a kind of classes that asks for no fewer bytes than classes do. -/
def parcel : ParcelSpec where
  classes :=
    [⟨.obj, none, "Obj", headerSize, none, 0, 0, 0, {}⟩,
      ⟨.cls, some .obj, "Class", 0, none, 0, 0, 0, {}⟩,
      ⟨⟨"Kid"⟩, some .cls, "Kid", headerSize, none, 0, 0, 0, {}⟩]

/-- The world with the parcel. -/
def brood : World := (bootstrap parcel {}).state

/-- Objects that are larger than classes, and classes below them. -/
def tallParcel : ParcelSpec where
  classes :=
    [⟨.obj, none, "Obj", 200, none, 0, 0, 0, {}⟩,
      ⟨.cls, some .obj, "Class", 200, none, 0, 0, 0, {}⟩]

/-- The world with large objects. -/
def herd : World := (bootstrap tallParcel {}).state

/-- The parcels widen, but instances of the kind of classes are smaller than classes, and classes
are smaller than large objects. -/
theorem kid_smaller_than_class :
    ((bootstrap parcel).Gives {} 1 brood ∧ parcel.Widens ∧ (brood.get 2).parent = some 1 ∧
        (brood.get 2).objSize < (brood.get 1).objSize) ∧
      (bootstrap tallParcel).Gives {} 1 herd ∧ tallParcel.Widens ∧ (herd.get 1).parent = some 0 ∧
        (herd.get 1).objSize < (herd.get 0).objSize :=
  ⟨⟨⟨by decide +kernel, rfl⟩, by decide, by decide +kernel⟩, ⟨by decide +kernel, rfl⟩, by decide,
    by decide +kernel⟩

end Litter

end ObjectSystem
