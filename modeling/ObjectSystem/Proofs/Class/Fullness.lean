import ObjectSystem.Proofs.Class.Patching

/-! # Methods tile vtables

A class that is tiled has as many slots as methods were introduced by it and by those above it
(`Tiling.methodsUp_perm`).  That says where the slots are, not what is in them.

A slot that a class has from its parent has the function that is there, or one that overrides it,
and each of the slots behind has the function of the method that it was made for (`Shaped.full`).
A copy of a class has functions put in, and none are taken out (`Descriptor.Full.installAll`).  So
no slot is empty in the worlds that calls lead to (`Tiled.full`), and each slot of each class goes
back to one method of its chain (`methods_tile_vtables`). -/

namespace ObjectSystem

/-! ### One class -/

/-- Every slot of the class has a function in it. -/
def Descriptor.Full (d : Descriptor) : Prop :=
  none ∉ d.vtable

theorem Descriptor.Full.slot {d : Descriptor} {i : Nat} (h : d.Full) (hi : i < d.vtable.length) :
    ∃ code, d.vtable[i]? = some (some code) := by
  rw [List.getElem?_eq_getElem hi]
  cases hslot : d.vtable[i] with
  | none => exact absurd (List.mem_of_getElem hslot) h
  | some code => exact ⟨code, rfl⟩

theorem Descriptor.Full.install {d d' : Descriptor} {code : Code} {offset : Nat} (h : d.Full)
    (hd : d.install code offset = .ok d') : d'.Full := by
  obtain ⟨i, -, -, rfl⟩ := Descriptor.install_eq_ok hd
  intro hnone
  rcases List.mem_or_eq_of_mem_set hnone with hbefore | hput
  · exact h hbefore
  · cases hput

theorem Descriptor.Full.installAll {d d' : Descriptor} {patches : List (Code × Nat)} (h : d.Full)
    (hd : World.installAll d patches = .ok d') : d'.Full := by
  induction patches generalizing d with
  | nil => exact Except.ok.inj hd ▸ h
  | cons patch rest ih =>
    obtain ⟨code, offset⟩ := patch
    unfold World.installAll at hd
    cases hfirst : d.install code offset with
    | error fault =>
      rw [hfirst] at hd
      cases hd
    | ok d₁ =>
      rw [hfirst] at hd
      exact ih (h.install hfirst) hd

namespace World

variable {w w' : World} {c n parent : Nat} {history : List ParcelSpec} {p : ParcelSpec}
  {name : String} {fresh : List String}

/-- The class of a spec has no empty slots if there are none above. -/
theorem Shaped.full {s : ClassSpec} {novel : List NovelSpec} {overridden : List OverriddenSpec}
    (h : Shaped w c s novel overridden) (habove : none ∉ w.slotsAbove (w.get c).parent) :
    (w.get c).Full := by
  intro hnone
  rw [h.vtable, List.mem_append, List.mem_mapIdx, List.mem_map] at hnone
  rcases hnone with ⟨i, hi, hslot⟩ | ⟨m, -, hcode⟩
  · -- nothing overrides the slot, so it is empty above
    rw [Option.or_eq_none_iff] at hslot
    exact habove (hslot.2 ▸ List.getElem_mem hi)
  · cases hcode

/-! ### All classes -/

/-- No class has an empty slot. -/
def Full (w : World) : Prop :=
  ∀ c : Nat, c < w.classes.length → (w.get c).Full

theorem none_notMem_slotsAbove {parent : Option ClassId}
    (h : ∀ q : Nat, parent = some q → (w.get q).Full) : none ∉ w.slotsAbove parent := by
  cases parent with
  | none => exact List.not_mem_nil
  | some q => exact h q rfl

theorem Full.lasts (h : Full w) (hl : Later w w') (hlength : w'.classes.length = w.classes.length) :
    Full w' := by
  intro c hc
  rw [hlength] at hc
  unfold Descriptor.Full
  rw [(hl.lasts c hc).vtable]
  exact h c hc

/-- Another parcel leaves no slot empty. -/
theorem Full.bootstrap (hfull : Full w) (h : Tiling history w)
    (hcall : (World.bootstrap p).Gives w n w') (hhook : ∀ hook, w.hook = some hook → hook.OnlyFills)
    (henough : (p.classes.map (·.numNovel)).sum ≤ p.novel.length)
    (honce : ((history ++ [p]).flatMap ParcelSpec.named).Nodup) : Full w' := by
  obtain ⟨hformed, hlength, hold, -, -, -⟩ := h.forms hcall hhook henough honce
  intro c hc
  induction c using Nat.strongRecOn with
  | ind c ih =>
    by_cases hlt : c < w.classes.length
    · rw [hold c hlt]
      exact hfull c hlt
    · obtain ⟨k, rfl⟩ := Nat.exists_eq_add_of_le (Nat.le_of_not_lt hlt)
      have hk : k < p.classes.length := by omega
      obtain ⟨hshaped, -⟩ := hformed k _ (List.getElem?_eq_getElem hk)
      refine hshaped.full (none_notMem_slotsAbove fun q hq => ?_)
      have hbelow := hshaped.parent_lt hq
      exact ih q hbelow (Nat.lt_trans hbelow hc)

theorem Full.subclass (hfull : Full w) (h : Tiling history w) (hparent : parent < w.classes.length)
    (hmake : (createSubclass (.answering fresh) name parent).Gives w (.ok w.classes.length) w') :
    Full w' := by
  obtain hsame | ⟨candidate, hcand, hmade, -⟩ := h.subclass_cases hparent hmake
  · exact hfull.lasts hsame.toLater hsame.length_eq
  · have hcopy : (w.subclassOf parent name).Full := hfull parent hparent
    intro c hc
    rw [hmade.get_eq]
    split
    · exact hcopy.installAll hcand
    · next hold =>
      rw [hmade.length_eq] at hc
      exact hfull c (by omega)

theorem Tiled.full (h : Tiled history w) : Full w := by
  induction h with
  | start t => exact fun c hc => absurd hc (Nat.not_lt_zero c)
  | bootstrap before call hook enough once ih =>
    exact ih.bootstrap before.tiling call hook enough once
  | subclass before inside call ih => exact ih.subclass before.tiling inside call
  | aside _ same ih => exact ih.lasts same.toLater same.length_eq

/-! ### Every class -/

/-- The methods of a class and of those above it tile its vtable: their offsets are those of its
slots, each once.  So every slot was introduced by one method, and it is not empty. -/
structure MethodsTile (w : World) (c : ClassId) : Prop where
  offsets : ((w.methodsUp c).map (·.offset)).Perm
    ((List.range (w.get c).vtable.length).map fun i => vtableOffset + slotSize * i)
  once : ((w.methodsUp c).map (·.offset)).Nodup
  filled : ∀ i : Nat, i < (w.get c).vtable.length →
    ∃ code, (w.get c).vtable[i]? = some (some code)
  introduced : ∀ i : Nat, i < (w.get c).vtable.length → ∃ a ∈ w.ancestors c, ∃ j m,
    w.methodAt (a, j) = some m ∧ m.offset = vtableOffset + slotSize * i ∧
      ∀ a' ∈ w.ancestors c, ∀ j' m', w.methodAt (a', j') = some m' →
        m'.offset = vtableOffset + slotSize * i → a' = a ∧ j' = j

theorem Tiled.methodsTile (h : Tiled history w) (hc : c < w.classes.length) : w.MethodsTile c where
  offsets := h.tiling.methodsUp_perm hc
  once := (h.tiling.methodsUp_perm hc).nodup_iff.2
    (List.nodup_range.map fun _ _ => slotOffset_inj.1)
  filled _ hi := (h.full c hc).slot hi
  introduced _ hi := h.tiling.introduced hc hi

/-- In a world that came about by parcels that were bootstrapped, and by subclasses that were made,
the methods of every class tile its vtable.  Whatever a host, which does no more than what leads to
such worlds, is asked for leads to such a world. -/
theorem methods_tile_vtables {k : Nat} {host : Host} (hhost : Tiled.kind.Hosts k host)
    (hw : Tiled history w) (hk : k ≤ w.classes.length) :
    (∀ c : Nat, c < w.classes.length → w.MethodsTile c) ∧
    (∀ p n w', (World.bootstrap p).Gives w n w' →
      (∀ hook, w.hook = some hook → hook.OnlyFills) →
      (p.classes.map (·.numNovel)).sum ≤ p.novel.length →
      ((history ++ [p]).flatMap ParcelSpec.named).Nodup →
        Tiled (history ++ [p]) w' ∧ ∀ c : Nat, c < w'.classes.length → w'.MethodsTile c) ∧
    ∀ n name given r w', (∀ q : Nat, given = some q → q < w.classes.length) →
      (singletonWith host n name given).Gives w r w' →
        (∃ more, Tiled (history ++ more) w') ∧
          ∀ c : Nat, c < w'.classes.length → w'.MethodsTile c := by
  refine ⟨fun c hc => hw.methodsTile hc, fun p n w' hcall hhook henough honce => ?_,
    fun n name given r w' hgiven hcall => ?_⟩
  · have hw' := hw.bootstrap hcall hhook henough honce
    exact ⟨hw', fun c hc => hw'.methodsTile hc⟩
  · obtain ⟨-, ⟨more, hw'⟩, -⟩ := Kind.singletonWith hhost hk hw hgiven hcall
    exact ⟨⟨more, hw'⟩, fun c hc => hw'.methodsTile hc⟩

end World

namespace Pasture

open World

/-- Heifers introduce no methods, and those of cows and animals tile their vtable. -/
theorem methods_tile_vtables_summer :
    Tiled.kind.Hosts 2 .table ∧ Tiled [animalParcel, cowParcel] meadow ∧
      (∃ history, Tiled history summer) ∧ summer.classes.length = 3 ∧ summer.MethodsTile 2 ∧
      (summer.get 2).methods = [] ∧
      (summer.methodsUp 2).map (·.offset) = [120, 128, 136, 104, 112] ∧
      (summer.get 2).vtable = [some (.custom (.tag 0)), some (.custom (.tag 9)),
        some (.custom (.tag 4)), some (.custom (.tag 7)), some (.custom (.tag 8))] := by
  have hhost : Tiled.kind.Hosts 2 .table := Kind.hosts_table Tiled.kind 2
  have hmeadow : 2 ≤ meadow.classes.length := by decide +kernel
  have hsummer : (singletonWith .table 0 "Heifer" (some 1)).Gives meadow (.ok 2) summer :=
    ⟨by decide +kernel, rfl⟩
  have hparent : ∀ q : Nat, some 1 = some q → q < meadow.classes.length := fun q hq =>
    Option.some.inj hq ▸ hmeadow
  obtain ⟨-, -, hmake⟩ := methods_tile_vtables hhost tiled_meadow hmeadow
  obtain ⟨⟨more, htiled⟩, htile⟩ := hmake 0 "Heifer" (some 1) _ summer hparent hsummer
  exact ⟨hhost, tiled_meadow, ⟨_, htiled⟩, by decide +kernel, htile 2 (by decide +kernel),
    by decide +kernel, by decide +kernel, by decide +kernel⟩

end Pasture

end ObjectSystem
