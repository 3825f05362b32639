import ObjectSystem.Proofs.Class.Filling

/-! # Completing a class

The second pass takes the published classes of a parcel in order.  Each is settled below its
parent, handed to the hook, and filled; afterwards the world bears out one more entry
(`complete_sound`).  A hook can leave something in the vtable, but every slot is filled again
behind it. -/

namespace ObjectSystem

/-- A hook that only puts functions into the vtable that it is given. -/
def Hook.OnlyFills (hook : Hook) : Prop :=
  ∀ offsets d d', hook.apply offsets d = .ok d' →
    ∃ vtable : List (Option Code), vtable.length = d.vtable.length ∧
      d' = { d with vtable := vtable }

/-- What goes into a class of a parcel. -/
def Entry.built (slots : ClassSlot → Option ClassId) (s : ClassSpec) (novel : List NovelSpec)
    (overridden : List OverriddenSpec) (inherited : List InheritedSpec) : Entry :=
  { parent := s.parent.bind slots, final := s.flags.final, novel, overridden, inherited }

namespace World

/-- Where the slots of a class begin that are not its parent's. -/
def baseSize (w : World) (parent : Option ClassId) : Nat :=
  parent.elim vtableOffset fun p => (w.get p).classSize

/-- The slots that a class has from its parent. -/
def slotsAbove (w : World) (parent : Option ClassId) : List (Option Code) :=
  parent.elim [] fun p => (w.get p).vtable

/-- Where the variables of the class of a spec begin. -/
def varsStart (w : World) (s : ClassSpec) (parcel : Nat) : Nat :=
  w.ivarsOffset (s.parent.bind w.slots) parcel

/-- The cells when the one of a spec, if it has one, is set. -/
def cellsWith (w : World) (s : ClassSpec) (ivars : Nat) : IvarsCell → Nat :=
  s.cell.elim w.cells fun cell r => if r = cell then ivars else w.cells r

variable {w w' : World} {c : Nat} {u : Unit}

/-! ### Before the methods -/

theorem callHook_gives (h : (callHook c).Gives w u w') (hc : c < w.classes.length)
    (hhook : ∀ hook, w.hook = some hook → hook.OnlyFills) :
    Beside c w w' ∧ w'.offsets = w.offsets ∧
      ∃ vtable : List (Option Code), vtable.length = (w.get c).vtable.length ∧
        w'.get c = { w.get c with vtable := vtable } := by
  unfold callHook at h
  simp only [Step.gives_bind, Step.gives_get] at h
  obtain ⟨w₀, w₁, ⟨rfl, rfl⟩, h⟩ := h
  cases hk : w₁.hook with
  | none =>
    simp only [hk, Step.gives_pure] at h
    obtain ⟨-, rfl⟩ := h
    exact ⟨.refl c _, rfl, _, rfl, rfl⟩
  | some hook =>
    simp only [hk, Step.gives_bind, Step.gives_set, gives_tryModifyClass] at h
    obtain ⟨-, w₂, hw₂, d, hd, hw'⟩ := h
    have hget : w₂.get c = w₁.get c := by rw [hw₂]; rfl
    rw [hget] at hd
    obtain ⟨vtable, hlength, hvtable⟩ := hhook hook hk _ _ _ hd
    obtain ⟨hbeside, hoffsets, hself, -⟩ := Beside.of_modify hc (by rw [hw₂]) (by rw [hw₂])
      (by rw [hw₂]) (by rw [hw₂, hk]) hw'
    rw [hw₂] at hoffsets
    exact ⟨hbeside, hoffsets, vtable, hlength, hself.trans hvtable⟩

/-- What is done to a class when its parent and the place of its variables are known. -/
def completeBelow (parcel : Nat) (s : ClassSpec) (parent : Option ClassId) (ivars : Nat)
    (novel : List NovelSpec) (overridden : List OverriddenSpec) (inherited : List InheritedSpec) :
    Step World Unit := do
  let c ← slotClass s.slot
  let w ← Step.get
  modifyClass c fun d => settle d w s parent parcel ivars
  callHook c
  let w ← Step.get
  modifyClass c fun d => inherit d s (w.slotsAbove parent)
  inheritAll inherited
  overrideAll c overridden
  introduceAll c (w.baseSize parent) novel

variable {parcel : Nat} {s : ClassSpec} {novel : List NovelSpec}
  {overridden : List OverriddenSpec} {inherited : List InheritedSpec}

/-- The parent of a class is the one in the slot that the class names, and only its cell is set
before the class is taken up. -/
theorem complete_below (h : (complete parcel s novel overridden inherited).Gives w u w') :
    (completeBelow parcel s (s.parent.bind w.slots) (w.varsStart s parcel) novel overridden
      inherited).Gives { w with cells := w.cellsWith s (w.varsStart s parcel) } u w' := by
  unfold complete at h
  unfold varsStart cellsWith
  cases hp : s.parent with
  | none =>
    simp only [hp, pure_bind] at h
    obtain ⟨ivars, _, hivars, hcells⟩ := (Step.gives_bind _ _ _ _ _).1 h
    obtain ⟨rfl, rfl⟩ := (Step.gives_gets _ _ _ _).1 hivars
    cases hcell : s.cell with
    | none =>
      simp only [hcell] at hcells
      exact hcells
    | some cell =>
      simp only [hcell] at hcells
      obtain ⟨_, _, hset, hbelow⟩ := (Step.gives_bind _ _ _ _ _).1 hcells
      obtain rfl := (gives_setCell _ _ _ _ _).1 hset
      exact hbelow
  | some p =>
    simp only [hp, pure_bind] at h
    obtain ⟨c, _, hslot, hivars⟩ := (Step.gives_bind _ _ _ _ _).1 h
    obtain ⟨hslot, rfl⟩ := (gives_slotClass _ _ _ _).1 hslot
    obtain ⟨ivars, _, hivars, hcells⟩ := (Step.gives_bind _ _ _ _ _).1 hivars
    obtain ⟨rfl, rfl⟩ := (Step.gives_gets _ _ _ _).1 hivars
    rw [Option.bind_some, hslot]
    cases hcell : s.cell with
    | none =>
      simp only [hcell] at hcells
      exact hcells
    | some cell =>
      simp only [hcell] at hcells
      obtain ⟨_, _, hset, hbelow⟩ := (Step.gives_bind _ _ _ _ _).1 hcells
      obtain rfl := (gives_setCell _ _ _ _ _).1 hset
      exact hbelow

/-- The steps of completing a class, one world after the other. -/
theorem complete_steps (h : (complete parcel s novel overridden inherited).Gives w u w')
    (hc : w.slots s.slot = some c) :
    ∃ w₁ w₂ w₃ w₄ w₅,
      w₁ = { w with
        cells := w.cellsWith s (w.varsStart s parcel)
        classes := w.classes.modify c fun d =>
          settle d w s (s.parent.bind w.slots) parcel (w.varsStart s parcel) } ∧
      (callHook c).Gives w₁ () w₂ ∧
      w₃ = { w₂ with
        classes := w₂.classes.modify c fun d =>
          inherit d s (w₂.slotsAbove (s.parent.bind w.slots)) } ∧
      (inheritAll inherited).Gives w₃ () w₄ ∧ (overrideAll c overridden).Gives w₄ () w₅ ∧
      (introduceAll c (w₂.baseSize (s.parent.bind w.slots)) novel).Gives w₅ () w' := by
  replace h := complete_below h
  unfold completeBelow at h
  simp only [Step.gives_bind, Step.gives_get, gives_slotClass, gives_modifyClass] at h
  obtain ⟨c', w₀, ⟨hc', rfl⟩, _, _, ⟨rfl, rfl⟩, -, w₁, hw₁, _, _, h₂, _, w₂, ⟨rfl, rfl⟩, -, w₃, hw₃,
    _, w₄, h₄, _, w₅, h₅, h₆⟩ := h
  obtain rfl : c' = c := Option.some.inj (hc'.symm.trans hc)
  exact ⟨w₁, w₂, w₃, w₄, w₅, hw₁, h₂, hw₃, h₄, h₅, h₆⟩

/-- A settled class before its methods: it has the slots of its parent, and others behind them that
are still to be filled. -/
theorem complete_prepared (h : (complete parcel s novel overridden inherited).Gives w u w')
    (hc : w.slots s.slot = some c) (hlt : c < w.classes.length)
    (hparent : s.parent.bind w.slots ≠ some c)
    (hhook : ∀ hook, w.hook = some hook → hook.OnlyFills) :
    ∃ w₃ w₄ w₅ G, Beside c w w₃ ∧ w₃.offsets = w.offsets ∧
      (w₃.get c).parent = s.parent.bind w.slots ∧ (w₃.get c).flags.final = s.flags.final ∧
      (w₃.get c).classSize = w.baseSize (s.parent.bind w.slots) + s.numNovel * slotSize ∧
      (w₃.get c).vtable = w.slotsAbove (s.parent.bind w.slots) ++ G ∧
      G.length = (w.get c).vtable.length - (w.slotsAbove (s.parent.bind w.slots)).length ∧
      (inheritAll inherited).Gives w₃ () w₄ ∧ (overrideAll c overridden).Gives w₄ () w₅ ∧
      (introduceAll c (w.baseSize (s.parent.bind w.slots)) novel).Gives w₅ () w' := by
  obtain ⟨w₁, w₂, w₃, w₄, w₅, hw₁, h₂, hw₃, h₄, h₅, h₆⟩ := complete_steps h hc
  obtain ⟨hbeside₁, hoffsets₁, hself₁, hlt₁⟩ :=
    @Beside.of_modify w { w with cells := w.cellsWith s (w.varsStart s parcel) } w₁ c _ hlt rfl rfl
      rfl rfl hw₁
  obtain ⟨hbeside₂, hoffsets₂, vtable, hlength, hself₂⟩ := callHook_gives h₂ hlt₁ fun hook hk =>
    hhook hook (hbeside₁.hook ▸ hk)
  obtain ⟨hbeside₃, hoffsets₃, hself₃, -⟩ := Beside.of_modify (hbeside₂.length ▸ hlt₁) rfl rfl rfl
    rfl hw₃
  have hbeside := hbeside₁.trans hbeside₂
  have habove : ∀ p, s.parent.bind w.slots = some p → w₂.get p = w.get p := fun p hp =>
    hbeside.get p fun hpc => hparent (hp.trans (congrArg some hpc))
  have hslots : w₂.slotsAbove (s.parent.bind w.slots) = w.slotsAbove (s.parent.bind w.slots) := by
    cases hp : s.parent.bind w.slots with
    | none => rfl
    | some p => exact congrArg Descriptor.vtable (habove p hp)
  have hbase : w₂.baseSize (s.parent.bind w.slots) = w.baseSize (s.parent.bind w.slots) := by
    cases hp : s.parent.bind w.slots with
    | none => rfl
    | some p => exact congrArg Descriptor.classSize (habove p hp)
  rw [hslots, hself₂, hself₁] at hself₃
  rw [hbase] at h₆
  refine ⟨w₃, w₄, w₅, vtable.drop (w.slotsAbove (s.parent.bind w.slots)).length,
    hbeside.trans hbeside₃, ?_, ?_, ?_, ?_, ?_, ?_, h₄, h₅, h₆⟩
  · rw [hoffsets₃, hoffsets₂, hoffsets₁]
  · rw [hself₃]
    rfl
  · rw [hself₃]
    rfl
  · rw [hself₃]
    unfold inherit settle baseSize
    cases s.parent.bind w.slots <;> rfl
  · rw [hself₃]
    rfl
  · rw [hself₁] at hlength
    rw [List.length_drop, hlength]
    rfl

/-! ### The methods -/

theorem Sound.above {L : Ledger} (h : Sound L w) {parent : Option ClassId}
    (hparent : ∀ p : Nat, parent = some p → p < L.length) :
    w.slotsAbove parent =
        (parent.elim [] L.layout).map (fun o => parent.elim none fun p => L.dispatch p o) ∧
      w.baseSize parent = slotOffset (parent.elim [] L.layout).length ∧
      ∀ (i : Nat) o, (parent.elim [] L.layout)[i]? = some o → w.offsets o = slotOffset i := by
  cases parent with
  | none => exact ⟨rfl, rfl, fun i o ho => (by cases ho)⟩
  | some p =>
    have hp := h.settled p (hparent p rfl)
    exact ⟨hp.vtable, hp.classSize, hp.placed⟩

theorem Sound.linked_above {L : Ledger} {e : Entry} (h : Sound L w)
    (hwf : Ledger.WellFormed (e :: L)) {m q : MethodRef} (hl : (m, q) ∈ e.links) :
    ∃ i, (e.parent.elim [] L.layout)[i]? = some (L.origin q) ∧ w.offsets q = slotOffset i := by
  obtain ⟨a, ha, hq⟩ := hwf.anchored.2 _ hl
  have hmem : L.origin q ∈ e.parent.elim [] L.layout := by
    obtain ⟨p, hp, hmem⟩ := Ledger.mem_above.1 ha
    rw [hp]
    exact (Ledger.layout_initial hmem).subset (hwf.tail.origin_mem_layout hq)
  obtain ⟨i, hi, horigin⟩ := List.getElem_of_mem hmem
  have hget := (List.getElem?_eq_getElem hi).trans (congrArg some horigin)
  refine ⟨i, hget, ?_⟩
  rw [h.linked q (Ledger.mem_refs_of_mem_own hq)]
  exact (h.above fun p hp => hwf.parent_lt hp).2.2 i _ hget

/-- The methods of a class put into its vtable and their offsets, which come from the ledger. -/
theorem fill_gives {L : Ledger} {e : Entry} {w₃ w₄ w₅ : World} {G : List (Option Code)}
    (hs : Sound L w) (hwf : Ledger.WellFormed (e :: L)) (hcallbacks : e.callbacks = [])
    (hoffsets : w₃.offsets = w.offsets) (hlt : L.length < w₃.classes.length)
    (hvtable : (w₃.get L.length).vtable = w.slotsAbove e.parent ++ G)
    (hG : G.length = e.novel.length) (h₄ : (inheritAll e.inherited).Gives w₃ () w₄)
    (h₅ : (overrideAll L.length e.overridden).Gives w₄ () w₅)
    (h₆ : (introduceAll L.length (w.baseSize e.parent) e.novel).Gives w₅ () w') :
    Beside L.length w₃ w' ∧
      w'.get L.length = { w₃.get L.length with
        vtable := (Ledger.layout (e :: L) L.length).map (Ledger.dispatch (e :: L) L.length) } ∧
      (∀ m, m ∉ e.own → w'.offsets m = w.offsets m) ∧
      (∀ l ∈ e.links, w'.offsets l.1 = w.offsets l.2) ∧
      ∀ (j : Nat) s, e.novel[j]? = some s →
        w'.offsets s.method = slotOffset ((e.parent.elim [] L.layout).length + j) := by
  have hparent : ∀ p : Nat, e.parent = some p → p < L.length := fun p hp => hwf.parent_lt hp
  obtain ⟨hslots, hbase, hplaced⟩ := hs.above hparent
  have hnodup := hwf.layout_nodup L.length
  rw [Ledger.layout_self] at hnodup
  have hown := List.nodup_append.1 hwf.own_nodup
  have hsource : ∀ l ∈ e.links, l.2 ∉ e.own := fun l hl => fun hmem =>
    hwf.not_mem_own (hwf.link_mem_refs hl) hmem
  rw [gives_inheritAll] at h₄
  have hsame : ∀ d, w₄.get d = w₃.get d := fun d => by rw [h₄]; rfl
  have hoffsets₄ : w₄.offsets =
      passOn w.offsets (e.inherited.map fun s => (s.method, s.parent)) := by
    rw [h₄, ← hoffsets]
  have hbeside₄ : Beside L.length w₃ w₄ := by
    rw [h₄]
    exact ⟨rfl, fun _ _ => rfl, rfl, rfl, rfl⟩
  have hplaced₄ : ∀ s ∈ e.overridden, ∃ i,
      (e.parent.elim [] L.layout)[i]? = some (Ledger.origin (e :: L) s.parent) ∧
        w₄.offsets s.parent = slotOffset i := by
    intro s hs'
    have hl : (s.method, s.parent) ∈ e.links := List.mem_append_left _ (List.mem_map_of_mem hs')
    obtain ⟨i, hi, hoffset⟩ := hs.linked_above hwf hl
    refine ⟨i, ?_, ?_⟩
    · rw [hwf.origin_cons (hwf.link_mem_refs hl), hi]
    · rw [hoffsets₄, passOn_of_not_mem, hoffset]
      intro hmem
      refine hsource _ hl (List.mem_append_right _ (List.mem_append_right _ ?_))
      rwa [List.map_map] at hmem
  have hsources₄ : ∀ s ∈ e.overridden, s.parent ∉ e.overridden.map (·.method) := fun s hs' hmem =>
    hsource _ (List.mem_append_left _ (List.mem_map_of_mem hs'))
      (List.mem_append_right _ (List.mem_append_left _ hmem))
  have hvtable₄ : (w₄.get L.length).vtable =
      (e.parent.elim [] L.layout).map (fun o => e.parent.elim none fun p => L.dispatch p o) ++
        G := by
    rw [hsame, hvtable, hslots]
  obtain ⟨hbeside₅, hoffsets₅, hself₅⟩ := overrideAll_gives (List.nodup_append.1 hnodup).1 h₅
    (hbeside₄.length ▸ hlt) hvtable₄ hplaced₄ hsources₄
  have hlength : ∀ g : MethodRef → Option Code,
      w.baseSize e.parent = slotOffset ((e.parent.elim [] L.layout).map g).length := fun g => by
    rw [hbase, List.length_map]
  rw [hlength] at h₆
  obtain ⟨hbeside₆, hother, hnovel, hself₆⟩ := introduceAll_gives h₆
    (hbeside₅.length ▸ hbeside₄.length ▸ hlt) (by rw [hself₅]) hG
  have hoffsets₅' : w₅.offsets = passOn w.offsets
      (e.inherited.map (fun s => (s.method, s.parent)) ++
        e.overridden.map fun s => (s.method, s.parent)) := by
    rw [hoffsets₅, hoffsets₄, passOn_append]
  have hperm : (e.inherited.map (fun s => (s.method, s.parent)) ++
      e.overridden.map fun s => (s.method, s.parent)).Perm e.links := List.perm_append_comm
  have hkeys := hperm.map Prod.fst
  refine ⟨(hbeside₄.trans hbeside₅).trans hbeside₆, ?_, ?_, ?_, ?_⟩
  · rw [hself₆, hself₅, hsame, ← hwf.filled hcallbacks]
  · intro m hm
    rw [hother m fun hmem => hm (List.mem_append_left _ hmem), hoffsets₅', passOn_of_not_mem]
    rw [hkeys.mem_iff]
    exact Ledger.not_mem_links_of_not_mem_own hm
  · intro l hl
    have hnotNovel : l.1 ∉ e.novel.map (·.method) := fun hmem =>
      hown.2.2 _ hmem _ (e.keys_links ▸ List.mem_map_of_mem hl) rfl
    rw [hother _ hnotNovel, hoffsets₅']
    refine passOn_of_mem ?_ (fun l' hl' hmem => ?_) (hperm.mem_iff.2 hl)
    · rw [hkeys.nodup_iff, e.keys_links]
      exact hown.2.1
    · rw [hkeys.mem_iff, e.keys_links] at hmem
      exact hsource l' (hperm.mem_iff.1 hl') (List.mem_append_right _ hmem)
  · intro j s hj
    rw [hnovel hown.1 j s hj, List.length_map]

/-- A completed class bears out one more entry. -/
theorem complete_sound {L : Ledger} (hs : Sound L w)
    (h : (complete parcel s novel overridden inherited).Gives w u w')
    (hc : w.slots s.slot = some L.length) (hlt : L.length < w.classes.length)
    (hblank : w.get L.length =
      .blank (w.baseSize (s.parent.bind w.slots) + s.numNovel * slotSize))
    (hwf : Ledger.WellFormed (.built w.slots s novel overridden inherited :: L))
    (hnovel : novel.length = s.numNovel)
    (hhook : ∀ hook, w.hook = some hook → hook.OnlyFills) :
    Sound (.built w.slots s novel overridden inherited :: L) w' ∧ Preserves L w w' ∧
      Beside L.length w w' ∧ (w'.get L.length).classSize = (w.get L.length).classSize := by
  have hparent : ∀ p : Nat, s.parent.bind w.slots = some p → p < L.length := fun p hp =>
    hwf.parent_lt hp
  obtain ⟨hslots, hbase, hplaced⟩ := hs.above hparent
  obtain ⟨w₃, w₄, w₅, G, hbeside₃, hoffsets₃, hpar, hfinal, hsize, hvtable, hG, h₄, h₅, h₆⟩ :=
    complete_prepared h hc hlt (fun hself => Nat.lt_irrefl _ (hparent _ hself)) hhook
  have hroom : G.length = novel.length := by
    rw [hG, hblank, hslots, hbase, hnovel, List.length_map]
    simp only [Descriptor.blank, List.length_replicate, slotsIn, slotOffset, vtableOffset, slotSize]
    omega
  obtain ⟨hbeside, hself, hkept, hlinked, hintroduced⟩ := fill_gives hs hwf rfl hoffsets₃
    (hbeside₃.length ▸ hlt) hvtable hroom h₄ h₅ h₆
  have hboth := hbeside₃.trans hbeside
  have hpreserves : Preserves L w w' := .of_get (Nat.le_of_eq hboth.length.symm)
    (fun c hc => hboth.get c (Nat.ne_of_lt hc)) fun m hm => hkept m (hwf.not_mem_own hm)
  have hlayout : Ledger.layout (.built w.slots s novel overridden inherited :: L) L.length =
      (s.parent.bind w.slots).elim [] L.layout ++ novel.map (·.method) := Ledger.layout_self _ _
  have hsettled : Settled (.built w.slots s novel overridden inherited :: L) w' L.length := by
    constructor
    · rw [hboth.length]
      exact hlt
    · rw [hself, Ledger.entry_self]
      exact hpar
    · rw [hself, Ledger.entry_self]
      exact hfinal
    · rw [hself]
    · rw [hself, hlayout, List.length_append, List.length_map, hnovel, hsize, hbase]
      simp only [slotOffset, slotSize]
      omega
    · intro i o ho
      rw [hlayout, List.getElem?_append] at ho
      by_cases hi : i < ((s.parent.bind w.slots).elim [] L.layout).length
      · rw [if_pos hi] at ho
        rw [hkept o (hwf.not_mem_own (Ledger.mem_refs_of_mem_above (List.mem_of_getElem? ho))),
          hplaced i o ho]
      · rw [if_neg hi, List.getElem?_map, Option.map_eq_some_iff] at ho
        obtain ⟨n, hn, rfl⟩ := ho
        rw [hintroduced _ n hn]
        congr 1
        exact Nat.add_sub_of_le (Nat.le_of_not_lt hi)
  have hlinked' : ∀ m ∈ Entry.own (.built w.slots s novel overridden inherited), w'.offsets m =
      w'.offsets (Ledger.origin (.built w.slots s novel overridden inherited :: L) m) := by
    intro m hm
    rw [Entry.own, ← Entry.keys_links] at hm
    rcases List.mem_append.1 hm with hmem | hmem
    · obtain ⟨n, hn, rfl⟩ := List.mem_map.1 hmem
      rw [hwf.origin_novel hn]
    · obtain ⟨⟨m, q⟩, hl, rfl⟩ := List.mem_map.1 hmem
      have hq := hwf.link_mem_refs hl
      rw [hlinked _ hl, hwf.origin_link hl, hs.linked q hq]
      exact (hkept _ (hwf.not_mem_own (hwf.tail.origin_mem_refs hq))).symm
  refine ⟨hs.cons hwf hpreserves hsettled hlinked', hpreserves, hboth, ?_⟩
  rw [hself, hsize, hblank]
  rfl

end World

end ObjectSystem
