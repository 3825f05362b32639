import ObjectSystem.Proofs.Class.Building

/-! # The shape of classes

What the bootstrap of parcels makes of each class, said with offsets alone.  The lists of methods of
a parcel are shared out among its classes by their counts (`share`).  A class begins with the slots
of its parent, where the last overriding function for a slot stands in place of the parent's
(`overriding`); behind them come its new methods, in order, and its size is the offset behind the
last slot (`Shaped`).

Nothing is asked of what is overridden or kept: it may have been named by any class, as long as its
offset is that of a slot, which the bootstrap sees to.  What is asked is that no reference is named
twice.  An offset that was set is then never set again, so what holds of a class when it is
completed holds from then on (`Kept`), through any number of parcels (`Bootstrapped`). -/

namespace ObjectSystem

/-! ### Shares -/

/-- What falls to the class at a place, if each class takes as many items as it counts. -/
def share {β : Type} (count : ClassSpec → Nat) (specs : List ClassSpec) (items : List β) (k : Nat) :
    List β :=
  (items.drop ((specs.take k).map count).sum).take (specs[k]?.elim 0 count)

section share

variable {β : Type} (count : ClassSpec → Nat) (s : ClassSpec) (rest : List ClassSpec)
  (items : List β)

theorem share_succ (k : Nat) :
    share count (s :: rest) items (k + 1) = share count rest (items.drop (count s)) k := by
  simp [share, List.drop_drop]

end share

/-- The references in the shares of a class. -/
def ownRefs (novel : List NovelSpec) (overridden : List OverriddenSpec)
    (inherited : List InheritedSpec) : List MethodRef :=
  novel.map (·.method) ++ (overridden.map (·.method) ++ inherited.map (·.method))

/-- The references that classes name as their own when the lists are shared out among them. -/
def namedRefs : List ClassSpec → List NovelSpec → List OverriddenSpec → List InheritedSpec →
    List MethodRef
  | [], _, _, _ => []
  | s :: rest, novel, overridden, inherited =>
    ownRefs (novel.take s.numNovel) (overridden.take s.numOverridden)
        (inherited.take s.numInherited) ++
      namedRefs rest (novel.drop s.numNovel) (overridden.drop s.numOverridden)
        (inherited.drop s.numInherited)

/-- The references that the classes of a parcel name as their own. -/
def ParcelSpec.named (p : ParcelSpec) : List MethodRef :=
  namedRefs p.classes p.novel p.overridden p.inherited

/-! ### Overriding functions -/

/-- The last of some overriding functions whose reference has the offset of the slot at a place. -/
def overriding (f : MethodRef → Nat) (specs : List OverriddenSpec) (i : Nat) : Option Code :=
  (specs.reverse.find? fun s => f s.parent = slotOffset i).map (·.code)

theorem overriding_cons (f : MethodRef → Nat) (s : OverriddenSpec) (rest : List OverriddenSpec)
    (i : Nat) :
    overriding f (s :: rest) i =
      (overriding f rest i).or (if f s.parent = slotOffset i then some s.code else none) := by
  unfold overriding
  rw [List.reverse_cons, List.find?_append]
  cases rest.reverse.find? fun s => decide (f s.parent = slotOffset i) with
  | some t => rfl
  | none =>
    by_cases hs : f s.parent = slotOffset i
    · simp [hs]
    · simp [hs]

theorem overriding_congr {f g : MethodRef → Nat} {specs : List OverriddenSpec}
    (h : ∀ s ∈ specs, f s.parent = g s.parent) (i : Nat) :
    overriding f specs i = overriding g specs i := by
  induction specs with
  | nil => rfl
  | cons s rest ih =>
    rw [overriding_cons, overriding_cons, h s List.mem_cons_self,
      ih fun t ht => h t (List.mem_cons_of_mem _ ht)]

theorem slotOffset_inj {i j : Nat} : slotOffset i = slotOffset j ↔ i = j := by
  simp only [slotOffset, slotSize, vtableOffset]
  omega

theorem slotOffset_ne_zero (i : Nat) : slotOffset i ≠ 0 := by
  simp only [slotOffset, vtableOffset]
  omega

theorem Descriptor.install_eq_ok {d d' : Descriptor} {code : Code} {offset : Nat}
    (h : d.install code offset = .ok d') :
    ∃ i, i < d.vtable.length ∧ offset = slotOffset i ∧
      d' = { d with vtable := d.vtable.set i (some code) } := by
  unfold Descriptor.install at h
  cases hi : slotIndex? d.vtable.length offset with
  | none => simp [hi] at h
  | some i =>
    simp only [hi, Except.ok.injEq] at h
    obtain ⟨hlt, hoffset⟩ := slotIndex?_eq_some hi
    exact ⟨i, hlt, hoffset, h.symm⟩

namespace World

variable {w w' w'' : World} {c n : Nat} {u : Unit} {s : ClassSpec} {specs : List ClassSpec}
  {novel : List NovelSpec} {overridden : List OverriddenSpec} {inherited : List InheritedSpec}
  {known : List MethodRef}

/-- Overriding functions that succeed all go into slots, the last one for a slot standing.  Their
references have no offset before, so none of them can be the source of another's. -/
theorem overrideAll_shape (h : (overrideAll c overridden).Gives w () w')
    (hc : c < w.classes.length) (hnodup : (overridden.map (·.method)).Nodup)
    (hfresh : ∀ o ∈ overridden, w.offsets o.method = 0) :
    Beside c w w' ∧
      w'.offsets = passOn w.offsets (overridden.map fun o => (o.method, o.parent)) ∧
      w'.get c = { w.get c with
        vtable := (w.get c).vtable.mapIdx fun i above =>
          (overriding w'.offsets overridden i).or above } ∧
      ∀ o ∈ overridden, ∃ i < (w.get c).vtable.length, w'.offsets o.parent = slotOffset i := by
  induction overridden generalizing w with
  | nil =>
    obtain ⟨-, rfl⟩ := (Step.gives_pure _ _ _ _).1 h
    have hsame : (w'.get c).vtable.mapIdx (fun i above =>
        (overriding w'.offsets [] i).or above) = (w'.get c).vtable :=
      List.ext_getElem (by simp) fun i hi hi' => by simp [overriding]
    refine ⟨.refl c _, rfl, ?_, by simp⟩
    rw [hsame]
  | cons o rest ih =>
    unfold overrideAll at h
    simp only [Step.gives_bind, Step.gives_gets, gives_setOffset, gives_tryModifyClass] at h
    obtain ⟨offset, w₀, ⟨rfl, rfl⟩, -, w₁, hw₁, -, w₂, ⟨d, hd, hw₂⟩, hrest⟩ := h
    have hget : w₁.get c = w₀.get c := by rw [hw₁]; rfl
    rw [hget] at hd
    obtain ⟨i, hi, hoffset, hset⟩ := Descriptor.install_eq_ok hd
    obtain ⟨hbeside, hf, hself, hc'⟩ :=
      Beside.of_modify hc (by rw [hw₁]) (by rw [hw₁]) (by rw [hw₁]) (by rw [hw₁]) hw₂
    rw [hw₁] at hf
    rw [hset] at hself
    rw [List.map_cons, List.nodup_cons] at hnodup
    have hother : ∀ r ∈ rest, w₂.offsets r.method = 0 := by
      intro r hr
      have hne : r.method ≠ o.method := fun heq => hnodup.1 (heq ▸ List.mem_map_of_mem hr)
      rw [hf]
      exact (if_neg hne).trans (hfresh r (List.mem_cons_of_mem _ hr))
    obtain ⟨hbeside', hf', hself', hsources⟩ := ih hrest hc' hnodup.2 hother
    have hlength : (w₂.get c).vtable.length = (w₀.get c).vtable.length := by
      rw [hself]
      exact List.length_set
    have hsource : w₂.offsets o.parent = slotOffset i := by
      rw [hf]
      show (if o.parent = o.method then _ else _) = _
      rw [hoffset, ite_self]
    have hkept : w'.offsets o.parent = slotOffset i := by
      rw [hf', passOn_of_not_mem, hsource]
      intro hmem
      rw [List.map_map] at hmem
      obtain ⟨r, hr, heq⟩ := List.mem_map.1 hmem
      have hzero : w₂.offsets o.parent = 0 := heq ▸ hother r hr
      exact slotOffset_ne_zero i (hsource.symm.trans hzero)
    refine ⟨hbeside.trans hbeside', by rw [hf', hf]; rfl, ?_, ?_⟩
    · have hvtable : ((w₀.get c).vtable.set i (some o.code)).mapIdx (fun j above =>
          (overriding w'.offsets rest j).or above) =
          (w₀.get c).vtable.mapIdx fun j above =>
            (overriding w'.offsets (o :: rest) j).or above := by
        refine List.ext_getElem (by simp) fun j hj hj' => ?_
        simp only [List.getElem_mapIdx, List.getElem_set, overriding_cons, hkept, slotOffset_inj]
        cases overriding w'.offsets rest j with
        | some code => rfl
        | none =>
          by_cases hij : i = j
          · simp [hij]
          · simp [hij]
      rw [hself', hself, ← hvtable]
    · intro r hr
      rcases List.mem_cons.1 hr with rfl | hr
      · exact ⟨i, hi, hkept⟩
      · exact hlength ▸ hsources r hr

/-! ### One class -/

/-- The shape of a class that was made from a spec with its shares of new and overriding methods. -/
structure Shaped (w : World) (c : Nat) (s : ClassSpec) (novel : List NovelSpec)
    (overridden : List OverriddenSpec) : Prop where
  slot : w.slots s.slot = some c
  parent : (w.get c).parent = s.parent.bind w.slots
  older : ∀ t, s.parent = some t → ∃ p : Nat, w.slots t = some p ∧ p < c
  numNovel : novel.length = s.numNovel
  size : (w.get c).classSize = slotOffset (w.get c).vtable.length
  above : w.baseSize (w.get c).parent = slotOffset (w.slotsAbove (w.get c).parent).length
  vtable : (w.get c).vtable =
    (w.slotsAbove (w.get c).parent).mapIdx (fun i above =>
      (overriding w.offsets overridden i).or above) ++ novel.map fun m => some m.code
  sources : ∀ o ∈ overridden, ∃ i < (w.get c).vtable.length, w.offsets o.parent = slotOffset i
  introduced : ∀ (j : Nat) m, novel[j]? = some m →
    w.offsets m.method = w.baseSize (w.get c).parent + slotSize * j

/-- The first classes of a world keep their shape, and offsets that are set stay as they are. -/
structure Kept (n : Nat) (w w' : World) : Prop where
  parent : ∀ d : Nat, d < n → (w'.get d).parent = (w.get d).parent
  vtable : ∀ d : Nat, d < n → (w'.get d).vtable = (w.get d).vtable
  size : ∀ d : Nat, d < n → (w'.get d).classSize = (w.get d).classSize
  slots : ∀ t d, w.slots t = some d → w'.slots t = some d
  offsets : ∀ m, w.offsets m ≠ 0 → w'.offsets m = w.offsets m

theorem Kept.of_fields (hget : ∀ d : Nat, d < n → ∃ name? methods?,
      w'.get d = { w.get d with name? := name?, methods? := methods? })
    (hslots : ∀ t d, w.slots t = some d → w'.slots t = some d)
    (hoffsets : ∀ m, w.offsets m ≠ 0 → w'.offsets m = w.offsets m) : Kept n w w' := by
  have hsame : ∀ {β : Type} (f : Descriptor → β),
      (∀ d name? methods?, f { d with name? := name?, methods? := methods? } = f d) →
        ∀ d : Nat, d < n → f (w'.get d) = f (w.get d) := by
    intro β f hf d hd
    obtain ⟨name?, methods?, hfields⟩ := hget d hd
    exact (congrArg f hfields).trans (hf _ _ _)
  exact ⟨hsame _ fun _ _ _ => rfl, hsame _ fun _ _ _ => rfl, hsame _ fun _ _ _ => rfl, hslots,
    hoffsets⟩

theorem Kept.of_get (hget : ∀ d : Nat, d < n → w'.get d = w.get d)
    (hslots : ∀ t d, w.slots t = some d → w'.slots t = some d)
    (hoffsets : ∀ m, w.offsets m ≠ 0 → w'.offsets m = w.offsets m) : Kept n w w' :=
  .of_fields (fun d hd => ⟨_, _, hget d hd⟩) hslots hoffsets

theorem Kept.trans (h : Kept n w w') (h' : Kept n w' w'') : Kept n w w'' where
  parent d hd := (h'.parent d hd).trans (h.parent d hd)
  vtable d hd := (h'.vtable d hd).trans (h.vtable d hd)
  size d hd := (h'.size d hd).trans (h.size d hd)
  slots t d hd := h'.slots t d (h.slots t d hd)
  offsets m hm := by
    have hsame := h.offsets m hm
    exact (h'.offsets m (hsame ▸ hm)).trans hsame

theorem Kept.mono {k : Nat} (h : Kept n w w') (hk : k ≤ n) : Kept k w w' where
  parent d hd := h.parent d (Nat.lt_of_lt_of_le hd hk)
  vtable d hd := h.vtable d (Nat.lt_of_lt_of_le hd hk)
  size d hd := h.size d (Nat.lt_of_lt_of_le hd hk)
  slots := h.slots
  offsets := h.offsets

theorem Shaped.parent_lt (h : Shaped w c s novel overridden) {p : Nat}
    (hp : (w.get c).parent = some p) : p < c := by
  obtain ⟨t, ht, hslot⟩ := Option.bind_eq_some_iff.1 (h.parent ▸ hp)
  obtain ⟨q, hq, hlt⟩ := h.older t ht
  obtain rfl : q = p := Option.some.inj (hq.symm.trans hslot)
  exact hlt

/-- A class keeps its shape. -/
theorem Shaped.kept (h : Shaped w c s novel overridden) (hk : Kept n w w') (hc : c < n) :
    Shaped w' c s novel overridden := by
  have hparent := hk.parent c hc
  have hslotsAbove : w'.slotsAbove (w'.get c).parent = w.slotsAbove (w.get c).parent := by
    rw [hparent]
    cases hp : (w.get c).parent with
    | none => rfl
    | some p => exact hk.vtable p (Nat.lt_trans (h.parent_lt hp) hc)
  have hbase : w'.baseSize (w'.get c).parent = w.baseSize (w.get c).parent := by
    rw [hparent]
    cases hp : (w.get c).parent with
    | none => rfl
    | some p => exact hk.size p (Nat.lt_trans (h.parent_lt hp) hc)
  have hsource : ∀ o ∈ overridden, w'.offsets o.parent = w.offsets o.parent := by
    intro o ho
    obtain ⟨i, -, hi⟩ := h.sources o ho
    exact hk.offsets _ (hi ▸ slotOffset_ne_zero i)
  constructor
  · exact hk.slots _ _ h.slot
  · rw [hparent, h.parent]
    cases hp : s.parent with
    | none => rfl
    | some t =>
      obtain ⟨p, hslot, -⟩ := h.older t hp
      rw [Option.bind_some, Option.bind_some, hslot, hk.slots t p hslot]
  · intro t ht
    obtain ⟨p, hslot, hlt⟩ := h.older t ht
    exact ⟨p, hk.slots t p hslot, hlt⟩
  · exact h.numNovel
  · rw [hk.size c hc, hk.vtable c hc, h.size]
  · rw [hbase, hslotsAbove, h.above]
  · rw [hk.vtable c hc, hslotsAbove, h.vtable]
    simp only [overriding_congr hsource]
  · intro o ho
    rw [hk.vtable c hc, hsource o ho]
    exact h.sources o ho
  · intro j m hm
    rw [hbase, ← h.introduced j m hm]
    refine hk.offsets _ ?_
    rw [h.introduced j m hm, h.above]
    simp only [slotOffset, vtableOffset]
    omega

/-- A completed class is in shape.  Only references that it names are given offsets. -/
theorem complete_shape {parcel : Nat}
    (h : (complete parcel s novel overridden inherited).Gives w u w')
    (hslot : w.slots s.slot = some c) (hlt : c < w.classes.length)
    (holder : ∀ t, s.parent = some t → ∃ p : Nat, w.slots t = some p ∧ p < c)
    (hblank : w.get c = .blank (w.baseSize (s.parent.bind w.slots) + s.numNovel * slotSize))
    (hsizes : ∀ d : Nat, d < c → (w.get d).classSize = slotOffset (w.get d).vtable.length)
    (hnovel : novel.length = s.numNovel)
    (hhook : ∀ hook, w.hook = some hook → hook.OnlyFills)
    (hknown : ∀ m, w.offsets m ≠ 0 → m ∈ known)
    (honce : (ownRefs novel overridden inherited ++ known).Nodup) :
    Shaped w' c s novel overridden ∧ Beside c w w' ∧
      (w'.get c).classSize = (w.get c).classSize ∧
      (∀ m ∈ known, w'.offsets m = w.offsets m) ∧
      ∀ m, w'.offsets m ≠ 0 → m ∈ ownRefs novel overridden inherited ++ known := by
  obtain ⟨parent, hpar⟩ : ∃ parent, s.parent.bind w.slots = parent := ⟨_, rfl⟩
  have hbelow : ∀ p : Nat, parent = some p → p < c := by
    intro p hp
    obtain ⟨t, ht, hslot'⟩ := Option.bind_eq_some_iff.1 (hpar.trans hp)
    obtain ⟨q, hq, hlt'⟩ := holder t ht
    obtain rfl : q = p := Option.some.inj (hq.symm.trans hslot')
    exact hlt'
  have hbase : w.baseSize parent = slotOffset (w.slotsAbove parent).length := by
    cases parent with
    | none => rfl
    | some p => exact hsizes p (hbelow p rfl)
  obtain ⟨w₃, w₄, w₅, G, hbeside₃, hoffsets₃, hparent₃, -, hsize₃, hvtable₃, hG, h₄, h₅, h₆⟩ :=
    complete_prepared h hslot hlt (fun hself => Nat.lt_irrefl _ (hbelow _ (hpar ▸ hself))) hhook
  rw [hpar] at hparent₃ hsize₃ hvtable₃ hG h₆ hblank
  have hroom : G.length = novel.length := by
    rw [hG, hblank, hbase, hnovel]
    simp only [Descriptor.blank, List.length_replicate, slotsIn, slotOffset, vtableOffset, slotSize]
    omega
  obtain ⟨hown, -, happart⟩ := List.nodup_append.1 honce
  have hfresh : ∀ m ∈ ownRefs novel overridden inherited, w.offsets m = 0 := by
    intro m hm
    by_contra hne
    exact happart m hm m (hknown m hne) rfl
  obtain ⟨hnovelNodup, hlinks, hnovelApart⟩ := List.nodup_append.1 hown
  obtain ⟨hoverNodup, hinhNodup, hlinksApart⟩ := List.nodup_append.1 hlinks
  rw [gives_inheritAll] at h₄
  have hbeside₄ : Beside c w₃ w₄ := by
    rw [h₄]
    exact ⟨rfl, fun _ _ => rfl, rfl, rfl, rfl⟩
  have hget₄ : w₄.get c = w₃.get c := by rw [h₄]; rfl
  have hoffsets₄ : w₄.offsets =
      passOn w.offsets (inherited.map fun o => (o.method, o.parent)) := by
    rw [h₄, ← hoffsets₃]
  have hkeys : (inherited.map fun o => (o.method, o.parent)).map Prod.fst =
      inherited.map (·.method) := by
    rw [List.map_map]
    rfl
  have hfresh₄ : ∀ o ∈ overridden, w₄.offsets o.method = 0 := by
    intro o ho
    have hmem := List.mem_map_of_mem (f := OverriddenSpec.method) ho
    rw [hoffsets₄, passOn_of_not_mem]
    · exact hfresh _ (List.mem_append_right _ (List.mem_append_left _ hmem))
    · rw [hkeys]
      exact fun hinh => hlinksApart _ hmem _ hinh rfl
  have hlt₄ : c < w₄.classes.length := by
    rw [hbeside₄.length, hbeside₃.length]
    exact hlt
  obtain ⟨hbeside₅, hoffsets₅, hself₅, hsources₅⟩ := overrideAll_shape h₅ hlt₄ hoverNodup hfresh₄
  have hvtable₅ : (w₅.get c).vtable =
      (w.slotsAbove parent).mapIdx (fun i above => (overriding w₅.offsets overridden i).or above) ++
        G.mapIdx fun i above =>
          (overriding w₅.offsets overridden (i + (w.slotsAbove parent).length)).or above := by
    rw [hself₅, hget₄, hvtable₃]
    exact List.mapIdx_append
  have hstart : w.baseSize parent = slotOffset ((w.slotsAbove parent).mapIdx fun i above =>
      (overriding w₅.offsets overridden i).or above).length := by
    rw [hbase, List.length_mapIdx]
  rw [hstart] at h₆
  obtain ⟨hbeside₆, hother₆, hnew₆, hself₆⟩ := introduceAll_gives h₆ (hbeside₅.length ▸ hlt₄)
    hvtable₅ (by rw [List.length_mapIdx, hroom])
  rw [← hstart] at h₆
  have hboth := ((hbeside₃.trans hbeside₄).trans hbeside₅).trans hbeside₆
  have hkept₆ : ∀ o ∈ overridden, w'.offsets o.parent = w₅.offsets o.parent := by
    intro o ho
    refine hother₆ _ fun hmem => ?_
    obtain ⟨i, -, hi⟩ := hsources₅ o ho
    have hzero : w₅.offsets o.parent = 0 := by
      rw [hoffsets₅, hoffsets₄, ← passOn_append, passOn_of_not_mem]
      · exact hfresh _ (List.mem_append_left _ hmem)
      · rw [List.map_append, hkeys, List.map_map]
        intro hlink
        refine hnovelApart _ hmem _ ?_ rfl
        rcases List.mem_append.1 hlink with hlink | hlink
        · exact List.mem_append_right _ hlink
        · exact List.mem_append_left _ hlink
    exact slotOffset_ne_zero i (hi.symm.trans hzero)
  have hunnamed : ∀ m, m ∉ ownRefs novel overridden inherited → w'.offsets m = w.offsets m := by
    intro m hm
    rw [ownRefs, List.mem_append, List.mem_append, not_or, not_or] at hm
    rw [hother₆ m hm.1, hoffsets₅, hoffsets₄, ← passOn_append, passOn_of_not_mem]
    rw [List.map_append, hkeys, List.map_map, List.mem_append, not_or]
    exact ⟨hm.2.2, hm.2.1⟩
  have hparent' : (w'.get c).parent = parent := by
    rw [hself₆, hself₅, hget₄]
    exact hparent₃
  have habove : w'.slotsAbove parent = w.slotsAbove parent := by
    cases parent with
    | none => rfl
    | some p => exact congrArg Descriptor.vtable (hboth.get p (Nat.ne_of_lt (hbelow p rfl)))
  have hbase' : w'.baseSize parent = w.baseSize parent := by
    cases parent with
    | none => rfl
    | some p => exact congrArg Descriptor.classSize (hboth.get p (Nat.ne_of_lt (hbelow p rfl)))
  have hvtable' : (w'.get c).vtable = (w.slotsAbove parent).mapIdx (fun i above =>
      (overriding w'.offsets overridden i).or above) ++ novel.map fun m => some m.code := by
    rw [hself₆]
    simp only [overriding_congr hkept₆]
  have hlength : (w'.get c).vtable.length = (w.slotsAbove parent).length + s.numNovel := by
    rw [hvtable', List.length_append, List.length_mapIdx, List.length_map, hnovel]
  have hsize : (w'.get c).classSize = w.baseSize parent + s.numNovel * slotSize := by
    rw [hself₆, hself₅, hget₄]
    exact hsize₃
  refine ⟨⟨?_, ?_, ?_, hnovel, ?_, ?_, ?_, ?_, ?_⟩, hboth, ?_, ?_, ?_⟩
  · rw [hboth.slots]
    exact hslot
  · rw [hparent', hboth.slots, hpar]
  · rw [hboth.slots]
    exact holder
  · rw [hsize, hlength, hbase]
    simp only [slotOffset, slotSize]
    omega
  · rw [hparent', hbase', habove, hbase]
  · rw [hparent', habove, hvtable']
  · intro o ho
    obtain ⟨i, hi, hoffset⟩ := hsources₅ o ho
    refine ⟨i, ?_, (hkept₆ o ho).trans hoffset⟩
    rw [hlength, ← hnovel, ← hroom]
    rwa [hget₄, hvtable₃, List.length_append] at hi
  · intro j m hm
    rw [hparent', hbase', hnew₆ hnovelNodup j m hm, hstart]
    simp only [slotOffset, slotSize]
    omega
  · rw [hsize, hblank]
    rfl
  · exact fun m hm => hunnamed m fun hmem => happart m hmem m hm rfl
  · intro m hm
    rw [List.mem_append]
    by_cases hmem : m ∈ ownRefs novel overridden inherited
    · exact .inl hmem
    · exact .inr (hknown m (hunnamed m hmem ▸ hm))

/-! ### Names and methods -/

theorem finish_shape {parcel : Nat} (h : (finish parcel s novel).Gives w u w')
    (hslot : w.slots s.slot = some c) (hc : c < w.classes.length) :
    w'.classes.length = w.classes.length ∧ w'.slots = w.slots ∧ w'.offsets = w.offsets ∧
      (∀ d : Nat, d ≠ c → w'.get d = w.get d) ∧
      w'.get c =
        { w.get c with name? := some s.name, methods? := some (novel.map w.methodOf) } := by
  obtain ⟨w₁, b, hw₁, hregister⟩ := finish_steps h hslot
  obtain ⟨hbeside, hoffsets, hself, -⟩ := Beside.of_modify hc rfl rfl rfl rfl hw₁
  obtain ⟨r, rfl⟩ := bindName_registry hregister
  exact ⟨hbeside.length, hbeside.slots, hoffsets, hbeside.get, hself⟩

/-- Every class of a parcel lists its share of the new methods once all of them are finished. -/
theorem finishAll_shape {parcel : Nat} (h : (finishAll parcel specs novel).Gives w u w')
    (hslots : ∀ (k : Nat) s, specs[k]? = some s → w.slots s.slot = some (n + k))
    (hlength : n + specs.length ≤ w.classes.length) :
    (∀ (k : Nat) s, specs[k]? = some s →
        (w'.get (n + k)).methods = (share (·.numNovel) specs novel k).map w.methodOf) ∧
      (∀ d : Nat, d < n → w'.get d = w.get d) ∧ w'.classes.length = w.classes.length ∧
      w'.slots = w.slots ∧ w'.offsets = w.offsets ∧
      ∀ d : Nat, ∃ name? methods?,
        w'.get d = { w.get d with name? := name?, methods? := methods? } := by
  induction specs generalizing w n novel with
  | nil =>
    obtain ⟨-, rfl⟩ := (Step.gives_pure _ _ _ _).1 h
    exact ⟨fun k s hk => by simp at hk, fun _ _ => rfl, rfl, rfl, rfl, fun _ => ⟨_, _, rfl⟩⟩
  | cons s rest ih =>
    obtain ⟨_, w₁, h₁, hrest⟩ := (Step.gives_bind _ _ _ _ _).1 h
    rw [List.length_cons] at hlength
    have hslot : w.slots s.slot = some n := hslots 0 s rfl
    obtain ⟨hlength₁, hslots₁, hoffsets₁, hget₁, hself₁⟩ := finish_shape h₁ hslot (by omega)
    obtain ⟨hmethods', hget', hlength', hslots', hoffsets', hfields'⟩ := ih (n := n + 1) hrest
      (fun k t hk => by rw [hslots₁, hslots (k + 1) t hk, Nat.add_comm k 1, Nat.add_assoc])
      (by omega)
    refine ⟨fun k t hk => ?_, fun d hd => ?_, hlength'.trans hlength₁, hslots'.trans hslots₁,
      hoffsets'.trans hoffsets₁, fun d => ?_⟩
    · cases k with
      | zero =>
        obtain rfl : s = t := Option.some.inj hk
        rw [Nat.add_zero, hget' n (Nat.lt_succ_self n), hself₁]
        rfl
      | succ k =>
        have hmethodOf : w₁.methodOf = w.methodOf := by
          funext m
          unfold methodOf
          rw [hslots₁, hoffsets₁]
        rw [share_succ, ← hmethodOf, Nat.add_comm k 1, ← Nat.add_assoc]
        exact hmethods' k t hk
    · rw [hget' d (by omega), hget₁ d (Nat.ne_of_lt hd)]
    · obtain ⟨name?, methods?, hd⟩ := hfields' d
      refine ⟨name?, methods?, hd.trans ?_⟩
      by_cases hdn : d = n
      · rw [hdn, hself₁]
      · rw [hget₁ d hdn]

end World

end ObjectSystem
