import ObjectSystem.Core
import ObjectSystem.Proofs.Class.Shape

/-! # The layout of parcels

A class that was completed keeps its shape while the other classes of its parcel are completed and
finished, and while any number of parcels come behind it (`Bootstrapped`).  So of every class in a
world it is known from the specs alone where its slots are and what is in them
(`vtable_extends_parent`). -/

namespace ObjectSystem

namespace World

variable {w w' : World} {c n : Nat} {u : Unit} {s : ClassSpec} {specs : List ClassSpec}
  {novel : List NovelSpec} {overridden : List OverriddenSpec} {inherited : List InheritedSpec}
  {known : List MethodRef}

/-! ### The classes of a parcel -/

/-- The classes of a parcel are in shape once all of them are completed. -/
theorem completeAll_shape {parcel : Nat}
    (h : (completeAll parcel specs novel overridden inherited).Gives w u w')
    (hpub : Published w n specs)
    (hsizes : ∀ d : Nat, d < n → (w.get d).classSize = slotOffset (w.get d).vtable.length)
    (hcount : (specs.map (·.numNovel)).sum ≤ novel.length)
    (hhook : ∀ hook, w.hook = some hook → hook.OnlyFills)
    (hknown : ∀ m, w.offsets m ≠ 0 → m ∈ known)
    (honce : (namedRefs specs novel overridden inherited ++ known).Nodup) :
    (∀ (k : Nat) s, specs[k]? = some s → Shaped w' (n + k) s
        (share (·.numNovel) specs novel k) (share (·.numOverridden) specs overridden k)) ∧
      (∀ d : Nat, d < n → w'.get d = w.get d) ∧ w'.classes.length = w.classes.length ∧
      w'.slots = w.slots ∧ (∀ m, w.offsets m ≠ 0 → w'.offsets m = w.offsets m) ∧
      ∀ m, w'.offsets m ≠ 0 → m ∈ namedRefs specs novel overridden inherited ++ known := by
  induction specs generalizing w n novel overridden inherited known with
  | nil =>
    obtain ⟨-, rfl⟩ := (Step.gives_pure _ _ _ _).1 h
    exact ⟨fun k s hk => by simp at hk, fun _ _ => rfl, rfl, rfl, fun _ _ => rfl, hknown⟩
  | cons s rest ih =>
    obtain ⟨_, w₁, h₁, hrest⟩ := (Step.gives_bind _ _ _ _ _).1 h
    have hlength := hpub.length_eq
    obtain ⟨hslot, hparent, hblank, hpub⟩ := hpub
    rw [List.map_cons, List.sum_cons] at hcount
    rw [List.length_cons] at hlength
    have hperm : (namedRefs (s :: rest) novel overridden inherited ++ known).Perm
        (namedRefs rest (novel.drop s.numNovel) (overridden.drop s.numOverridden)
            (inherited.drop s.numInherited) ++
          (ownRefs (novel.take s.numNovel) (overridden.take s.numOverridden)
            (inherited.take s.numInherited) ++ known)) := by
      rw [namedRefs, ← List.append_assoc]
      exact List.perm_append_comm.append_right known
    rw [hperm.nodup_iff] at honce
    obtain ⟨hshaped, hbeside, hsize, hsame, hnamed⟩ := complete_shape h₁ hslot (by omega) hparent
      hblank hsizes (by rw [List.length_take]; omega) hhook hknown (List.nodup_append.1 honce).2.1
    have hsizes₁ : ∀ d : Nat, d < n + 1 →
        (w₁.get d).classSize = slotOffset (w₁.get d).vtable.length := by
      intro d hd
      by_cases hdn : d = n
      · rw [hdn]
        exact hshaped.size
      · rw [hbeside.get d hdn]
        exact hsizes d (by omega)
    obtain ⟨hshaped', hget', hlength', hslots', hsame', hnamed'⟩ := ih hrest
      (hpub.beside hbeside (Nat.lt_succ_self _) hsize) hsizes₁ (by rw [List.length_drop]; omega)
      (hbeside.hook ▸ hhook) hnamed honce
    have hkept : Kept (n + 1) w₁ w' := .of_get hget' (fun t d hd => hslots' ▸ hd) hsame'
    refine ⟨fun k t hk => ?_, fun d hd => ?_, hlength'.trans hbeside.length,
      hslots'.trans hbeside.slots, fun m hm => ?_, fun m hm => hperm.mem_iff.2 (hnamed' m hm)⟩
    · cases k with
      | zero =>
        obtain rfl : s = t := Option.some.inj hk
        exact hshaped.kept hkept (Nat.lt_succ_self n)
      | succ k =>
        rw [share_succ, share_succ, Nat.add_comm k 1, ← Nat.add_assoc]
        exact hshaped' k t hk
    · rw [hget' d (by omega), hbeside.get d (Nat.ne_of_lt hd)]
    · have hstill := hsame m (hknown m hm)
      rw [hsame' m (hstill ▸ hm), hstill]

/-! ### Parcels -/

/-- What is told of a method: its name, its callback, and its offset. -/
def outline (m : Method) : String × Option Code × Nat := (m.name, m.callback, m.offset)

theorem named_append (history : List ParcelSpec) (p : ParcelSpec) :
    ((history ++ [p]).flatMap ParcelSpec.named).Perm
      (p.named ++ history.flatMap ParcelSpec.named) := by
  rw [List.flatMap_append, List.flatMap_singleton]
  exact List.perm_append_comm

/-- The worlds that come about by bootstrapping parcels one after the other. -/
inductive Bootstrapped : List ParcelSpec → World → Prop
  /-- In the beginning there are no classes. -/
  | start {w : World} (classes : w.classes = []) (slots : ∀ t, w.slots t = none)
    (offsets : ∀ m, w.offsets m = 0) : Bootstrapped [] w
  /-- A parcel with enough new methods is bootstrapped, and no reference is named twice in all. -/
  | bootstrap {history : List ParcelSpec} {w w' : World} {p : ParcelSpec} {n : Nat}
    (before : Bootstrapped history w) (call : (World.bootstrap p).Gives w n w')
    (hook : ∀ hook, w.hook = some hook → hook.OnlyFills)
    (enough : (p.classes.map (·.numNovel)).sum ≤ p.novel.length)
    (once : ((history ++ [p]).flatMap ParcelSpec.named).Nodup) : Bootstrapped (history ++ [p]) w'
  /-- Something is done that has nothing to do with classes. -/
  | aside {history : List ParcelSpec} {w w' : World} (before : Bootstrapped history w)
    (classes : w'.classes = w.classes) (slots : w'.slots = w.slots)
    (offsets : w'.offsets = w.offsets) : Bootstrapped history w'

/-- The class in the slot of a spec is in shape, and lists its share of the new methods. -/
def Formed (w : World) (p : ParcelSpec) (k : Nat) (s : ClassSpec) (c : Nat) : Prop :=
  Shaped w c s (share (·.numNovel) p.classes p.novel k)
      (share (·.numOverridden) p.classes p.overridden k) ∧
    (w.get c).methods.map outline = (share (·.numNovel) p.classes p.novel k).map fun m =>
      (m.method.name, m.callback, w.offsets m.method)

/-- The classes of a world are those of some parcels, all of them formed. -/
structure Complete (history : List ParcelSpec) (w : World) : Prop where
  slots : SlotsInside w
  named : ∀ m, w.offsets m ≠ 0 → m ∈ history.flatMap ParcelSpec.named
  formed : ∀ p ∈ history, ∀ (k : Nat) s, p.classes[k]? = some s →
    ∃ c : Nat, c < w.classes.length ∧ Formed w p k s c
  covered : ∀ c : Nat, c < w.classes.length → ∃ p ∈ history, ∃ (k : Nat) (s : ClassSpec),
    p.classes[k]? = some s ∧ Formed w p k s c

theorem Formed.kept {p : ParcelSpec} {k : Nat} (h : Formed w p k s c) (hk : Kept n w w')
    (hc : c < n) (hmethods : (w'.get c).methods = (w.get c).methods) : Formed w' p k s c := by
  refine ⟨h.1.kept hk hc, ?_⟩
  rw [hmethods, h.2]
  refine List.map_congr_left fun m hm => ?_
  have hset : w.offsets m.method ≠ 0 := by
    obtain ⟨j, hj⟩ := List.mem_iff_getElem?.1 hm
    rw [h.1.introduced j m hj, h.1.above]
    simp only [slotOffset, vtableOffset]
    omega
  rw [hk.offsets _ hset]

/-- The classes of a parcel come behind those that there were, all of them formed, and only the
references that they name are given offsets. -/
structure Forms (p : ParcelSpec) (known : List MethodRef) (w w' : World) : Prop where
  formed : ∀ (k : Nat) s, p.classes[k]? = some s → Formed w' p k s (w.classes.length + k)
  length_eq : w'.classes.length = w.classes.length + p.classes.length
  old : ∀ d : Nat, d < w.classes.length → w'.get d = w.get d
  kept : Kept w.classes.length w w'
  slotsInside : SlotsInside w'
  named : ∀ m, w'.offsets m ≠ 0 → m ∈ p.named ++ known

/-- Bootstrapping a parcel forms its classes, if the sizes of those that there are fit their vtables
and no reference has an offset that is not known. -/
theorem bootstrap_forms {p : ParcelSpec} (hs : SlotsInside w)
    (hsizes : ∀ d : Nat, d < w.classes.length →
      (w.get d).classSize = slotOffset (w.get d).vtable.length)
    (hknown : ∀ m, w.offsets m ≠ 0 → m ∈ known)
    (h : (World.bootstrap p).Gives w n w') (hhook : ∀ hook, w.hook = some hook → hook.OnlyFills)
    (hcount : (p.classes.map (·.numNovel)).sum ≤ p.novel.length)
    (honce : (p.named ++ known).Nodup) : Forms p known w w' := by
  obtain ⟨parcel, w₁, w₂, hboth, hinside₁, -, hpub, h₂, h₃⟩ := bootstrap_passes h hs
  have hsizes₁ : ∀ d : Nat, d < w.classes.length →
      (w₁.get d).classSize = slotOffset (w₁.get d).vtable.length := by
    intro d hd
    rw [hboth.get d hd]
    exact hsizes d hd
  obtain ⟨hshaped, hget₂, hlength₂, hslots₂, hsame₂, hnamed₂⟩ := completeAll_shape h₂ hpub hsizes₁
    hcount (hboth.hook ▸ hhook) (hboth.offsets ▸ hknown) honce
  have hlength : w₂.classes.length = w.classes.length + p.classes.length :=
    hlength₂.trans hpub.length_eq
  obtain ⟨hmethods, hget₃, hlength₃, hslots₃, hoffsets₃, hfields₃⟩ := finishAll_shape h₃
    (fun k s hk => (hshaped k s hk).slot) (Nat.le_of_eq hlength.symm)
  have hkept₃ : Kept w₂.classes.length w₂ w' := .of_fields (fun d _ => hfields₃ d)
    (fun t d hd => hslots₃ ▸ hd) fun m _ => congrFun hoffsets₃ m
  refine ⟨fun k s hk => ?_, hlength₃.trans hlength, fun d hd => ?_, ?_, fun t c ht => ?_,
    fun m hm => hnamed₂ m (hoffsets₃ ▸ hm)⟩
  · have hlt : k < p.classes.length := (List.getElem?_eq_some_iff.1 hk).1
    refine ⟨(hshaped k s hk).kept hkept₃ (by omega), ?_⟩
    rw [hmethods k s hk, List.map_map, hoffsets₃]
    rfl
  · rw [hget₃ d hd, hget₂ d hd, hboth.get d hd]
  · exact ((Kept.of_get hboth.get hboth.slots fun m _ => congrFun hboth.offsets m).trans
      (.of_get hget₂ (fun t d hd => hslots₂ ▸ hd) hsame₂)).trans (hkept₃.mono (by omega))
  · rw [hslots₃, hslots₂] at ht
    rw [hlength₃, hlength₂]
    exact hinside₁ t c ht

/-- Bootstrapping one more parcel leaves a world that is complete again. -/
theorem Complete.bootstrap {history : List ParcelSpec} {p : ParcelSpec} (hw : Complete history w)
    (h : (World.bootstrap p).Gives w n w') (hhook : ∀ hook, w.hook = some hook → hook.OnlyFills)
    (hcount : (p.classes.map (·.numNovel)).sum ≤ p.novel.length)
    (honce : ((history ++ [p]).flatMap ParcelSpec.named).Nodup) : Complete (history ++ [p]) w' := by
  have hsizes : ∀ d : Nat, d < w.classes.length →
      (w.get d).classSize = slotOffset (w.get d).vtable.length := by
    intro d hd
    obtain ⟨_, -, _, s, -, hformed⟩ := hw.covered d hd
    exact hformed.1.size
  have hperm := named_append history p
  obtain ⟨hformed, hlength, hold, hkept, hinside, hnamed⟩ :=
    bootstrap_forms hw.slots hsizes hw.named h hhook hcount (hperm.nodup_iff.1 honce)
  refine ⟨hinside, fun m hm => hperm.mem_iff.2 (hnamed m hm), fun q hq k s hk => ?_, fun c hc => ?_⟩
  · rcases List.mem_append.1 hq with hq | hq
    · obtain ⟨c, hc, hformed⟩ := hw.formed q hq k s hk
      exact ⟨c, by omega, hformed.kept hkept hc (congrArg Descriptor.methods (hold c hc))⟩
    · obtain rfl := List.mem_singleton.1 hq
      have hlt : k < q.classes.length := (List.getElem?_eq_some_iff.1 hk).1
      exact ⟨_, by omega, hformed k s hk⟩
  · by_cases hlt : c < w.classes.length
    · obtain ⟨q, hq, k, s, hk, hformed⟩ := hw.covered c hlt
      exact ⟨q, List.mem_append_left _ hq, k, s, hk,
        hformed.kept hkept hlt (congrArg Descriptor.methods (hold c hlt))⟩
    · have hk := List.getElem?_eq_getElem (l := p.classes) (i := c - w.classes.length) (by omega)
      refine ⟨p, List.mem_append_right _ (List.mem_singleton_self p), _, _, hk, ?_⟩
      have hformed := hformed _ _ hk
      rwa [Nat.add_sub_cancel' (Nat.le_of_not_lt hlt)] at hformed

theorem Bootstrapped.complete {history : List ParcelSpec} (h : Bootstrapped history w) :
    Complete history w := by
  induction h with
  | start classes slots offsets =>
    refine ⟨fun t c ht => ?_, fun m hm => absurd (offsets m) hm, fun _ hp => (by cases hp),
      fun c hc => ?_⟩
    · rw [slots] at ht
      cases ht
    · rw [classes] at hc
      cases hc
  | bootstrap _ call hook enough once ih => exact ih.bootstrap call hook enough once
  | @aside history w w' _ classes slots offsets ih =>
    have hget : ∀ d, w'.get d = w.get d := fun d => by unfold World.get; rw [classes]
    have hformed : ∀ p k s c, c < w.classes.length → Formed w p k s c → Formed w' p k s c :=
      fun p k s c hc hf => hf.kept (.of_get (fun d _ => hget d) (fun t d hd => slots ▸ hd)
        fun m _ => congrFun offsets m) hc (congrArg Descriptor.methods (hget c))
    refine ⟨fun t c ht => ?_, fun m hm => ih.named m (offsets ▸ hm), fun p hp k s hk => ?_,
      fun c hc => ?_⟩
    · rw [slots] at ht
      rw [classes]
      exact ih.slots t c ht
    · obtain ⟨c, hc, hf⟩ := ih.formed p hp k s hk
      exact ⟨c, classes ▸ hc, hformed p k s c hc hf⟩
    · rw [classes] at hc
      obtain ⟨p, hp, k, s, hk, hf⟩ := ih.covered c hc
      exact ⟨p, hp, k, s, hk, hformed p k s c hc hf⟩

/-- After any parcels were bootstrapped, every class is in the slot of one of their specs, and every
spec has its class.  The class has the slots of its parent and as many more as it introduces
methods.  A slot of the parent's holds the last function of the class that overrides what is there,
or else what the parent has.  The new methods have the places behind these, in order; they are the
methods that the class lists. -/
theorem vtable_extends_parent {history : List ParcelSpec} (h : Bootstrapped history w) :
    (∀ c : Nat, c < w.classes.length → ∃ p ∈ history, ∃ (k : Nat) (s : ClassSpec),
      p.classes[k]? = some s ∧ w.slots s.slot = some c) ∧
    ∀ p ∈ history, ∀ (k : Nat) s, p.classes[k]? = some s →
      ∃ c : Nat, w.slots s.slot = some c ∧ c < w.classes.length ∧
        (w.get c).parent = s.parent.bind w.slots ∧
        (∀ t, s.parent = some t → ∃ p : Nat, w.slots t = some p ∧ p < c) ∧
        (w.get c).vtable.length = (w.slotsAbove (w.get c).parent).length + s.numNovel ∧
        (w.get c).classSize = vtableOffset + slotSize * (w.get c).vtable.length ∧
        (∀ i < (w.slotsAbove (w.get c).parent).length, (w.get c).vtable[i]? = some
          ((overriding w.offsets (share (·.numOverridden) p.classes p.overridden k) i).or
            (w.slotsAbove (w.get c).parent)[i]?.join)) ∧
        (share (·.numNovel) p.classes p.novel k).length = s.numNovel ∧
        (∀ (j : Nat) m, (share (·.numNovel) p.classes p.novel k)[j]? = some m →
          w.offsets m.method = w.baseSize (w.get c).parent + slotSize * j ∧
            (w.get c).vtable[(w.slotsAbove (w.get c).parent).length + j]? = some (some m.code) ∧
            (w.get c).slot (w.offsets m.method) = .ok (some m.code)) ∧
        (w.get c).methods.map outline =
          (share (·.numNovel) p.classes p.novel k).mapIdx fun j m =>
            (m.method.name, m.callback, w.baseSize (w.get c).parent + slotSize * j) := by
  have hcomplete := h.complete
  constructor
  · intro c hc
    obtain ⟨p, hp, k, s, hk, hformed⟩ := hcomplete.covered c hc
    exact ⟨p, hp, k, s, hk, hformed.1.slot⟩
  · intro p hp k s hk
    obtain ⟨c, hc, hshaped, hlisted⟩ := hcomplete.formed p hp k s hk
    refine ⟨c, hshaped.slot, hc, hshaped.parent, hshaped.older, ?_, hshaped.size, fun i hi => ?_,
      hshaped.numNovel, fun j m hm => ?_, ?_⟩
    · rw [hshaped.vtable, List.length_append, List.length_mapIdx, List.length_map,
        hshaped.numNovel]
    · rw [hshaped.vtable, List.getElem?_append_left (by rwa [List.length_mapIdx]),
        List.getElem?_mapIdx, List.getElem?_eq_getElem hi]
      rfl
    · have hslot : (w.get c).vtable[(w.slotsAbove (w.get c).parent).length + j]? =
          some (some m.code) := by
        rw [hshaped.vtable, List.getElem?_append_right (by rw [List.length_mapIdx]; omega),
          List.length_mapIdx, Nat.add_sub_cancel_left, List.getElem?_map, hm]
        rfl
      have hoffset : w.offsets m.method =
          slotOffset ((w.slotsAbove (w.get c).parent).length + j) := by
        rw [hshaped.introduced j m hm, hshaped.above]
        simp only [slotOffset, slotSize]
        omega
      refine ⟨hshaped.introduced j m hm, hslot, ?_⟩
      unfold Descriptor.slot
      rw [hoffset, slotIndex?_slotOffset (List.getElem?_eq_some_iff.1 hslot).1]
      simp only [hslot, Option.join_some]
    · rw [hlisted]
      refine List.ext_getElem? fun j => ?_
      rw [List.getElem?_map, List.getElem?_mapIdx]
      cases hm : (share (·.numNovel) p.classes p.novel k)[j]? with
      | none => rfl
      | some m =>
        rw [Option.map_some, Option.map_some, hshaped.introduced j m hm]

end World

namespace Orchard

open World

/-- What a tree bears. -/
def bear : MethodRef := ⟨"Tree.Bear", "Bear", .text⟩

/-- How high a tree is. -/
def height : MethodRef := ⟨"Tree.Height", "Height", .number⟩

/-- What an apple tree bears. -/
def bearApples : MethodRef := ⟨"Apple.Bear", "Bear", .text⟩

/-- The same once more. -/
def bearMore : MethodRef := ⟨"Apple.BearMore", "Bear", .text⟩

/-- How high an apple tree is. -/
def appleHeight : MethodRef := ⟨"Apple.Height", "Height", .number⟩

/-- What only apple trees do. -/
def blossom : MethodRef := ⟨"Apple.Blossom", "Blossom", .text⟩

/-- Trees, and apple trees below them, which replace one method twice. -/
def parcel : ParcelSpec where
  classes :=
    [⟨⟨"Tree"⟩, some .obj, "Tree", 8, none, 2, 0, 0, {}⟩,
      ⟨⟨"Apple"⟩, some ⟨"Tree"⟩, "Apple", 0, none, 1, 2, 1, {}⟩]
  novel :=
    [⟨bear, .custom (.tag 0), none⟩, ⟨height, .custom (.constant 4), none⟩,
      ⟨blossom, .custom (.tag 1), some (.custom (.tag 2))⟩]
  overridden := [⟨bearApples, bear, .custom (.tag 3)⟩, ⟨bearMore, bear, .custom (.tag 4)⟩]
  inherited := [⟨appleHeight, height⟩]

/-- The world with the core classes. -/
def ground : World := (bootstrap Core.parcel {}).state

/-- The world with trees as well. -/
def trees : World := (bootstrap parcel ground).state

theorem bootstrapped_trees : Bootstrapped [Core.parcel, parcel] trees := by
  have hcore : (bootstrap Core.parcel).Gives {} 1 ground := ⟨by decide +kernel, rfl⟩
  have htrees : (bootstrap parcel).Gives ground 2 trees := ⟨by decide +kernel, rfl⟩
  have hground : Bootstrapped ([] ++ [Core.parcel]) ground :=
    .bootstrap (.start rfl (fun _ => rfl) fun _ => rfl) hcore (fun hook h => by cases h)
      (by decide) (by decide +kernel)
  exact .bootstrap hground htrees
    (fun hook h => absurd h (Option.eq_none_iff_forall_ne_some.1 (by decide +kernel) hook))
    (by decide) (by decide +kernel)

/-- Apple trees have one slot more than trees.  The last replacement stands, and what only they do
is behind what trees do. -/
theorem vtable_extends_parent_apple :
    trees.slots ⟨"Apple"⟩ = some 6 ∧
      (trees.get 6).vtable.length = (trees.get 5).vtable.length + 1 ∧
      (trees.get 6).vtable[4]? = some (some (.custom (.tag 4))) ∧
      trees.offsets blossom = (trees.get 5).classSize ∧
      (trees.get 6).slot (trees.offsets blossom) = .ok (some (.custom (.tag 1))) := by
  obtain ⟨c, hslot, -, hparent, -, hlength, -, habove, -, hnovel, -⟩ :=
    (vtable_extends_parent bootstrapped_trees).2 parcel (by simp) 1 _ rfl
  have hc : trees.slots ⟨"Apple"⟩ = some 6 := by decide +kernel
  obtain rfl : c = 6 := Option.some.inj (hslot.symm.trans hc)
  have htree : (trees.get 6).parent = some 5 := by decide +kernel
  rw [htree] at hlength habove hnovel
  obtain ⟨hoffset, -, hblossom⟩ := hnovel 0 ⟨blossom, .custom (.tag 1), some (.custom (.tag 2))⟩
    (by decide +kernel)
  refine ⟨hc, hlength, ?_, hoffset, hblossom⟩
  rw [habove 4 (by decide +kernel)]
  decide +kernel

end Orchard

end ObjectSystem
