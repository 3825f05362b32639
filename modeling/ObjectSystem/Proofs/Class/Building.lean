import Mathlib.Algebra.Ring.Nat
import ObjectSystem.Proofs.Class.Completing
import ObjectSystem.Proofs.Registry

/-! # Building the classes of a parcel

A parcel that is bootstrapped adds an entry for each of its classes, made of the shares of methods
that it takes (`Ledger.enter`).  If no reference is named twice, and what is overridden or kept was
named by a proper ancestor, the world bears out the larger ledger (`bootstrap_standing`).

Beside what a ledger tells of a world, `Standing` says that slots and names lead to classes only,
and that every class lists the methods that it introduced. -/

namespace ObjectSystem

namespace Ledger

/-- The ledger with the classes of a parcel, each with its shares of the methods. -/
def enter (slots : ClassSlot → Option ClassId) : List ClassSpec → List NovelSpec →
    List OverriddenSpec → List InheritedSpec → Ledger → Ledger
  | [], _, _, _, L => L
  | s :: rest, novel, overridden, inherited, L =>
    enter slots rest (novel.drop s.numNovel) (overridden.drop s.numOverridden)
      (inherited.drop s.numInherited)
      (.built slots s (novel.take s.numNovel) (overridden.take s.numOverridden)
        (inherited.take s.numInherited) :: L)

/-- Slots after classes, numbered from a number on, were put into theirs. -/
def fillSlots (slots : ClassSlot → Option ClassId) : Nat → List ClassSpec → ClassSlot →
    Option ClassId
  | _, [] => slots
  | k, s :: rest => fillSlots (fun t => if t = s.slot then some k else slots t) (k + 1) rest

/-- The ledger after a parcel is bootstrapped. -/
def withParcel (L : Ledger) (w : World) (p : ParcelSpec) : Ledger :=
  L.enter (fillSlots w.slots L.length p.classes) p.classes p.novel p.overridden p.inherited

variable {L : Ledger} {slots : ClassSlot → Option ClassId} {specs : List ClassSpec}
  {novel : List NovelSpec} {overridden : List OverriddenSpec} {inherited : List InheritedSpec}

theorem suffix_enter : L <:+ enter slots specs novel overridden inherited L := by
  induction specs generalizing novel overridden inherited L with
  | nil => exact List.suffix_rfl
  | cons s rest ih => exact (List.suffix_cons _ _).trans ih

theorem length_enter :
    (enter slots specs novel overridden inherited L).length = L.length + specs.length := by
  induction specs generalizing novel overridden inherited L with
  | nil => rfl
  | cons s rest ih =>
    rw [enter, ih, List.length_cons, List.length_cons]
    omega

end Ledger

/-- The function of the host that may take the place of a method, and where it would go. -/
def Method.patch (m : Method) : Option Code × Nat := (m.callback, m.offset)

namespace World

variable {L : Ledger} {w w' w'' : World} {u : Unit} {c k : Nat} {specs : List ClassSpec}
  {novel : List NovelSpec} {overridden : List OverriddenSpec} {inherited : List InheritedSpec}

/-! ### The first pass -/

/-- Slots lead to classes only. -/
def SlotsInside (w : World) : Prop := ∀ t, ∀ c : Nat, w.slots t = some c → c < w.classes.length

/-- The last classes of a world, from a number on, are blank ones for some specs, each behind its
parent. -/
def Published (w : World) : Nat → List ClassSpec → Prop
  | k, [] => w.classes.length = k
  | k, s :: rest =>
    w.slots s.slot = some k ∧ (∀ t, s.parent = some t → ∃ c : Nat, w.slots t = some c ∧ c < k) ∧
      w.get k = .blank (w.baseSize (s.parent.bind w.slots) + s.numNovel * slotSize) ∧
      Published w (k + 1) rest

/-- Classes were added, and slots filled that were empty. -/
structure Extends (w w' : World) : Prop where
  length_le : w.classes.length ≤ w'.classes.length
  get : ∀ c : Nat, c < w.classes.length → w'.get c = w.get c
  slots : ∀ t c, w.slots t = some c → w'.slots t = some c
  offsets : w'.offsets = w.offsets
  registry : w'.registry = w.registry
  hook : w'.hook = w.hook

theorem Extends.refl (w : World) : Extends w w :=
  ⟨Nat.le_refl _, fun _ _ => rfl, fun _ _ h => h, rfl, rfl, rfl⟩

theorem Extends.trans (h : Extends w w') (h' : Extends w' w'') : Extends w w'' where
  length_le := Nat.le_trans h.length_le h'.length_le
  get c hc := (h'.get c (Nat.lt_of_lt_of_le hc h.length_le)).trans (h.get c hc)
  slots t c ht := h'.slots t c (h.slots t c ht)
  offsets := h'.offsets.trans h.offsets
  registry := h'.registry.trans h.registry
  hook := h'.hook.trans h.hook

theorem get_append (w : World) (d : Descriptor) (slots : ClassSlot → Option ClassId) (c : Nat) :
    ({ w with classes := w.classes ++ [d], slots := slots } : World).get c =
      if c = w.classes.length then d else w.get c := by
  unfold World.get
  by_cases hc : c = w.classes.length
  · simp [hc]
  · rw [if_neg hc, List.getElem?_append]
    by_cases hlt : c < w.classes.length
    · rw [if_pos hlt]
    · rw [if_neg hlt, List.getElem?_eq_none (Nat.le_of_not_lt hlt)]
      rw [List.getElem?_eq_none (by rw [List.length_singleton]; omega)]

theorem Extends.preserves (h : Extends w w') (hL : L.length ≤ w.classes.length) :
    Preserves L w w' :=
  .of_get h.length_le (fun c hc => h.get c (Nat.lt_of_lt_of_le hc hL)) fun m _ =>
    congrFun h.offsets m

theorem publish_gives {s : ClassSpec} (h : (publish s).Gives w u w') (hs : SlotsInside w) :
    Extends w w' ∧ SlotsInside w' ∧ w'.classes.length = w.classes.length + 1 ∧
      (w'.slots = fun t => if t = s.slot then some w.classes.length else w.slots t) ∧
      (∀ t, s.parent = some t → ∃ c : Nat, w.slots t = some c ∧ c < w.classes.length) ∧
      w'.get w.classes.length =
        .blank (w.baseSize (s.parent.bind w.slots) + s.numNovel * slotSize) := by
  have hsteps : w.slots s.slot = none ∧ (∀ t, s.parent = some t → ∃ c, w.slots t = some c) ∧
      w' = { w with
        classes := w.classes ++
          [.blank (w.baseSize (s.parent.bind w.slots) + s.numNovel * slotSize)]
        slots := fun t => if t = s.slot then some w.classes.length else w.slots t } := by
    unfold publish at h
    cases hp : s.parent with
    | none =>
      simp only [hp, Step.gives_bind, Step.gives_pure, Step.gives_get] at h
      obtain ⟨_, _, ⟨rfl, rfl⟩, _, w₁, ⟨rfl, rfl⟩, h⟩ := h
      cases hslot : w₁.slots s.slot with
      | some c => simp [hslot] at h
      | none =>
        simp only [hslot, Option.isSome_none, Bool.false_eq_true, if_false, Step.gives_bind,
          Step.gives_set, gives_fillSlot] at h
        obtain ⟨_, _, rfl, rfl⟩ := h
        exact ⟨rfl, fun t ht => (by cases ht), rfl⟩
    | some t =>
      simp only [hp, Step.gives_bind, Step.gives_gets, Step.gives_get, gives_slotClass] at h
      obtain ⟨p, _, ⟨hparent, rfl⟩, _, _, ⟨rfl, rfl⟩, _, w₁, ⟨rfl, rfl⟩, h⟩ := h
      cases hslot : w₁.slots s.slot with
      | some c => simp [hslot] at h
      | none =>
        simp only [hslot, Option.isSome_none, Bool.false_eq_true, if_false, Step.gives_bind,
          Step.gives_set, gives_fillSlot] at h
        obtain ⟨_, _, rfl, rfl⟩ := h
        refine ⟨rfl, fun t' ht' => ⟨p, Option.some.inj ht' ▸ hparent⟩, ?_⟩
        rw [Option.bind_some, hparent]
        rfl
  obtain ⟨hempty, hparent, hw'⟩ := hsteps
  have hget := get_append w (.blank (w.baseSize (s.parent.bind w.slots) + s.numNovel * slotSize))
    fun t => if t = s.slot then some w.classes.length else w.slots t
  rw [← hw'] at hget
  have hslots : w'.slots = fun t => if t = s.slot then some w.classes.length else w.slots t := by
    rw [hw']
  have hlength : w'.classes.length = w.classes.length + 1 := by
    rw [hw']
    exact List.length_append
  refine ⟨⟨by omega, fun c hc => ?_, fun t c ht => ?_, ?_, ?_, ?_⟩, fun t c ht => ?_, hlength,
    hslots, fun t ht => ?_, ?_⟩
  · rw [hget, if_neg (Nat.ne_of_lt hc)]
  · have hne : t ≠ s.slot := by
      intro heq
      rw [heq, hempty] at ht
      cases ht
    rw [hslots]
    exact (if_neg hne).trans ht
  · rw [hw']
  · rw [hw']
  · rw [hw']
  · rw [hslots] at ht
    by_cases hslot : t = s.slot
    · simp only [if_pos hslot] at ht
      have := Option.some.inj ht
      omega
    · simp only [if_neg hslot] at ht
      have := hs t c ht
      omega
  · obtain ⟨c, hc⟩ := hparent t ht
    exact ⟨c, hc, hs t c hc⟩
  · rw [hget, if_pos rfl]

/-- Publishing makes a blank class for every spec. -/
theorem publishAll_gives (h : (publishAll specs).Gives w u w') (hs : SlotsInside w) :
    Extends w w' ∧ SlotsInside w' ∧ w'.slots = Ledger.fillSlots w.slots w.classes.length specs ∧
      Published w' w.classes.length specs := by
  induction specs generalizing w with
  | nil =>
    obtain ⟨-, rfl⟩ := (Step.gives_pure _ _ _ _).1 h
    exact ⟨.refl _, hs, rfl, rfl⟩
  | cons s rest ih =>
    obtain ⟨_, w₁, h₁, hrest⟩ := (Step.gives_bind _ _ _ _ _).1 h
    obtain ⟨hext, hinside, hlength, hslots, hparent, hblank⟩ := publish_gives h₁ hs
    obtain ⟨hext', hinside', hslots', hpub⟩ := ih hrest hinside
    rw [hlength] at hpub hslots'
    have hslot : w₁.slots s.slot = some w.classes.length := by
      rw [hslots]
      exact if_pos rfl
    rw [hslots] at hslots'
    have hboth := hext.trans hext'
    have hbase : w'.baseSize (s.parent.bind w'.slots) = w.baseSize (s.parent.bind w.slots) := by
      cases hp : s.parent with
      | none => rfl
      | some t =>
        obtain ⟨c, hc, hlt⟩ := hparent t hp
        rw [Option.bind_some, Option.bind_some, hc, hboth.slots t c hc]
        exact congrArg Descriptor.classSize (hboth.get c hlt)
    refine ⟨hboth, hinside', hslots', hext'.slots _ _ hslot, fun t ht => ?_, ?_, hpub⟩
    · obtain ⟨c, hc, hlt⟩ := hparent t ht
      exact ⟨c, hboth.slots t c hc, hlt⟩
    · rw [hext'.get _ (by omega), hblank, hbase]

theorem Published.length_eq (h : Published w k specs) :
    w.classes.length = k + specs.length := by
  induction specs generalizing k with
  | nil => exact h
  | cons s rest ih =>
    have := ih h.2.2.2
    rw [List.length_cons]
    omega

/-! ### The second pass -/

/-- What happens to an older class does not make a published class any different. -/
theorem Published.beside {j : Nat} (h : Published w k specs) (hb : Beside j w w') (hj : j < k)
    (hsize : (w'.get j).classSize = (w.get j).classSize) : Published w' k specs := by
  induction specs generalizing k with
  | nil => exact hb.length.trans h
  | cons s rest ih =>
    obtain ⟨hslot, hparent, hblank, hrest⟩ := h
    have hclassSize : ∀ d, (w'.get d).classSize = (w.get d).classSize := by
      intro d
      by_cases hd : d = j
      · rw [hd, hsize]
      · rw [hb.get d hd]
    have hbase : ∀ parent, w'.baseSize parent = w.baseSize parent := by
      intro parent
      cases parent with
      | none => rfl
      | some p => exact hclassSize p
    refine ⟨hb.slots ▸ hslot, hb.slots ▸ hparent, ?_, ih hrest (by omega)⟩
    rw [hb.get k (by omega), hblank, hbase, hb.slots]

theorem Published.grounded (h : Published w L.length specs) (hL : L.Grounded) :
    (L.enter w.slots specs novel overridden inherited).Grounded := by
  induction specs generalizing L novel overridden inherited with
  | nil => exact hL
  | cons s rest ih =>
    obtain ⟨-, hparent, -, hrest⟩ := h
    refine ih hrest ⟨hL, fun p hp => ?_, fun i hi => by cases hi⟩
    obtain ⟨t, ht, hslot⟩ := Option.bind_eq_some_iff.1 hp
    obtain ⟨c, hc, hlt⟩ := hparent t ht
    obtain rfl : c = p := Option.some.inj (hc.symm.trans hslot)
    exact hlt

/-- Completed classes bear out the entries that they were made of. -/
theorem completeAll_sound {parcel : Nat} {slots : ClassSlot → Option ClassId} (hs : Sound L w)
    (h : (completeAll parcel specs novel overridden inherited).Gives w u w')
    (hslots : w.slots = slots) (hpub : Published w L.length specs)
    (hwf : (L.enter slots specs novel overridden inherited).WellFormed)
    (hcount : (specs.map (·.numNovel)).sum ≤ novel.length)
    (hhook : ∀ hook, w.hook = some hook → hook.OnlyFills) :
    Sound (L.enter slots specs novel overridden inherited) w' ∧ Preserves L w w' ∧
      (∀ c : Nat, c < L.length → w'.get c = w.get c) ∧
      w'.classes.length = w.classes.length ∧ w'.slots = slots ∧ w'.registry = w.registry := by
  induction specs generalizing w L novel overridden inherited with
  | nil =>
    obtain ⟨-, rfl⟩ := (Step.gives_pure _ _ _ _).1 h
    exact ⟨hs, .refl _ _, fun _ _ => rfl, rfl, hslots, rfl⟩
  | cons s rest ih =>
    obtain ⟨_, w₁, h₁, hrest⟩ := (Step.gives_bind _ _ _ _ _).1 h
    have hlength := hpub.length_eq
    obtain ⟨hslot, hparent, hblank, hpub⟩ := hpub
    rw [List.map_cons, List.sum_cons] at hcount
    rw [List.length_cons] at hlength
    rw [Ledger.enter] at hwf
    have hwf₁ := hwf.of_suffix Ledger.suffix_enter
    rw [← hslots] at hwf₁
    obtain ⟨hs₁, hpres, hbeside, hsize⟩ := complete_sound hs h₁ hslot (by omega) hblank hwf₁
      (by rw [List.length_take]; omega) hhook
    rw [hslots] at hs₁
    have hpub₁ := hpub.beside hbeside (Nat.lt_succ_self _) hsize
    obtain ⟨hs', hpres', hget', hlength', hslots', hregistry'⟩ := ih hs₁ hrest
      (hbeside.slots.trans hslots) hpub₁ hwf (by rw [List.length_drop]; omega)
      (hbeside.hook ▸ hhook)
    refine ⟨hs', hpres.trans (hpres'.of_suffix (List.suffix_cons _ _)), fun c hc => ?_,
      hlength'.trans hbeside.length, hslots', hregistry'.trans hbeside.registry⟩
    rw [hget' c (by rw [List.length_cons]; omega), hbeside.get c (Nat.ne_of_lt hc)]

/-! ### The third pass -/

/-- The registry knows classes only. -/
def NamesInside (w : World) : Prop :=
  ∀ r, w.registry = some r → ∀ b ∈ r.bindings, b.value < w.classes.length

/-- A class lists the methods that it introduced, each with its callback and offset. -/
def Listed (L : Ledger) (w : World) (c : Nat) : Prop :=
  (w.get c).methods.map Method.patch =
    (L.entry c).novel.map fun s => (s.callback, w.offsets s.method)

/-- The classes from a number on are in the slots of some specs, and what they introduce are the
shares of those specs. -/
def Due (L : Ledger) (w : World) : Nat → List ClassSpec → List NovelSpec → Prop
  | _, [], _ => True
  | k, s :: rest, novel =>
    w.slots s.slot = some k ∧ k < w.classes.length ∧
      (L.entry k).novel = novel.take s.numNovel ∧
      Due L w (k + 1) rest (novel.drop s.numNovel)

/-- A world bears out the ledger of all of its classes, slots and names lead to classes, and every
class lists its methods. -/
structure Standing (L : Ledger) (w : World) : Prop where
  sound : Sound L w
  length_eq : w.classes.length = L.length
  slots : SlotsInside w
  names : NamesInside w
  listed : ∀ c : Nat, c < L.length → Listed L w c

theorem Due.congr (h : Due L w k specs novel) (hslots : w'.slots = w.slots)
    (hlength : w'.classes.length = w.classes.length) : Due L w' k specs novel := by
  induction specs generalizing k novel with
  | nil => trivial
  | cons s rest ih =>
    obtain ⟨hslot, hk, hnovel, hrest⟩ := h
    exact ⟨hslots ▸ hslot, hlength ▸ hk, hnovel, ih hrest⟩

theorem Listed.preserved (h : Listed L w c) (hp : Preserves L w w')
    (hmethods : (w'.get c).methods = (w.get c).methods) : Listed L w' c := by
  unfold Listed at h ⊢
  rw [hmethods, h]
  refine List.map_congr_left fun s hs => ?_
  rw [hp.offsets _ (Ledger.mem_refs_of_mem_own (List.mem_append_left _ (List.mem_map_of_mem hs)))]

theorem bindName_apply (name : String) (c : ClassId) (w : World) :
    bindName name c w =
      (Registry.register name c
        (w.registry.getD (.new w.hash defaultCapacity))).mapState fun r =>
          { w with registry := some r } := rfl

theorem bindName_registry {name : String} {b : Bool} (h : (bindName name c).Gives w b w') :
    ∃ r, w' = { w with registry := some r } := by
  obtain ⟨_, w₁, hw₁, -, hstate⟩ := (Step.gives_bind _ _ _ _ _).1 h
  replace hw₁ := (Step.gives_modify _ _ _ _).1 hw₁
  have hregistry : w₁.registry =
      some (w.registry.getD (.new w.hash defaultCapacity)) := by rw [hw₁]
  simp only [hregistry] at hstate
  refine ⟨(Registry.register name c (w.registry.getD (.new w.hash
    defaultCapacity))).state, hstate.symm.trans ?_⟩
  rw [hw₁]
  rfl

theorem bindName_gives {name : String} {b : Bool} (h : (bindName name c).Gives w b w')
    (hn : NamesInside w) :
    ∃ r, w' = { w with registry := some r } ∧
      ∀ v ∈ r.bindings, v.value < w.classes.length ∨ b = true ∧ v.value = c := by
  obtain ⟨_, w₁, hw₁, hanswer, hstate⟩ := (Step.gives_bind _ _ _ _ _).1 h
  replace hw₁ := (Step.gives_modify _ _ _ _).1 hw₁
  have hregistry : w₁.registry =
      some (w.registry.getD (.new w.hash defaultCapacity)) := by rw [hw₁]
  simp only [hregistry] at hanswer hstate
  refine ⟨(Registry.register name c (w.registry.getD (.new w.hash
    defaultCapacity))).state, hstate.symm.trans ?_, fun v hv => ?_⟩
  · rw [hw₁]
    rfl
  · rcases Registry.mem_bindings_of_register hv with hv | hv
    · cases hr : w.registry with
      | none =>
        rw [hr] at hv
        simp [Registry.bindings, Registry.new] at hv
      | some r =>
        rw [hr] at hv
        exact .inl (hn r hr v hv)
    · exact .inr ⟨Except.ok.inj (hanswer.symm.trans hv.1), hv.2⟩

theorem NamesInside.lt_of_fetch {name : String} (hn : NamesInside w)
    (h : w.fetchClass name = some c) : c < w.classes.length := by
  obtain ⟨r, hr, hbound⟩ := Option.bind_eq_some_iff.1 h
  obtain ⟨b, hb, rfl⟩ := Registry.exists_of_fetch hbound
  exact hn r hr b hb

theorem NamesInside.refused {name : String} (hn : NamesInside w)
    (h : (bindName name c).Gives w false w') :
    ∃ r, w' = { w with registry := some r } ∧ NamesInside w' := by
  obtain ⟨r, rfl, hr⟩ := bindName_gives h hn
  refine ⟨r, rfl, fun r' hr' v hv => ?_⟩
  obtain rfl := Option.some.inj hr'
  exact (hr v hv).resolve_right fun hb => by cases hb.1

/-- The steps of finishing a class, one world after the other. -/
theorem finish_steps {parcel : Nat} {s : ClassSpec} (h : (finish parcel s novel).Gives w u w')
    (hslot : w.slots s.slot = some c) :
    ∃ w₁ b, w₁ = { w with
        classes := w.classes.modify c fun d =>
          { d with name? := some s.name, methods? := some (novel.map w.methodOf) } } ∧
      (register c).Gives w₁ b w' := by
  unfold finish at h
  simp only [Step.gives_bind, Step.gives_get, gives_slotClass] at h
  obtain ⟨c', _, ⟨hc', rfl⟩, _, w₀, ⟨rfl, rfl⟩, h⟩ := h
  obtain rfl : c' = c := Option.some.inj (hc'.symm.trans hslot)
  by_cases hname : (w₀.get c').name?.isSome
  · simp [hname] at h
  · simp only [hname, Bool.false_eq_true, if_false, Step.gives_bind, gives_modifyClass] at h
    obtain ⟨-, w₁, hw₁, b, w₂, h₂, h₃⟩ := h
    obtain rfl : w' = w₂ := by cases b <;> simpa using h₃
    exact ⟨w₁, b, hw₁, h₂⟩

theorem finish_gives {parcel : Nat} {s : ClassSpec}
    (h : (finish parcel s novel).Gives w u w') (hslot : w.slots s.slot = some c)
    (hc : c < w.classes.length) (hn : NamesInside w) :
    Preserves L w w' ∧ w'.classes.length = w.classes.length ∧ w'.slots = w.slots ∧
      w'.offsets = w.offsets ∧ NamesInside w' ∧ (∀ d : Nat, d ≠ c → w'.get d = w.get d) ∧
      (w'.get c).methods = novel.map w.methodOf := by
  obtain ⟨w₁, b, hw₁, h₂⟩ := finish_steps h hslot
  obtain ⟨hbeside, hoffsets, hself, -⟩ := Beside.of_modify hc rfl rfl rfl rfl hw₁
  have hn₁ : NamesInside w₁ := by
    unfold NamesInside
    rw [hbeside.registry, hbeside.length]
    exact hn
  obtain ⟨r, hw', hr⟩ := bindName_gives h₂ hn₁
  have hget : ∀ d, w'.get d = w₁.get d := fun d => by rw [hw']; rfl
  have hlength : w'.classes.length = w.classes.length := by
    rw [hw']
    exact hbeside.length
  have hsame : ∀ {β : Type} (f : Descriptor → β),
      (∀ d name? methods?, f { d with name? := name?, methods? := methods? } = f d) →
        ∀ d, f (w'.get d) = f (w.get d) := by
    intro β f hf d
    rw [hget]
    by_cases hd : d = c
    · rw [hd, hself]
      exact hf _ _ _
    · rw [hbeside.get d hd]
  refine ⟨⟨Nat.le_of_eq hlength.symm, fun d _ => hsame Descriptor.parent (fun _ _ _ => rfl) d,
    fun d _ => hsame (·.flags.final) (fun _ _ _ => rfl) d,
    fun d _ => hsame Descriptor.vtable (fun _ _ _ => rfl) d,
    fun d _ => hsame Descriptor.classSize (fun _ _ _ => rfl) d, ?_⟩, hlength, ?_, ?_, ?_,
    fun d hd => (hget d).trans (hbeside.get d hd), ?_⟩
  · intro m _
    rw [hw']
    exact congrFun hoffsets m
  · rw [hw']
    exact hbeside.slots
  · rw [hw']
    exact hoffsets
  · intro r' hr' b hb
    rw [hw'] at hr'
    obtain rfl := Option.some.inj hr'
    rw [hlength]
    rcases hr b hb with hlt | ⟨-, heq⟩
    · rwa [hbeside.length] at hlt
    · rw [heq]
      exact hc
  · rw [hget, hself]
    rfl

theorem finishAll_gives {parcel : Nat} (h : (finishAll parcel specs novel).Gives w u w')
    (hdue : Due L w k specs novel) (hn : NamesInside w) :
    Preserves L w w' ∧ w'.classes.length = w.classes.length ∧ w'.slots = w.slots ∧
      w'.offsets = w.offsets ∧ NamesInside w' ∧ (∀ c : Nat, c < k → w'.get c = w.get c) ∧
      ∀ c : Nat, k ≤ c → c < k + specs.length → Listed L w' c := by
  induction specs generalizing w k novel with
  | nil =>
    obtain ⟨-, rfl⟩ := (Step.gives_pure _ _ _ _).1 h
    refine ⟨.refl _ _, rfl, rfl, rfl, hn, fun _ _ => rfl, fun c hk hc => ?_⟩
    rw [List.length_nil] at hc
    omega
  | cons s rest ih =>
    obtain ⟨_, w₁, h₁, hrest⟩ := (Step.gives_bind _ _ _ _ _).1 h
    obtain ⟨hslot, hk, hnovel, hdue⟩ := hdue
    obtain ⟨hpres, hlength, hslots, hoffsets, hn₁, hget, hmethods⟩ := finish_gives h₁ hslot hk hn
    have hdue₁ : Due L w₁ (k + 1) rest (novel.drop s.numNovel) := hdue.congr hslots hlength
    obtain ⟨hpres', hlength', hslots', hoffsets', hn', hget', hlisted⟩ := ih hrest hdue₁ hn₁
    have hself : Listed L w₁ k := by
      unfold Listed
      rw [hmethods, hnovel, hoffsets, List.map_map]
      rfl
    refine ⟨hpres.trans hpres', hlength'.trans hlength, hslots'.trans hslots,
      hoffsets'.trans hoffsets, hn', fun c hc => ?_, fun c hkc hc => ?_⟩
    · rw [hget' c (by omega), hget c (Nat.ne_of_lt hc)]
    · by_cases hck : c = k
      · rw [hck]
        exact hself.preserved hpres' (congrArg Descriptor.methods (hget' k (Nat.lt_succ_self k)))
      · rw [List.length_cons] at hc
        exact hlisted c (by omega) (by omega)

theorem Published.due (h : Published w L.length specs) :
    Due (L.enter w.slots specs novel overridden inherited) w L.length specs novel := by
  induction specs generalizing L novel overridden inherited with
  | nil => trivial
  | cons s rest ih =>
    have hlength := h.length_eq
    rw [List.length_cons] at hlength
    obtain ⟨hslot, -, -, hrest⟩ := h
    refine ⟨hslot, by omega, ?_, ih hrest⟩
    rw [Ledger.enter, Ledger.entry_of_suffix Ledger.suffix_enter (by simp), Ledger.entry_self]
    rfl

theorem bootstrap_steps {p : ParcelSpec} {number : Nat} (h : (bootstrap p).Gives w number w') :
    number = w.parcels + 1 ∧ ∃ w₁ w₂,
      (publishAll p.classes).Gives { w with parcels := w.parcels + 1 } () w₁ ∧
      (completeAll number p.classes p.novel p.overridden p.inherited).Gives w₁ () w₂ ∧
      (finishAll number p.classes p.novel).Gives w₂ () w' := by
  unfold bootstrap at h
  simp only [Step.gives_bind, Step.gives_modify, Step.gives_gets, Step.gives_emit,
    Step.gives_pure] at h
  obtain ⟨-, _, rfl, parcel, w₀, ⟨hparcel, rfl⟩, _, w₁, h₁, _, w₂, h₂, _, w₃, h₃, -, _, rfl, rfl,
    rfl⟩ := h
  exact ⟨hparcel, w₁, w₂, h₁, h₂, h₃⟩

theorem bootstrap_passes {p : ParcelSpec} {n : Nat} (h : (bootstrap p).Gives w n w')
    (hs : SlotsInside w) :
    ∃ parcel w₁ w₂, Extends w w₁ ∧ SlotsInside w₁ ∧
      w₁.slots = Ledger.fillSlots w.slots w.classes.length p.classes ∧
      Published w₁ w.classes.length p.classes ∧
      (completeAll parcel p.classes p.novel p.overridden p.inherited).Gives w₁ () w₂ ∧
      (finishAll parcel p.classes p.novel).Gives w₂ () w' := by
  obtain ⟨-, w₁, w₂, h₁, h₂, h₃⟩ := bootstrap_steps h
  have hstart : Extends w { w with parcels := w.parcels + 1 } :=
    ⟨Nat.le_refl _, fun _ _ => rfl, fun _ _ h => h, rfl, rfl, rfl⟩
  obtain ⟨hext, hinside₁, hslots₁, hpub⟩ := publishAll_gives h₁ hs
  exact ⟨n, w₁, w₂, hstart.trans hext, hinside₁, hslots₁, hpub, h₂, h₃⟩

/-- After a parcel is bootstrapped, the world bears out the ledger with its classes, if its list of
new methods is long enough, no reference is named twice, and what is overridden or kept was named
by an ancestor. -/
theorem bootstrap_standing {p : ParcelSpec} {n : Nat} (hs : Standing L w)
    (h : (bootstrap p).Gives w n w') (hhook : ∀ hook, w.hook = some hook → hook.OnlyFills)
    (hcount : (p.classes.map (·.numNovel)).sum ≤ p.novel.length)
    (honce : (L.withParcel w p).refs.Nodup) (hanchored : (L.withParcel w p).Anchored) :
    Standing (L.withParcel w p) w' := by
  obtain ⟨parcel, w₁, w₂, hboth, hinside₁, hslots₁, hpub, h₂, h₃⟩ := bootstrap_passes h hs.slots
  rw [hs.length_eq] at hslots₁ hpub
  have hpres₁ : Preserves L w w₁ := hboth.preserves (Nat.le_of_eq hs.length_eq.symm)
  have hwf : (L.withParcel w p).WellFormed := by
    refine ⟨honce, hanchored, ?_⟩
    rw [Ledger.withParcel, ← hslots₁]
    exact hpub.grounded hs.sound.wellFormed.grounded
  obtain ⟨hsound, hpres₂, hget₂, hlength₂, hslots₂, hregistry₂⟩ := completeAll_sound
    (hs.sound.preserved hpres₁) h₂ hslots₁ hpub hwf hcount (hboth.hook ▸ hhook)
  have hslots₁₂ : w₂.slots = w₁.slots := hslots₂.trans hslots₁.symm
  have hlength₁ : L.length ≤ w₁.classes.length := by
    rw [← hs.length_eq]
    exact hboth.length_le
  have hn₂ : NamesInside w₂ := by
    intro r hr b hb
    rw [hregistry₂, hboth.registry] at hr
    rw [hlength₂]
    exact Nat.lt_of_lt_of_le (hs.names r hr b hb) hboth.length_le
  have hdue : Due (L.withParcel w p) w₂ L.length p.classes p.novel := by
    rw [Ledger.withParcel, ← hslots₁]
    exact hpub.due.congr hslots₁₂ hlength₂
  obtain ⟨hpres₃, hlength₃, hslots₃, hoffsets₃, hn', hget₃, hlisted⟩ :=
    finishAll_gives h₃ hdue hn₂
  have hlength : (L.withParcel w p).length = L.length + p.classes.length := Ledger.length_enter
  refine ⟨hsound.preserved hpres₃, ?_, ?_, hn', fun c hc => ?_⟩
  · rw [hlength₃, hlength₂, hpub.length_eq, hlength]
  · intro t c ht
    rw [hslots₃, hslots₁₂] at ht
    rw [hlength₃, hlength₂]
    exact hinside₁ t c ht
  · rw [hlength] at hc
    by_cases hold : c < L.length
    · have hkept := (hs.listed c hold).preserved
        (hpres₁.trans (hpres₂.trans (hpres₃.of_suffix Ledger.suffix_enter)))
        (congrArg Descriptor.methods ((hget₃ c hold).trans ((hget₂ c hold).trans
          (hboth.get c (hs.length_eq ▸ hold)))))
      unfold Listed
      rw [Ledger.withParcel, Ledger.entry_of_suffix Ledger.suffix_enter hold]
      exact hkept
    · exact hlisted c (Nat.le_of_not_lt hold) hc

end World

end ObjectSystem
