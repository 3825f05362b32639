import ObjectSystem.Proofs.Class.Layout
import ObjectSystem.Proofs.Class.Subclassing

/-! # The marks of classes

Whether the handles on an instance are counted is told by the flags of its class.  The bootstrap
marks the classes in the slots of classes, methods and truth values, and no other class in a slot.
Classes and methods that can be seen as objects are instances of the classes in these slots
(`Marked`).  This holds through the bootstrap of any parcels and the making of subclasses. -/

namespace ObjectSystem

theorem Ledger.fillSlots_cases {specs : List ClassSpec} {slots : ClassSlot → Option ClassId}
    {n : Nat} {t : ClassSlot} {c : Nat} (h : fillSlots slots n specs t = some c) :
    slots t = some c ∨
      ∃ (k : Nat) (s : ClassSpec), specs[k]? = some s ∧ s.slot = t ∧ c = n + k := by
  induction specs generalizing slots n with
  | nil => exact .inl h
  | cons s rest ih =>
    rcases ih h with hslot | ⟨k, r, hk, hslot, hc⟩
    · by_cases ht : t = s.slot
      · rw [if_pos ht] at hslot
        exact .inr ⟨0, s, rfl, ht.symm, (Option.some.inj hslot).symm⟩
      · rw [if_neg ht] at hslot
        exact .inl hslot
    · exact .inr ⟨k + 1, r, hk, hslot, by omega⟩

namespace World

variable {w w' w'' : World} {c n : Nat} {u : Unit} {s : ClassSpec} {specs : List ClassSpec}
  {novel : List NovelSpec} {overridden : List OverriddenSpec} {inherited : List InheritedSpec}

/-- The marks of the classes in slots are those of the slots, and other classes have the mark from
their parents.  Classes and methods have the classes in their slots, if they have one, and one
handle. -/
structure Marked (w : World) : Prop where
  special : ∀ t (c : Nat), w.slots t = some c → (w.get c).flags.special = t.isSpecial
  source : ∀ c : Nat, (w.get c).flags.special = true →
    (∃ t, w.slots t = some c ∧ t.isSpecial = true) ∨
      ∃ p : Nat, (w.get c).parent = some p ∧ (w.get p).flags.special = true
  metaclass : ∀ c k : Nat, (w.get c).metaclass = some k → w.slots .cls = some k
  methodClass : ∀ c : Nat, ∀ m ∈ (w.get c).methods, ∀ k, m.metaclass = some k →
    w.slots .method = some k
  handles : ∀ c : Nat, (w.get c).handles = 1
  methodHandles : ∀ c : Nat, ∀ m ∈ (w.get c).methods, m.handles = 1

theorem get_of_length_le (hc : w.classes.length ≤ c) : w.get c = .blank 0 := by
  unfold World.get
  rw [List.getElem?_eq_none hc]
  rfl

theorem lt_of_special (h : (w.get c).flags.special = true) : c < w.classes.length := by
  by_contra hc
  rw [get_of_length_le (Nat.le_of_not_lt hc)] at h
  cases h

theorem Marked.of_get (h : Marked w) (hget : ∀ c : Nat, w'.get c = w.get c)
    (hslots : w'.slots = w.slots) : Marked w' where
  special t c ht := by
    rw [hget]
    exact h.special t c (hslots ▸ ht)
  source c hc := by
    simp only [hget, hslots] at hc ⊢
    exact h.source c hc
  metaclass c k hk := hslots ▸ h.metaclass c k (hget c ▸ hk)
  methodClass c m hm k hk := hslots ▸ h.methodClass c m (hget c ▸ hm) k hk
  handles c := hget c ▸ h.handles c
  methodHandles c m hm := h.methodHandles c m (hget c ▸ hm)

/-! ### Bootstrapping -/

/-- Nothing is changed but the vtable of one class, and maybe what is not about classes. -/
structure Refilled (c : Nat) (w w' : World) : Prop extends Beside c w w' where
  self : ∃ vtable : List (Option Code), w'.get c = { w.get c with vtable := vtable }

theorem Refilled.refl (c : Nat) (w : World) : Refilled c w w := ⟨.refl c w, _, rfl⟩

theorem Refilled.trans (h : Refilled c w w') (h' : Refilled c w' w'') : Refilled c w w'' := by
  obtain ⟨vtable, hself⟩ := h.self
  obtain ⟨vtable', hself'⟩ := h'.self
  refine ⟨h.toBeside.trans h'.toBeside, vtable', ?_⟩
  rw [hself', hself]

theorem refilled_install {m : MethodRef} {code : Code} {offset : Nat} (hc : c < w.classes.length)
    (h : (do setOffset m offset; tryModifyClass c (·.install code offset) : Step World Unit).Gives
      w u w') : Refilled c w w' := by
  simp only [Step.gives_bind, gives_setOffset, gives_tryModifyClass] at h
  obtain ⟨-, w₁, hw₁, d, hd, hw'⟩ := h
  obtain ⟨hbeside, -, hself, -⟩ :=
    Beside.of_modify hc (by rw [hw₁]) (by rw [hw₁]) (by rw [hw₁]) (by rw [hw₁]) hw'
  obtain ⟨i, -, -, hset⟩ := Descriptor.install_eq_ok hd
  have hget : w₁.get c = w.get c := by rw [hw₁]; rfl
  refine ⟨hbeside, (w.get c).vtable.set i (some code), ?_⟩
  rw [hself, hset, hget]

theorem refilled_overrideAll (h : (overrideAll c overridden).Gives w u w')
    (hc : c < w.classes.length) : Refilled c w w' := by
  induction overridden generalizing w with
  | nil =>
    obtain ⟨-, rfl⟩ := (Step.gives_pure _ _ _ _).1 h
    exact .refl c _
  | cons o rest ih =>
    unfold overrideAll at h
    simp only [Step.gives_bind, Step.gives_gets] at h
    obtain ⟨offset, w₀, ⟨rfl, rfl⟩, _, w₁, h₁, _, w₂, h₂, hrest⟩ := h
    have hplaced := refilled_install hc ((Step.gives_bind _ _ _ _ _).2 ⟨_, w₁, h₁, h₂⟩)
    exact hplaced.trans (ih hrest (hplaced.length ▸ hc))

theorem refilled_introduceAll {offset : Nat} (h : (introduceAll c offset novel).Gives w u w')
    (hc : c < w.classes.length) : Refilled c w w' := by
  induction novel generalizing w offset with
  | nil =>
    obtain ⟨-, rfl⟩ := (Step.gives_pure _ _ _ _).1 h
    exact .refl c _
  | cons m rest ih =>
    unfold introduceAll at h
    simp only [Step.gives_bind] at h
    obtain ⟨_, w₁, h₁, _, w₂, h₂, hrest⟩ := h
    have hplaced := refilled_install hc ((Step.gives_bind _ _ _ _ _).2 ⟨_, w₁, h₁, h₂⟩)
    exact hplaced.trans (ih hrest (hplaced.length ▸ hc))

/-- What the second pass settles of a class beside its shape. -/
structure Settles (w : World) (s : ClassSpec) (d d' : Descriptor) : Prop where
  parent : d'.parent = s.parent.bind w.slots
  final : d'.flags.final = s.flags.final
  metaclass : d'.metaclass = w.slots .cls
  special : d'.flags.special = s.slot.isSpecial
  handles : d'.handles = d.handles
  methods : d'.methods = d.methods

/-- What is made of a published class, up to its vtable. -/
theorem complete_self {parcel : Nat}
    (h : (complete parcel s novel overridden inherited).Gives w u w')
    (hslot : w.slots s.slot = some c) (hc : c < w.classes.length)
    (hhook : ∀ hook, w.hook = some hook → hook.OnlyFills) :
    Beside c w w' ∧ ∃ vtable,
      w'.get c = { inherit (settle (w.get c) w s (s.parent.bind w.slots) parcel
        (w.varsStart s parcel)) s [] with vtable := vtable } := by
  obtain ⟨w₁, w₂, w₃, w₄, w₅, hw₁, h₂, hw₃, h₄, h₅, h₆⟩ := complete_steps h hslot
  obtain ⟨hbeside₁, -, hself₁, hc₁⟩ :=
    @Beside.of_modify w { w with cells := w.cellsWith s (w.varsStart s parcel) } w₁ c _ hc rfl rfl
      rfl rfl hw₁
  obtain ⟨hbeside₂, -, vtable, -, hself₂⟩ := callHook_gives h₂ hc₁ fun hook hk =>
    hhook hook (hbeside₁.hook ▸ hk)
  obtain ⟨hbeside₃, -, hself₃, hc₃⟩ := Beside.of_modify (hbeside₂.length ▸ hc₁) rfl rfl rfl rfl hw₃
  rw [gives_inheritAll] at h₄
  have hfilled₄ : Refilled c w₃ w₄ := by
    rw [h₄]
    exact ⟨⟨rfl, fun _ _ => rfl, rfl, rfl, rfl⟩, _, rfl⟩
  have hc₄ : c < w₄.classes.length := hfilled₄.length ▸ hc₃
  have hfilled₅ := refilled_overrideAll h₅ hc₄
  have hfilled₆ := refilled_introduceAll h₆ (hfilled₅.length ▸ hc₄)
  have hfilled := (hfilled₄.trans hfilled₅).trans hfilled₆
  obtain ⟨vtable', hself'⟩ := hfilled.self
  refine ⟨((hbeside₁.trans hbeside₂).trans hbeside₃).trans hfilled.toBeside, ?_⟩
  rw [hself', hself₃, hself₂, hself₁]
  exact ⟨_, rfl⟩

theorem complete_settles {parcel : Nat}
    (h : (complete parcel s novel overridden inherited).Gives w u w')
    (hslot : w.slots s.slot = some c) (hc : c < w.classes.length)
    (hhook : ∀ hook, w.hook = some hook → hook.OnlyFills) :
    Beside c w w' ∧ Settles w s (w.get c) (w'.get c) := by
  obtain ⟨hbeside, vtable, hself⟩ := complete_self h hslot hc hhook
  refine ⟨hbeside, ?_⟩
  rw [hself]
  exact ⟨rfl, rfl, rfl, rfl, rfl, rfl⟩

theorem completeAll_settles {parcel : Nat}
    (h : (completeAll parcel specs novel overridden inherited).Gives w u w')
    (hslots : ∀ (k : Nat) s, specs[k]? = some s → w.slots s.slot = some (n + k))
    (hlength : n + specs.length ≤ w.classes.length)
    (hhook : ∀ hook, w.hook = some hook → hook.OnlyFills) :
    (∀ (k : Nat) s, specs[k]? = some s → Settles w s (w.get (n + k)) (w'.get (n + k))) ∧
      (∀ d : Nat, d < n → w'.get d = w.get d) ∧ w'.classes.length = w.classes.length ∧
      w'.slots = w.slots ∧ w'.registry = w.registry := by
  induction specs generalizing w n novel overridden inherited with
  | nil =>
    obtain ⟨-, rfl⟩ := (Step.gives_pure _ _ _ _).1 h
    exact ⟨fun k s hk => by simp at hk, fun _ _ => rfl, rfl, rfl, rfl⟩
  | cons s rest ih =>
    obtain ⟨_, w₁, h₁, hrest⟩ := (Step.gives_bind _ _ _ _ _).1 h
    rw [List.length_cons] at hlength
    have hslot : w.slots s.slot = some n := hslots 0 s rfl
    obtain ⟨hbeside, hsettles⟩ := complete_settles h₁ hslot (by omega) hhook
    obtain ⟨hsettles', hget', hlength', hslots', hregistry'⟩ := ih (n := n + 1) hrest
      (fun k t hk => by rw [hbeside.slots, hslots (k + 1) t hk, Nat.add_comm k 1, Nat.add_assoc])
      (by rw [hbeside.length]; omega) (hbeside.hook ▸ hhook)
    refine ⟨fun k t hk => ?_, fun d hd => ?_, hlength'.trans hbeside.length,
      hslots'.trans hbeside.slots, hregistry'.trans hbeside.registry⟩
    · cases k with
      | zero =>
        obtain rfl : s = t := Option.some.inj hk
        rw [Nat.add_zero, hget' n (Nat.lt_succ_self n)]
        exact hsettles
      | succ k =>
        have hlater := hsettles' k t hk
        rw [hbeside.get (n + 1 + k) (by omega), Nat.add_assoc, Nat.add_comm 1 k] at hlater
        exact ⟨hbeside.slots ▸ hlater.parent, hlater.final, hbeside.slots ▸ hlater.metaclass,
          hlater.special, hlater.handles, hlater.methods⟩
    · rw [hget' d (by omega), hbeside.get d (Nat.ne_of_lt hd)]

theorem Published.blank_at (h : Published w n specs) {k : Nat} (hk : specs[k]? = some s) :
    w.slots s.slot = some (n + k) ∧
      (∀ t, s.parent = some t → ∃ d : Nat, w.slots t = some d ∧ d < n + k) ∧
      ∃ size, w.get (n + k) = .blank size := by
  induction specs generalizing n k with
  | nil => simp at hk
  | cons t rest ih =>
    obtain ⟨hslot, hparent, hblank, hrest⟩ := h
    cases k with
    | zero =>
      obtain rfl : t = s := Option.some.inj hk
      exact ⟨hslot, hparent, _, hblank⟩
    | succ k =>
      rw [Nat.add_comm k 1, ← Nat.add_assoc]
      exact ih hrest hk

theorem finishAll_names {parcel : Nat} (h : (finishAll parcel specs novel).Gives w u w')
    (hslots : ∀ (k : Nat) s, specs[k]? = some s → w.slots s.slot = some (n + k))
    (hlength : n + specs.length ≤ w.classes.length) (hn : NamesInside w) : NamesInside w' := by
  induction specs generalizing w n novel with
  | nil =>
    obtain ⟨-, rfl⟩ := (Step.gives_pure _ _ _ _).1 h
    exact hn
  | cons s rest ih =>
    obtain ⟨_, w₁, h₁, hrest⟩ := (Step.gives_bind _ _ _ _ _).1 h
    rw [List.length_cons] at hlength
    obtain ⟨-, hlength₁, hslots₁, -, hn₁, -, -⟩ :=
      finish_gives (L := []) h₁ (hslots 0 s rfl) (by omega) hn
    exact ih (n := n + 1) hrest
      (fun k t hk => by rw [hslots₁, hslots (k + 1) t hk, Nat.add_comm k 1, Nat.add_assoc])
      (by omega) hn₁

/-- The class of a spec is in its slot, behind its parent. -/
structure Seated (w : World) (s : ClassSpec) (c : Nat) : Prop where
  slot : w.slots s.slot = some c
  below : ∀ t, s.parent = some t → ∃ d : Nat, w.slots t = some d ∧ d < c
  parent : (w.get c).parent = s.parent.bind w.slots
  final : (w.get c).flags.final = s.flags.final

/-- What is known of the class of a spec, whatever else there is in its parcel. -/
structure Born (w : World) (s : ClassSpec) (c : Nat) : Prop extends Seated w s c where
  special : (w.get c).flags.special = s.slot.isSpecial
  metaclass : (w.get c).metaclass = w.slots .cls
  handles : (w.get c).handles = 1
  methods : ∀ m ∈ (w.get c).methods, m.metaclass = w.slots .method ∧ m.handles = 1

/-- The classes of a parcel come behind those that there were, which are left as they are. -/
structure Populated (p : ParcelSpec) (w w' : World) : Prop where
  born : ∀ (k : Nat) s, p.classes[k]? = some s → Born w' s (w.classes.length + k)
  length_eq : w'.classes.length = w.classes.length + p.classes.length
  old : ∀ d : Nat, d < w.classes.length → w'.get d = w.get d
  slots_eq : w'.slots = Ledger.fillSlots w.slots w.classes.length p.classes
  slots : ∀ t c, w.slots t = some c → w'.slots t = some c
  slotsInside : SlotsInside w'
  namesInside : NamesInside w → NamesInside w'

theorem bootstrap_populates {p : ParcelSpec} {parcel : Nat} (hs : SlotsInside w)
    (h : (World.bootstrap p).Gives w parcel w')
    (hhook : ∀ hook, w.hook = some hook → hook.OnlyFills) : Populated p w w' := by
  obtain ⟨number, w₁, w₂, hext, hinside₁, hslots₁, hpub, h₂, h₃⟩ := bootstrap_passes h hs
  have hlength₁ := hpub.length_eq
  obtain ⟨hsettles, hget₂, hlength₂, hslots₂, hregistry₂⟩ := completeAll_settles h₂
    (fun k s hk => (hpub.blank_at hk).1) (Nat.le_of_eq hlength₁.symm) (hext.hook ▸ hhook)
  have hfilled₂ : ∀ (k : Nat) s, p.classes[k]? = some s →
      w₂.slots s.slot = some (w.classes.length + k) := fun k s hk =>
    hslots₂ ▸ (hpub.blank_at hk).1
  have hroom₂ : w.classes.length + p.classes.length ≤ w₂.classes.length :=
    Nat.le_of_eq (hlength₁.symm.trans hlength₂.symm)
  obtain ⟨hmethods, hget₃, hlength₃, hslots₃, -, hfields⟩ := finishAll_shape h₃ hfilled₂ hroom₂
  have hslots : w'.slots = w₁.slots := hslots₃.trans hslots₂
  have hlength : w'.classes.length = w₁.classes.length := hlength₃.trans hlength₂
  refine ⟨fun k s hk => ?_, hlength.trans hlength₁, fun d hd => ?_, hslots.trans hslots₁,
    fun t c ht => hslots ▸ hext.slots t c ht, fun t c ht => ?_, fun hn => ?_⟩
  · obtain ⟨hslot, hbelow, size, hblank⟩ := hpub.blank_at hk
    obtain ⟨name?, methods?, hself⟩ := hfields (w.classes.length + k)
    have hsettled := hsettles k s hk
    refine ⟨⟨hslots ▸ hslot, fun t ht => hslots ▸ hbelow t ht, ?_, ?_⟩, ?_, ?_, ?_,
      fun m hm => ?_⟩
    · rw [hself, hslots]
      exact hsettled.parent
    · rw [hself]
      exact hsettled.final
    · rw [hself]
      exact hsettled.special
    · rw [hself, hslots]
      exact hsettled.metaclass
    · rw [hself]
      exact hsettled.handles.trans (hblank ▸ rfl)
    · rw [hmethods k s hk] at hm
      obtain ⟨r, -, rfl⟩ := List.mem_map.1 hm
      exact ⟨congrFun hslots₃.symm _, rfl⟩
  · rw [hget₃ d hd, hget₂ d hd, hext.get d hd]
  · rw [hlength]
    exact hinside₁ t c (hslots ▸ ht)
  · refine finishAll_names h₃ hfilled₂ hroom₂ fun r hr v hv => ?_
    rw [hregistry₂, hext.registry] at hr
    rw [hlength₂]
    exact Nat.lt_of_lt_of_le (hn r hr v hv) hext.length_le

/-- Bootstrapping a parcel leaves the classes marked, and fills the slots of its specs. -/
theorem Marked.bootstrap {p : ParcelSpec} {parcel : Nat} (hm : Marked w) (hs : SlotsInside w)
    (h : (World.bootstrap p).Gives w parcel w')
    (hhook : ∀ hook, w.hook = some hook → hook.OnlyFills) :
    Marked w' ∧ w'.slots = Ledger.fillSlots w.slots w.classes.length p.classes ∧
      (∀ t c, w.slots t = some c → w'.slots t = some c) ∧
      (∀ d : Nat, d < w.classes.length → w'.get d = w.get d) := by
  have hp := bootstrap_populates hs h hhook
  have hcases : ∀ c : Nat, (c < w.classes.length ∧ w'.get c = w.get c) ∨
      (∃ k s, p.classes[k]? = some s ∧ c = w.classes.length + k) ∨ w'.get c = .blank 0 := by
    intro c
    by_cases hc : c < w.classes.length
    · exact .inl ⟨hc, hp.old c hc⟩
    · by_cases hc' : c - w.classes.length < p.classes.length
      · exact .inr (.inl ⟨_, _, List.getElem?_eq_getElem hc', by omega⟩)
      · exact .inr (.inr (get_of_length_le (by rw [hp.length_eq]; omega)))
  refine ⟨⟨fun t c ht => ?_, fun c hc => ?_, fun c k hk => ?_, fun c m hm' k hk => ?_, fun c => ?_,
    fun c m hm' => ?_⟩, hp.slots_eq, hp.slots, hp.old⟩
  · rw [hp.slots_eq] at ht
    rcases Ledger.fillSlots_cases ht with ht | ⟨k, s, hk, rfl, rfl⟩
    · rw [hp.old c (hs t c ht)]
      exact hm.special t c ht
    · exact (hp.born k s hk).special
  · rcases hcases c with ⟨-, hget⟩ | ⟨j, s, hj, rfl⟩ | hget
    · rw [hget] at hc ⊢
      rcases hm.source c hc with ⟨t, ht, hspecial⟩ | ⟨q, hq, hspecial⟩
      · exact .inl ⟨t, hp.slots t c ht, hspecial⟩
      · exact .inr ⟨q, hq, (hp.old q (lt_of_special hspecial)).symm ▸ hspecial⟩
    · exact .inl ⟨s.slot, (hp.born j s hj).slot, (hp.born j s hj).special.symm.trans hc⟩
    · rw [hget] at hc
      cases hc
  · rcases hcases c with ⟨-, hget⟩ | ⟨j, s, hj, rfl⟩ | hget
    · exact hp.slots _ _ (hm.metaclass c k (hget ▸ hk))
    · rw [← (hp.born j s hj).metaclass]
      exact hk
    · rw [hget] at hk
      cases hk
  · rcases hcases c with ⟨-, hget⟩ | ⟨j, s, hj, rfl⟩ | hget
    · exact hp.slots _ _ (hm.methodClass c m (hget ▸ hm') k hk)
    · rw [← ((hp.born j s hj).methods m hm').1]
      exact hk
    · rw [hget] at hm'
      cases hm'
  · rcases hcases c with ⟨-, hget⟩ | ⟨j, s, hj, rfl⟩ | hget
    · rw [hget]
      exact hm.handles c
    · exact (hp.born j s hj).handles
    · rw [hget]
      rfl
  · rcases hcases c with ⟨-, hget⟩ | ⟨j, s, hj, rfl⟩ | hget
    · exact hm.methodHandles c m (hget ▸ hm')
    · exact ((hp.born j s hj).methods m hm').2
    · rw [hget] at hm'
      cases hm'

/-! ### Subclasses -/

/-- Functions that are put in change nothing but slots. -/
theorem installAll_vtable {d d' : Descriptor} {patches : List (Code × Nat)}
    (h : installAll d patches = .ok d') :
    ∃ vtable : List (Option Code), vtable.length = d.vtable.length ∧
      d' = { d with vtable := vtable } := by
  induction patches generalizing d with
  | nil => exact ⟨_, rfl, (Except.ok.inj h).symm⟩
  | cons patch rest ih =>
    obtain ⟨code, offset⟩ := patch
    unfold installAll at h
    cases hd : d.install code offset with
    | error e =>
      rw [hd] at h
      cases h
    | ok d₁ =>
      rw [hd] at h
      obtain ⟨i, -, -, rfl⟩ := Descriptor.install_eq_ok hd
      obtain ⟨vtable, hlength, rfl⟩ := ih h
      exact ⟨vtable, hlength.trans List.length_set, rfl⟩

/-- Functions can be put in when there are slots for them. -/
theorem installAll_isOk_iff {d : Descriptor} {patches : List (Code × Nat)} :
    (∃ d', installAll d patches = .ok d') ↔
      ∀ patch ∈ patches, (slotIndex? d.vtable.length patch.2).isSome := by
  induction patches generalizing d with
  | nil =>
    refine ⟨fun _ patch hpatch => ?_, fun _ => ⟨d, rfl⟩⟩
    cases hpatch
  | cons patch rest ih =>
    obtain ⟨code, offset⟩ := patch
    rw [List.forall_mem_cons]
    unfold installAll Descriptor.install
    cases slotIndex? d.vtable.length offset with
    | none =>
      refine ⟨?_, fun h => ?_⟩
      · rintro ⟨d', hd'⟩
        cases hd'
      · cases h.1
    | some i =>
      have hrest := @ih { d with vtable := d.vtable.set i (some code) }
      rw [List.length_set] at hrest
      exact hrest.trans ⟨fun h => ⟨rfl, h⟩, And.right⟩

/-- A subclass is a copy of its parent with a vtable of its own, and nothing else is changed but the
registry. -/
theorem createSubclass_copy {fresh : List String} {name : String} {parent : Nat}
    (hn : NamesInside w)
    (h : (createSubclass (.answering fresh) name parent).Gives w (.ok w.classes.length) w') :
    NamesInside w' ∧ ∃ r vtable, w' = { w with
      registry := some r
      classes := w.classes ++ [{ w.subclassOf parent name with vtable := vtable }] } := by
  cases hfinal : (w.get parent).flags.final with
  | true => cases ((gives_createSubclass_final _ _ hfinal).1 h).1
  | false =>
    obtain ⟨fresh', w₁, candidate, b, w₂, h₁, hcand, h₂, h₃⟩ :=
      (gives_createSubclass _ _ hfinal).1 h
    obtain ⟨rfl, rfl⟩ := (Step.gives_pure _ _ _ _).1 h₁
    obtain ⟨r, hw₂, hr⟩ := bindName_gives h₂ hn
    obtain ⟨vtable, -, rfl⟩ := installAll_vtable hcand
    cases b with
    | false =>
      obtain ⟨c, hfetch, hc, -⟩ := h₃
      obtain rfl := Except.ok.inj hc
      obtain ⟨_, rfl, hn₂⟩ := hn.refused h₂
      exact absurd (hn₂.lt_of_fetch hfetch) (Nat.lt_irrefl _)
    | true =>
      obtain ⟨-, hw'⟩ := (Step.gives_pure _ _ _ _).1 h₃.1
      rw [hw₂] at hw'
      refine ⟨fun r' hr' v hv => ?_, r, vtable, hw'⟩
      rw [hw'] at hr'
      obtain rfl := Option.some.inj hr'
      rw [hw', List.length_append, List.length_singleton]
      rcases hr v hv with hlt | ⟨-, heq⟩
      · exact Nat.lt_succ_of_lt hlt
      · rw [heq]
        exact Nat.lt_succ_self _

/-- A copy of a class has the marks of the class. -/
theorem Marked.subclass {parent : Nat} {d : Descriptor} (hm : Marked w) (hs : SlotsInside w)
    (hclasses : w'.classes = w.classes ++ [d]) (hslots : w'.slots = w.slots)
    (hparent : d.parent = some parent) (hspecial : d.flags = (w.get parent).flags)
    (hmetaclass : d.metaclass = (w.get parent).metaclass) (hhandles : d.handles = 1)
    (hmethods : d.methods = []) : Marked w' := by
  have hget : ∀ c : Nat, w'.get c = if c = w.classes.length then d else w.get c := by
    intro c
    rw [← get_append w d w.slots]
    unfold World.get
    rw [hclasses]
  have hself := hget w.classes.length
  rw [if_pos rfl] at hself
  have hold : ∀ c : Nat, c ≠ w.classes.length → w'.get c = w.get c := fun c hc =>
    (hget c).trans (if_neg hc)
  have hmark : ∀ p : Nat, (w.get p).flags.special = true → (w'.get p).flags.special = true := by
    intro p hp
    rw [hold p (Nat.ne_of_lt (lt_of_special hp))]
    exact hp
  refine ⟨fun t c ht => ?_, fun c hc => ?_, fun c k hk => ?_, fun c m hm' k hk => ?_, fun c => ?_,
    fun c m hm' => ?_⟩
  · rw [hslots] at ht
    rw [hold c (Nat.ne_of_lt (hs t c ht))]
    exact hm.special t c ht
  · by_cases hlast : c = w.classes.length
    · subst hlast
      rw [hself] at hc ⊢
      exact .inr ⟨parent, hparent, hmark parent (hspecial ▸ hc)⟩
    · rw [hold c hlast] at hc ⊢
      rcases hm.source c hc with ⟨t, ht, hspecial⟩ | ⟨p, hp, hspecial⟩
      · exact .inl ⟨t, hslots ▸ ht, hspecial⟩
      · exact .inr ⟨p, hp, hmark p hspecial⟩
  · rw [hslots]
    by_cases hc : c = w.classes.length
    · rw [hc, hself, hmetaclass] at hk
      exact hm.metaclass parent k hk
    · rw [hold c hc] at hk
      exact hm.metaclass c k hk
  · rw [hslots]
    by_cases hc : c = w.classes.length
    · rw [hc, hself, hmethods] at hm'
      cases hm'
    · rw [hold c hc] at hm'
      exact hm.methodClass c m hm' k hk
  · by_cases hc : c = w.classes.length
    · rw [hc, hself, hhandles]
    · rw [hold c hc]
      exact hm.handles c
  · by_cases hc : c = w.classes.length
    · rw [hc, hself, hmethods] at hm'
      cases hm'
    · rw [hold c hc] at hm'
      exact hm.methodHandles c m hm'

end World

end ObjectSystem
