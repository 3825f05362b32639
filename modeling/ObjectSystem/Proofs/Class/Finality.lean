import ObjectSystem.Proofs.Class.Kinds
import ObjectSystem.Proofs.Class.Refusal

/-! # Final classes and their subclasses

A final class is one that should have no subclasses.  `Peopled history w` says that the world `w`
came about by calls that make classes and complete, whatever the specs, with the parcels of
`history` bootstrapped on the way.

A subclass on demand is refused when its parent is final.  The bootstrap of a parcel does not look
at the marks of parents.  So a class has a final one among its proper ancestors just when some spec
has asked for that, by naming the slot of a final class as its parent. -/

namespace ObjectSystem

namespace World

variable {w w' w'' : World} {history : List ParcelSpec} {parent : Nat} {name : String}
  {s : ClassSpec} {a c : Nat}

/-- The classes that there were are there, with their parents, their marks as final ones and their
numbers of slots. -/
structure Elders (w w' : World) : Prop where
  length_le : w.classes.length ≤ w'.classes.length
  parent : ∀ c : Nat, c < w.classes.length → (w'.get c).parent = (w.get c).parent
  final : ∀ c : Nat, c < w.classes.length → (w'.get c).flags.final = (w.get c).flags.final
  room : ∀ c : Nat, c < w.classes.length → (w'.get c).vtable.length = (w.get c).vtable.length
  slots : ∀ t c, w.slots t = some c → w'.slots t = some c

theorem Elders.of_get (hlength : w.classes.length ≤ w'.classes.length)
    (hget : ∀ c : Nat, c < w.classes.length → w'.get c = w.get c)
    (hslots : ∀ t c, w.slots t = some c → w'.slots t = some c) : Elders w w' where
  length_le := hlength
  parent c hc := by rw [hget c hc]
  final c hc := by rw [hget c hc]
  room c hc := by rw [hget c hc]
  slots := hslots

theorem Elders.refl (w : World) : Elders w w :=
  .of_get (Nat.le_refl _) (fun _ _ => rfl) fun _ _ ht => ht

theorem Elders.trans (h : Elders w w') (h' : Elders w' w'') : Elders w w'' where
  length_le := Nat.le_trans h.length_le h'.length_le
  parent c hc := (h'.parent c (Nat.lt_of_lt_of_le hc h.length_le)).trans (h.parent c hc)
  final c hc := (h'.final c (Nat.lt_of_lt_of_le hc h.length_le)).trans (h.final c hc)
  room c hc := (h'.room c (Nat.lt_of_lt_of_le hc h.length_le)).trans (h.room c hc)
  slots t c ht := h'.slots t c (h.slots t c ht)

/-- The worlds that come about by calls that make classes and complete. -/
inductive Peopled : List ParcelSpec → World → Prop
  | start : Peopled [] {}
  /-- A parcel is bootstrapped.  A hook, if there is one, does no more than put functions into
  vtables. -/
  | bootstrap {history : List ParcelSpec} {w w' : World} {p : ParcelSpec} {n : Nat}
    (before : Peopled history w) (call : (World.bootstrap p).Gives w n w')
    (hook : ∀ hook, w.hook = some hook → hook.OnlyFills) : Peopled (history ++ [p]) w'
  /-- A subclass is made for a host that defines the methods `fresh`. -/
  | subclass {history : List ParcelSpec} {w w' : World} {fresh : List String} {name : String}
    {parent : Nat} (before : Peopled history w) (inside : parent < w.classes.length)
    (call : (createSubclass (.answering fresh) name parent).Gives w (.ok w.classes.length) w') :
    Peopled history w'
  /-- Something is done that makes no classes and does not fill slots. -/
  | aside {history : List ParcelSpec} {w w' : World} (before : Peopled history w)
    (elders : Elders w w') (length_eq : w'.classes.length = w.classes.length)
    (slots : w'.slots = w.slots) (names : NamesInside w') : Peopled history w'

/-! ### Where classes come from -/

theorem Seated.kept (h : Seated w s c) (hc : c < w.classes.length) (he : Elders w w') :
    Seated w' s c where
  slot := he.slots _ _ h.slot
  below t ht := by
    obtain ⟨d, hd, hlt⟩ := h.below t ht
    exact ⟨d, he.slots t d hd, hlt⟩
  parent := by
    rw [he.parent c hc, h.parent]
    cases ht : s.parent with
    | none => rfl
    | some t =>
      obtain ⟨d, hd, -⟩ := h.below t ht
      exact hd.trans (he.slots t d hd).symm
  final := (he.final c hc).trans h.final

/-- A class that is not the class of a spec was made on demand, below a class that is not final. -/
def OnDemand (w : World) (c : Nat) : Prop :=
  (w.get c).flags.final = false ∧
    ∃ p : Nat, p < c ∧ (w.get c).parent = some p ∧ (w.get p).flags.final = false

/-- Every spec has its class, and every class has its spec or was made on demand. -/
structure Sourced (history : List ParcelSpec) (w : World) : Prop where
  slots : SlotsInside w
  names : NamesInside w
  seated : ∀ p ∈ history, ∀ s ∈ p.classes, ∃ c : Nat, Seated w s c
  filled : ∀ t c, w.slots t = some c → ∃ p ∈ history, ∃ s ∈ p.classes, s.slot = t
  source : ∀ c : Nat, c < w.classes.length →
    (∃ p ∈ history, ∃ s ∈ p.classes, Seated w s c) ∨ OnDemand w c

theorem OnDemand.kept (h : OnDemand w c) (hc : c < w.classes.length) (he : Elders w w') :
    OnDemand w' c := by
  obtain ⟨hfinal, p, hp, hparent, hopen⟩ := h
  exact ⟨(he.final c hc).trans hfinal, p, hp, (he.parent c hc).trans hparent,
    (he.final p (Nat.lt_trans hp hc)).trans hopen⟩

theorem Sourced.kept (h : Sourced history w) (he : Elders w w') :
    (∀ p ∈ history, ∀ s ∈ p.classes, ∃ c : Nat, Seated w' s c) ∧
      ∀ c : Nat, c < w.classes.length →
        (∃ p ∈ history, ∃ s ∈ p.classes, Seated w' s c) ∨ OnDemand w' c := by
  refine ⟨fun p hp s hs => ?_, fun c hc => ?_⟩
  · obtain ⟨c, hseated⟩ := h.seated p hp s hs
    exact ⟨c, hseated.kept (h.slots _ c hseated.slot) he⟩
  · rcases h.source c hc with ⟨p, hp, s, hs, hseated⟩ | hmade
    · exact .inl ⟨p, hp, s, hs, hseated.kept hc he⟩
    · exact .inr (hmade.kept hc he)

theorem Sourced.bootstrap {p : ParcelSpec} (h : Sourced history w) (hp : Populated p w w') :
    Sourced (history ++ [p]) w' := by
  have he : Elders w w' := .of_get (by rw [hp.length_eq]; omega) hp.old hp.slots
  obtain ⟨hseated, hsource⟩ := h.kept he
  refine ⟨hp.slotsInside, hp.namesInside h.names, fun q hq s hs => ?_, fun t c ht => ?_,
    fun c hc => ?_⟩
  · rcases List.mem_append.1 hq with hq | hq
    · exact hseated q hq s hs
    · rw [List.mem_singleton.1 hq] at hs
      obtain ⟨k, hk⟩ := List.mem_iff_getElem?.1 hs
      exact ⟨_, (hp.born k s hk).toSeated⟩
  · rw [hp.slots_eq] at ht
    rcases Ledger.fillSlots_cases ht with ht | ⟨k, s, hk, hslot, -⟩
    · obtain ⟨q, hq, s, hs, hslot⟩ := h.filled t c ht
      exact ⟨q, List.mem_append_left _ hq, s, hs, hslot⟩
    · exact ⟨p, by simp, s, List.mem_of_getElem? hk, hslot⟩
  · by_cases hold : c < w.classes.length
    · rcases hsource c hold with ⟨q, hq, s, hs, hseated⟩ | hmade
      · exact .inl ⟨q, List.mem_append_left _ hq, s, hs, hseated⟩
      · exact .inr hmade
    · -- the other classes are those of the specs of the parcel
      have hlength := hp.length_eq
      obtain ⟨k, rfl⟩ := Nat.exists_eq_add_of_le (Nat.le_of_not_lt hold)
      have hk : k < p.classes.length := by omega
      exact .inl ⟨p, by simp, p.classes[k], List.getElem_mem hk,
        (hp.born k _ (List.getElem?_eq_getElem hk)).toSeated⟩

/-- What is left by a subclass that was made: the classes that there were, and one more. -/
theorem createSubclass_elders {fresh : List String} (hn : NamesInside w)
    (h : (createSubclass (.answering fresh) name parent).Gives w (.ok w.classes.length) w') :
    Elders w w' ∧ w'.slots = w.slots ∧ NamesInside w' ∧
      w'.classes.length = w.classes.length + 1 ∧ (w.get parent).flags.final = false ∧
      (w'.get w.classes.length).parent = some parent ∧
      (w'.get w.classes.length).flags.final = false := by
  have hopen : (w.get parent).flags.final = false := by
    cases hfinal : (w.get parent).flags.final with
    | false => rfl
    | true => cases ((gives_createSubclass_final _ _ hfinal).1 h).1
  obtain ⟨hn', r, vtable, rfl⟩ := createSubclass_copy hn h
  have hget : ∀ c : Nat, _ = _ := get_append { w with registry := some r }
    { w.subclassOf parent name with vtable := vtable } w.slots
  have hself := hget w.classes.length
  rw [if_pos rfl] at hself
  refine ⟨.of_get ?_ (fun c hc => ?_) fun t c ht => ht, rfl, hn', List.length_append, hopen, ?_, ?_⟩
  · rw [List.length_append]
    exact Nat.le_add_right _ _
  · exact (hget c).trans (if_neg (Nat.ne_of_lt hc))
  · exact congrArg Descriptor.parent hself
  · exact (congrArg (·.flags.final) hself).trans hopen

theorem Sourced.aside (h : Sourced history w) (he : Elders w w')
    (hlength : w'.classes.length = w.classes.length) (hslots : w'.slots = w.slots)
    (hn : NamesInside w') : Sourced history w' := by
  obtain ⟨hseated, hsource⟩ := h.kept he
  refine ⟨fun t c ht => ?_, hn, hseated, fun t c ht => ?_, fun c hc => hsource c (hlength ▸ hc)⟩
  · rw [hlength]
    exact h.slots t c (hslots ▸ ht)
  · exact h.filled t c (hslots ▸ ht)

theorem Sourced.subclass {fresh : List String} (h : Sourced history w)
    (hparent : parent < w.classes.length)
    (hmake : (createSubclass (.answering fresh) name parent).Gives w (.ok w.classes.length) w') :
    Sourced history w' := by
  obtain ⟨he, hslots, hn, hlength, hopen, hpar, hfinal⟩ := createSubclass_elders h.names hmake
  obtain ⟨hseated, hsource⟩ := h.kept he
  refine ⟨fun t c ht => ?_, hn, hseated, fun t c ht => ?_, fun c hc => ?_⟩
  · rw [hlength]
    exact Nat.lt_succ_of_lt (h.slots t c (hslots ▸ ht))
  · exact h.filled t c (hslots ▸ ht)
  · by_cases hold : c < w.classes.length
    · exact hsource c hold
    · obtain rfl : c = w.classes.length := by omega
      exact .inr ⟨hfinal, parent, hparent, hpar, (he.final parent hparent).trans hopen⟩

theorem Peopled.sourced (h : Peopled history w) : Sourced history w := by
  induction h with
  | start =>
    refine ⟨fun t c ht => ?_, fun r hr => ?_, fun p hp => ?_, fun t c ht => ?_, fun c hc => ?_⟩
    · cases ht
    · cases hr
    · cases hp
    · cases ht
    · cases hc
  | bootstrap _ call hook ih => exact ih.bootstrap (bootstrap_populates ih.slots call hook)
  | subclass _ inside call ih => exact ih.subclass inside call
  | aside _ elders length_eq slots names ih => exact ih.aside elders length_eq slots names

/-! ### Final ancestors -/

/-- On the way up from a class to another one there is a child of the other one. -/
theorem exists_child (n : Nat) (h : a ∈ w.ancestorsUpTo n c) (hne : a ≠ c) :
    ∃ d : Nat, (w.get d).parent = some a := by
  induction n generalizing c with
  | zero => cases h
  | succ n ih =>
    unfold ancestorsUpTo at h
    rcases List.mem_cons.1 h with rfl | h
    · exact absurd rfl hne
    · cases hparent : (w.get c).parent with
      | none =>
        rw [hparent] at h
        cases h
      | some p =>
        rw [hparent] at h
        by_cases hp : a = p
        · exact ⟨c, hp ▸ hparent⟩
        · exact ih h hp

theorem Sourced.below_final {d : Nat} (h : Sourced history w) (hparent : (w.get c).parent = some d)
    (hfinal : (w.get d).flags.final = true) :
    ∃ p ∈ history, ∃ s ∈ p.classes, w.slots s.slot = some c ∧ s.parent.bind w.slots = some d := by
  have hc : c < w.classes.length := by
    by_contra hc
    rw [get_of_length_le (Nat.le_of_not_lt hc)] at hparent
    cases hparent
  rcases h.source c hc with ⟨p, hp, s, hs, hseated⟩ | ⟨-, q, -, hq, hopen⟩
  · exact ⟨p, hp, s, hs, hseated.slot, hseated.parent ▸ hparent⟩
  · obtain rfl : q = d := Option.some.inj (hq.symm.trans hparent)
    rw [hopen] at hfinal
    cases hfinal

/-- There is a class with a final proper ancestor just when a spec names the slot of a final class
as its parent. -/
theorem Sourced.final_ancestor_iff (h : Sourced history w) :
    (∃ c a : Nat, a ∈ w.ancestors c ∧ a ≠ c ∧ (w.get a).flags.final = true) ↔
      ∃ p ∈ history, ∃ s ∈ p.classes, ∃ q ∈ history, ∃ r ∈ q.classes,
        s.parent = some r.slot ∧ r.flags.final = true := by
  constructor
  · rintro ⟨c, a, hmem, hne, hfinal⟩
    obtain ⟨d, hd⟩ := exists_child _ hmem hne
    obtain ⟨p, hp, s, hs, -, hbind⟩ := h.below_final hd hfinal
    obtain ⟨t, ht, hslot⟩ := Option.bind_eq_some_iff.1 hbind
    obtain ⟨q, hq, r, hr, rfl⟩ := h.filled t a hslot
    obtain ⟨a', hseated⟩ := h.seated q hq r hr
    obtain rfl : a' = a := Option.some.inj (hseated.slot.symm.trans hslot)
    exact ⟨p, hp, s, hs, q, hq, r, hr, ht, hseated.final.symm.trans hfinal⟩
  · rintro ⟨p, hp, s, hs, q, hq, r, hr, ht, hfinal⟩
    obtain ⟨c, hc⟩ := h.seated p hp s hs
    obtain ⟨a, ha⟩ := h.seated q hq r hr
    obtain ⟨a', ha', hlt⟩ := hc.below _ ht
    obtain rfl : a' = a := Option.some.inj (ha'.symm.trans ha.slot)
    have hparent : (w.get c).parent = some a' := by rw [hc.parent, ht, Option.bind_some, ha']
    have hinside := h.slots _ c hc.slot
    refine ⟨c, a', ?_, Nat.ne_of_lt hlt, ha.final.trans hfinal⟩
    obtain ⟨n, hn⟩ : ∃ n, w.classes.length = n + 2 := Nat.exists_eq_add_of_le' (by omega)
    unfold ancestors
    rw [hn, ancestorsUpTo, hparent]
    exact List.mem_cons_of_mem _ List.mem_cons_self

end World

/-! ### Whatever the host does -/

/-- Begun in a world with at least `k` classes that came about by calls that complete, the step
leaves such a world again, in which all classes are as they were. -/
def Step.Peoples {α : Type} (k : Nat) (x : Step World α) : Prop :=
  ∀ history w a w', k ≤ w.classes.length → World.Peopled history w → x.Gives w a w' →
    World.Elders w w' ∧ ∃ more, World.Peopled (history ++ more) w'

/-- A host that does no more than calls that complete. -/
structure Host.Peoples (k : Nat) (host : Host) : Prop where
  findParent : ∀ name, Step.Peoples k (host.findParent name)
  freshMethods : ∀ name, Step.Peoples k (host.freshMethods name)
  registered : ∀ name parent, Step.Peoples k (host.registered name parent)

namespace World

variable {w : World} {history : List ParcelSpec} {parent : Nat} {name : String}

theorem Elders.of_last {d d' : Descriptor} (hparent : d'.parent = d.parent)
    (hfinal : d'.flags.final = d.flags.final) (hroom : d'.vtable.length = d.vtable.length) :
    Elders { w with classes := w.classes ++ [d] } { w with classes := w.classes ++ [d'] } := by
  have hsame : ∀ {β : Type} (f : Descriptor → β), f d' = f d → ∀ c : Nat,
      f (({ w with classes := w.classes ++ [d'] } : World).get c) =
        f (({ w with classes := w.classes ++ [d] } : World).get c) := by
    intro β f hf c
    rw [get_append w d' w.slots, get_append w d w.slots]
    split
    · exact hf
    · rfl
  refine ⟨?_, fun c _ => hsame _ hparent c, fun c _ => hsame (·.flags.final) hfinal c,
    fun c _ => hsame (·.vtable.length) hroom c, fun t c ht => ht⟩
  rw [List.length_append, List.length_append]
  exact Nat.le_refl _

/-- A class is made of a parent as it was before the host had answered, which is no other parent. -/
theorem Peopled.copied {fresh : List String} {candidate : Descriptor} {w₁ w₂ : World}
    (hw₁ : Peopled history w₁) (he₁ : Elders w w₁) (hparent : parent < w.classes.length)
    (hfinal : (w.get parent).flags.final = false)
    (hcand : installAll (w.subclassOf parent name) (w₁.overridable parent fresh) = .ok candidate)
    (hbind : (bindName name w₁.classes.length).Gives w₁ true w₂) :
    Elders w₁ { w₂ with classes := w₂.classes ++ [candidate] } ∧
      Peopled history { w₂ with classes := w₂.classes ++ [candidate] } := by
  have hnames := hw₁.sourced.names
  obtain ⟨t, hw₂, -⟩ := bindName_gives hbind hnames
  have hroom : (w₁.subclassOf parent name).vtable.length =
      (w.subclassOf parent name).vtable.length := he₁.room parent hparent
  obtain ⟨candidate₁, hcand₁⟩ := (installAll_isOk_iff (d := w₁.subclassOf parent name)).2
    (hroom ▸ installAll_isOk_iff.1 ⟨candidate, hcand⟩)
  have hfinal₁ := he₁.final parent hparent
  have hmake := (gives_createSubclass (.answering fresh) name (hfinal₁.trans hfinal)).2
    ⟨fresh, w₁, candidate₁, true, w₂, ⟨rfl, rfl⟩, hcand₁, hbind, ⟨rfl, rfl⟩, rfl⟩
  obtain ⟨he₂, -, hnames₂, hlength₂, -, -, -⟩ := createSubclass_elders hnames hmake
  obtain ⟨vtable, hvtable, rfl⟩ := installAll_vtable hcand
  obtain ⟨vtable₁, hvtable₁, rfl⟩ := installAll_vtable hcand₁
  have he₃ := @Elders.of_last w₂ { w₁.subclassOf parent name with vtable := vtable₁ }
    { w.subclassOf parent name with vtable := vtable } rfl hfinal₁.symm
    (hvtable.trans (hroom.symm.trans hvtable₁.symm))
  have hlength₃ : (w₂.classes ++ [{ w.subclassOf parent name with vtable := vtable }]).length =
      w₁.classes.length + 1 := by
    rw [hw₂, List.length_append, List.length_singleton]
  have hinside := Nat.lt_of_lt_of_le hparent he₁.length_le
  exact ⟨he₂.trans he₃, .aside (hw₁.subclass hinside hmake) he₃ (hlength₃.trans hlength₂.symm) rfl
    fun t' ht' v hv => hlength₃.symm ▸ hlength₂ ▸ hnames₂ t' ht' v hv⟩

/-- The worlds that come about by calls that complete are a kind. -/
def Peopled.kind : Kind where
  of := Peopled
  onward := Elders
  refl := .refl
  trans := .trans
  length_le h := h.length_le
  inside hw hc := hw.sourced.names.lt_of_fetch hc
  declared {_ w} f hw := by
    have he : Elders w { w with host := f w.host } :=
      .of_get (Nat.le_refl _) (fun _ _ => rfl) fun _ _ ht => ht
    exact ⟨he, .aside hw he rfl rfl hw.sourced.names⟩
  refused {_ w w' _ _} hw hbind := by
    obtain ⟨t, hw', hnames⟩ := hw.sourced.names.refused hbind
    have he : Elders w w' := by
      rw [hw']
      exact .of_get (Nat.le_refl _) (fun _ _ => rfl) fun _ _ ht => ht
    exact ⟨he, .aside hw he (by rw [hw']) (by rw [hw']) hnames⟩
  entered hw₁ he hparent hfinal hcand hbind := hw₁.copied he hparent hfinal hcand hbind

end World

section Hosts

variable {k root : Nat} {host : Host} {given : Option ClassId}

theorem Host.peoples_iff : host.Peoples k ↔ World.Peopled.kind.Hosts k host :=
  ⟨fun ⟨hfind, hfresh, htold⟩ => ⟨hfind, hfresh, htold⟩,
    fun ⟨hfind, hfresh, htold⟩ => ⟨hfind, hfresh, htold⟩⟩

theorem World.singletonWith_peoples (hhost : host.Peoples k) (n : Nat) (name : String)
    (hgiven : ∀ p : Nat, given = some p → p < k) : (singletonWith host n name given).Peoples k :=
  Kind.keeps_singletonWith (Host.peoples_iff.1 hhost) n name hgiven

theorem Host.none_peoples (k : Nat) : Host.none.Peoples k :=
  peoples_iff.2 (World.Peopled.kind.hosts_none k)

theorem Host.table_peoples (k : Nat) : Host.table.Peoples k :=
  peoples_iff.2 (World.Peopled.kind.hosts_table k)

theorem Host.eager_peoples (hroot : root < k) : (Host.eager root).Peoples k :=
  peoples_iff.2 (World.Peopled.kind.hosts_eager hroot)

end Hosts

namespace World

/-- Asking for classes leads from worlds that came about by calls that complete to such worlds, and
a subclass of a final class is refused.  In such a world a class that is right below a final one is
the class of a spec that named the slot of the final one as its parent; so there is a class with a
final proper ancestor just when there is a spec that names the slot of a final class. -/
theorem final_subclassed_iff {history : List ParcelSpec} {w : World} (hw : Peopled history w) :
    (∀ (k : Nat) (host : Host) (n : Nat) (name : String) (given : Option ClassId),
      host.Peoples k → (∀ p : Nat, given = some p → p < k) →
        (singletonWith host n name given).Peoples k) ∧
    (∀ (host : Host) (n : Nat) (name : String) (K : Nat),
      w.fetchClass name = none → (w.get K).flags.final = true →
        singletonWith host n name (some K) w =
          ⟨w, .ok (.error (.ofComplaint (.finalParent name (w.nameOf K)))), []⟩) ∧
    (∀ c d : Nat, (w.get c).parent = some d → (w.get d).flags.final = true →
      ∃ p ∈ history, ∃ s ∈ p.classes,
        w.slots s.slot = some c ∧ s.parent.bind w.slots = some d) ∧
    ((∃ c a : Nat, a ∈ w.ancestors c ∧ a ≠ c ∧ (w.get a).flags.final = true) ↔
      ∃ p ∈ history, ∃ s ∈ p.classes, ∃ q ∈ history, ∃ r ∈ q.classes,
        s.parent = some r.slot ∧ r.flags.final = true) := by
  refine ⟨?_, ?_, ?_, ?_⟩
  · intro k host n name given hhost hgiven
    exact singletonWith_peoples hhost n name hgiven
  · intro host n name K hname hfinal
    rw [singletonWith_given host n hname, createSubclass_final host name hfinal]
  · intro c d hparent hfinal
    exact hw.sourced.below_final hparent hfinal
  · exact hw.sourced.final_ancestor_iff

end World

namespace Quarry

open World

/-- Rocks, of which there should be no kinds. -/
def rockParcel : ParcelSpec where
  classes := [⟨⟨"Rock"⟩, none, "Rock", headerSize, none, 0, 0, 0, { final := true }⟩]

/-- A kind of rock. -/
def pebbleParcel : ParcelSpec where
  classes := [⟨⟨"Pebble"⟩, some ⟨"Rock"⟩, "Pebble", 0, none, 0, 0, 0, {}⟩]

/-- The world with rocks. -/
def ledge : World := (bootstrap rockParcel {}).state

/-- The world with pebbles as well. -/
def beach : World := (bootstrap pebbleParcel ledge).state

/-- Both parcels are bootstrapped, and then there is a class below a final one. -/
theorem pebble_below_rock :
    (bootstrap rockParcel).Gives {} 1 ledge ∧ (bootstrap pebbleParcel).Gives ledge 2 beach ∧
      0 ∈ beach.ancestors 1 ∧ (beach.get 0).flags.final = true :=
  ⟨⟨by decide +kernel, rfl⟩, ⟨by decide +kernel, rfl⟩, by decide +kernel, by decide +kernel⟩

/-- On the ledge there is no class below a final one, and a subclass of rocks is refused; on the
beach there is one, as its spec has asked for it. -/
theorem final_ancestor_on_beach :
    (¬ ∃ c a : Nat, a ∈ ledge.ancestors c ∧ a ≠ c ∧ (ledge.get a).flags.final = true) ∧
      (singletonWith .table 0 "Pebble" (some 0) ledge).answer =
        .ok (.error (.ofComplaint (.finalParent "Pebble" "Rock"))) ∧
      (∃ c a : Nat, a ∈ beach.ancestors c ∧ a ≠ c ∧ (beach.get a).flags.final = true) ∧
      (singletonWith .table 0 "Sand" (some 0)).Peoples 1 := by
  have hledge : Peopled [rockParcel] ledge :=
    .bootstrap .start (n := 1) ⟨by decide +kernel, rfl⟩ fun hook h => by cases h
  have hbeach : Peopled [rockParcel, pebbleParcel] beach :=
    .bootstrap hledge (n := 2) ⟨by decide +kernel, rfl⟩ fun hook h => by
      have hsome : ledge.hook.isSome = false := by decide +kernel
      rw [h] at hsome
      cases hsome
  have hname : ledge.nameOf 0 = "Rock" := by decide +kernel
  obtain ⟨hpeoples, hrefused, -, hiff⟩ := final_subclassed_iff hledge
  refine ⟨fun h => ?_, ?_, ?_, ?_⟩
  · have hspecs := hiff.1 h
    revert hspecs
    decide
  · rw [hrefused .table 0 "Pebble" 0 (by decide +kernel) (by decide +kernel), hname]
  · exact (final_subclassed_iff hbeach).2.2.2.2 (by decide)
  · exact hpeoples 1 .table 0 "Sand" (some 0) (Host.table_peoples 1) (by decide)

end Quarry

end ObjectSystem
