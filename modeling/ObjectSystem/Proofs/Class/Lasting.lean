import ObjectSystem.Proofs.Class.Descent

/-! # What lasts

Of a class that is there nothing changes any more but the handles on it and the marks that the host
can set on its methods, and these only in one direction (`Descriptor.Lasts`).  Slots and names that
lead to classes lead to them for good.  `Later w w'` says all of this of two worlds.

A world is `Whole` if every name, slot and class leads to classes that are there, and each of these
is in a slot or known by its own name.  `Course w w'` says of a whole world and a later one that the
host was told once of each class that came in between and is in no slot. -/

namespace ObjectSystem

/-! ### Classes -/

/-- A method as it was introduced: without the handles on it and the marks that the host can set. -/
def Method.plain (m : Method) : Method :=
  { m with handles := 1, hostAlias? := none, excluded := false }

/-- An alias that a method has stays, and it stays excluded. -/
structure Method.Marks (m m' : Method) : Prop where
  hostAlias : ∀ name, m.hostAlias? = some name → m'.hostAlias? = some name
  excluded : m.excluded = true → m'.excluded = true

/-- What is told of a class for good: all but the handles on it, and its methods as they were
introduced. -/
def Descriptor.face (d : Descriptor) : Descriptor :=
  { d with handles := 1, methods? := d.methods?.map (·.map Method.plain) }

/-- Nothing is changed but handles, and marks of methods that are set. -/
structure Descriptor.Lasts (d d' : Descriptor) : Prop where
  face : d'.face = d.face
  marks : ∀ (i : Nat) m, d.methods[i]? = some m → ∃ m', d'.methods[i]? = some m' ∧ m.Marks m'

namespace Descriptor

variable {d d' d'' : Descriptor}

theorem Lasts.refl (d : Descriptor) : d.Lasts d where
  face := rfl
  marks _ m hm := ⟨m, hm, fun _ h => h, id⟩

theorem Lasts.trans (h : d.Lasts d') (h' : d'.Lasts d'') : d.Lasts d'' where
  face := h'.face.trans h.face
  marks i m hm := by
    obtain ⟨m', hm', hmarks⟩ := h.marks i m hm
    obtain ⟨m'', hm'', hmarks'⟩ := h'.marks i m' hm'
    exact ⟨m'', hm'', fun name hname => hmarks'.hostAlias name (hmarks.hostAlias name hname),
      fun hout => hmarks'.excluded (hmarks.excluded hout)⟩

theorem Lasts.of_eq (h : d' = d) : d.Lasts d' := h ▸ .refl d

theorem Lasts.handles (d : Descriptor) (n : Nat) : d.Lasts { d with handles := n } where
  face := rfl
  marks _ m hm := ⟨m, hm, fun _ h => h, id⟩

/-- A method gets a mark. -/
theorem Lasts.modifyMethod {f : Method → Method} (i : Nat) (hplain : ∀ m, (f m).plain = m.plain)
    (hmarks : ∀ m, d.methods[i]? = some m → m.Marks (f m)) :
    d.Lasts { d with methods? := d.methods?.map (·.modify i f) } := by
  have hmethods : ∀ ms : List Method,
      (ms.modify i f).map Method.plain = ms.map Method.plain := by
    intro ms
    refine List.ext_getElem? fun j => ?_
    rw [List.getElem?_map, List.getElem?_map, List.getElem?_modify]
    cases ms[j]? with
    | none => rfl
    | some m =>
      by_cases hj : i = j
      · simp [hj, hplain]
      · simp [hj]
  constructor
  · unfold Descriptor.face
    simp only [Option.map_map]
    congr 1
    exact Option.map_congr fun ms _ => hmethods ms
  · intro j m hm
    unfold methods at hm ⊢
    cases hms : d.methods? with
    | none => simp [hms] at hm
    | some ms =>
      have hmark : ∀ m, ms[i]? = some m → m.Marks (f m) := fun m hm =>
        hmarks m (by rw [methods, hms]; exact hm)
      simp only [hms, Option.getD_some, Option.map_some, List.getElem?_modify] at hm ⊢
      rw [hm, Option.map_eq_map, Option.map_some]
      by_cases hj : i = j
      · rw [if_pos hj]
        exact ⟨f m, rfl, hmark m (hj ▸ hm)⟩
      · rw [if_neg hj]
        exact ⟨m, rfl, fun _ h => h, id⟩

theorem Lasts.name (h : d.Lasts d') : d'.name = d.name :=
  (congrArg Descriptor.name h.face :)

theorem Lasts.parent (h : d.Lasts d') : d'.parent = d.parent :=
  (congrArg Descriptor.parent h.face :)

theorem Lasts.vtable (h : d.Lasts d') : d'.vtable = d.vtable :=
  (congrArg Descriptor.vtable h.face :)

theorem links_face (d : Descriptor) : d.face.links = d.links := by
  unfold face links methods
  cases d.methods? with
  | none => rfl
  | some ms => simp [List.flatMap_map, Method.plain]

theorem Lasts.links (h : d.Lasts d') : d'.links = d.links := by
  rw [← links_face d', h.face, links_face]

end Descriptor

/-- The fault that a name is neither free nor bound is raised by nobody but a hook. -/
def Fault.Permitted (hook : Option Hook) (f : Fault) : Prop :=
  ∀ name, f = .registryRace name →
    ∃ h offsets d, hook = some h ∧ h.apply offsets d = .error f

/-- An event that is no fault, or one that may be raised. -/
def Event.Permitted (hook : Option Hook) (e : Event) : Prop :=
  ∀ f, e = .faulted f → f.Permitted hook

namespace World

variable {w w' w'' : World} {c : Nat}

/-! ### Worlds -/

/-- All classes, slots and names of a world are there in another one, and lead to the same. -/
structure Later (w w' : World) : Prop where
  length_le : w.classes.length ≤ w'.classes.length
  lasts : ∀ c : Nat, c < w.classes.length → (w.get c).Lasts (w'.get c)
  slots : ∀ t c, w.slots t = some c → w'.slots t = some c
  names : ∀ name c, w.fetchClass name = some c → w'.fetchClass name = some c

theorem Later.refl (w : World) : Later w w :=
  ⟨Nat.le_refl _, fun _ _ => .refl _, fun _ _ h => h, fun _ _ h => h⟩

theorem Later.trans (h : Later w w') (h' : Later w' w'') : Later w w'' where
  length_le := Nat.le_trans h.length_le h'.length_le
  lasts c hc := (h.lasts c hc).trans (h'.lasts c (Nat.lt_of_lt_of_le hc h.length_le))
  slots t c ht := h'.slots t c (h.slots t c ht)
  names name c hc := h'.names name c (h.names name c hc)

/-- What the host is told of a class that was made for it: its name and that of its parent. -/
def notice (w : World) (c : ClassId) : String × String :=
  (w.nameOf c, (w.get c).parent.elim "" w.nameOf)

/-- The host was told of some classes, in order: those that were not there before and are in no
slot.  Each has a parent. -/
structure Told (w w' : World) (made : List ClassId) : Prop where
  registered : w'.host.registered = w.host.registered ++ made.map w'.notice
  ordered : made.Pairwise (· < ·)
  mem_iff : ∀ c : Nat, c ∈ made ↔
    w.classes.length ≤ c ∧ c < w'.classes.length ∧ ∀ t, w'.slots t ≠ some c
  below : ∀ c ∈ made, ∃ p : Nat, (w'.get c).parent = some p ∧ p < w'.classes.length

/-- A later world, in which the classes that were there are in no other slots than before, and the
host was told of those that were made on demand. -/
structure Course (w w' : World) : Prop extends Later w w' where
  hook : w'.hook = w.hook
  seated : ∀ t c, w'.slots t = some c → w.slots t = some c ∨ w.classes.length ≤ c
  told : ∃ made, Told w w' made

/-- Nothing is changed but handles, objects, marks of methods that are set, and what the host knows
for itself. -/
structure Touched (w w' : World) : Prop where
  length_eq : w'.classes.length = w.classes.length
  lasts : ∀ c : Nat, (w.get c).Lasts (w'.get c)
  slots : w'.slots = w.slots
  registry : w'.registry = w.registry
  registered : w'.host.registered = w.host.registered
  hook : w'.hook = w.hook

theorem Touched.refl (w : World) : Touched w w := ⟨rfl, fun _ => .refl _, rfl, rfl, rfl, rfl⟩

theorem Touched.trans (h : Touched w w') (h' : Touched w' w'') : Touched w w'' where
  length_eq := h'.length_eq.trans h.length_eq
  lasts c := (h.lasts c).trans (h'.lasts c)
  slots := h'.slots.trans h.slots
  registry := h'.registry.trans h.registry
  registered := h'.registered.trans h.registered
  hook := h'.hook.trans h.hook

theorem Touched.modifyClass {f : Descriptor → Descriptor} (h : (w.get c).Lasts (f (w.get c))) :
    Touched w { w with classes := w.classes.modify c f } := by
  refine ⟨List.length_modify _ _ _, fun d => ?_, rfl, rfl, rfl, rfl⟩
  rw [get_modify]
  split
  · next hd => exact hd.1 ▸ h
  · exact .refl _

/-- Every name, slot and class leads to classes that are there, and each of these is in a slot or
known by its own name below another one.  A hook that does more than fill vtables may make classes
refer to others as it likes. -/
structure Whole (w : World) : Prop where
  bound : ∃ bound, w.Holds bound ∧ ∀ b ∈ bound, b.value < w.classes.length
  slots : SlotsInside w
  entered : ∀ c : Nat, c < w.classes.length → (∃ t, w.slots t = some c) ∨
    ∃ name p, (w.get c).name? = some name ∧ (w.get c).parent = some p ∧
      w.fetchClass name = some c
  links : (∀ hook, w.hook = some hook → hook.OnlyFills) →
    ∀ c, ∀ p ∈ (w.get c).links, p < w.classes.length

theorem Whole.lt_of_fetch {name : String} (h : Whole w) (hc : w.fetchClass name = some c) :
    c < w.classes.length := by
  obtain ⟨bound, hholds, hinside⟩ := h.bound
  rw [hholds.fetchClass_eq, Option.map_eq_some_iff] at hc
  obtain ⟨b, hb, rfl⟩ := hc
  exact hinside b (List.mem_of_find?_eq_some hb)

theorem Holds.fetchClass_append {bound more : List (Binding ClassId)} {name : String}
    (h : w.Holds bound) (h' : w'.Holds (bound ++ more)) (hc : w.fetchClass name = some c) :
    w'.fetchClass name = some c := by
  rw [h.fetchClass_eq, Option.map_eq_some_iff] at hc
  obtain ⟨b, hb, rfl⟩ := hc
  rw [h'.fetchClass_eq, List.find?_append, hb]
  rfl

/-! ### Going on -/

theorem Told.refl (w : World) : Told w w [] where
  registered := (List.append_nil _).symm
  ordered := .nil
  mem_iff c := by
    refine ⟨fun h => (by cases h), fun h => absurd h.2.1 (Nat.not_lt_of_le h.1)⟩
  below c hc := by cases hc

theorem Later.notice_eq (h : Later w w') {p : Nat} (hc : c < w.classes.length)
    (hparent : (w.get c).parent = some p) (hp : p < w.classes.length) :
    w'.notice c = w.notice c := by
  unfold notice
  rw [(h.lasts c hc).parent, hparent]
  exact Prod.ext (h.lasts c hc).name (h.lasts p hp).name

theorem Told.trans {made made' : List ClassId} (h : Told w w' made) (h' : Told w' w'' made')
    (hlater : Later w w') (hcourse : Course w' w'') : Told w w'' (made ++ made') := by
  have hlt : ∀ c ∈ made, c < w'.classes.length := fun c hc => ((h.mem_iff c).1 hc).2.1
  refine ⟨?_, ?_, fun c => ?_, fun c hc => ?_⟩
  · rw [h'.registered, h.registered, List.map_append, List.append_assoc]
    congr 2
    refine List.map_congr_left fun c hc => ?_
    obtain ⟨p, hparent, hp⟩ := h.below c hc
    exact (hcourse.notice_eq (hlt c hc) hparent hp).symm
  · refine List.pairwise_append.2 ⟨h.ordered, h'.ordered, fun c hc d hd => ?_⟩
    exact Nat.lt_of_lt_of_le (hlt c hc) ((h'.mem_iff d).1 hd).1
  · rw [List.mem_append, h.mem_iff, h'.mem_iff]
    constructor
    · rintro (⟨hle, hc, hslots⟩ | ⟨hle, hc, hslots⟩)
      · refine ⟨hle, Nat.lt_of_lt_of_le hc hcourse.length_le, fun t ht => ?_⟩
        rcases hcourse.seated t c ht with ht | hnew
        · exact hslots t ht
        · exact absurd hc (Nat.not_lt_of_le hnew)
      · exact ⟨Nat.le_trans hlater.length_le hle, hc, hslots⟩
    · rintro ⟨hle, hc, hslots⟩
      by_cases hold : c < w'.classes.length
      · exact .inl ⟨hle, hold, fun t ht => hslots t (hcourse.slots t c ht)⟩
      · exact .inr ⟨Nat.le_of_not_lt hold, hc, hslots⟩
  · rcases List.mem_append.1 hc with hc | hc
    · obtain ⟨p, hparent, hp⟩ := h.below c hc
      exact ⟨p, (hcourse.lasts c (hlt c hc)).parent.trans hparent,
        Nat.lt_of_lt_of_le hp hcourse.length_le⟩
    · exact h'.below c hc

theorem Course.refl (w : World) : Course w w where
  toLater := .refl w
  hook := rfl
  seated _ _ ht := .inl ht
  told := ⟨[], .refl w⟩

theorem Course.trans (h : Course w w') (h' : Course w' w'') : Course w w'' where
  toLater := h.toLater.trans h'.toLater
  hook := h'.hook.trans h.hook
  seated t c ht := by
    rcases h'.seated t c ht with ht | hnew
    · exact h.seated t c ht
    · exact .inr (Nat.le_trans h.length_le hnew)
  told := by
    obtain ⟨made, hmade⟩ := h.told
    obtain ⟨made', hmade'⟩ := h'.told
    exact ⟨made ++ made', hmade.trans hmade' h.toLater h'⟩

theorem Touched.course (h : Touched w w') : Course w w' where
  length_le := Nat.le_of_eq h.length_eq.symm
  lasts c _ := h.lasts c
  slots t c ht := h.slots ▸ ht
  names name c hc := by
    unfold fetchClass
    rw [h.registry]
    exact hc
  hook := h.hook
  seated t c ht := .inl (h.slots ▸ ht)
  told := by
    refine ⟨[], ?_, .nil, fun c => ⟨fun hc => (by cases hc), fun hc => ?_⟩, fun c hc => by cases hc⟩
    · rw [h.registered]
      exact (List.append_nil _).symm
    · have := h.length_eq ▸ hc.2.1
      exact absurd this (Nat.not_lt_of_le hc.1)

theorem Whole.touched (hw : Whole w) (h : Touched w w') : Whole w' where
  bound := by
    obtain ⟨bound, hholds, hinside⟩ := hw.bound
    refine ⟨bound, ?_, h.length_eq ▸ hinside⟩
    unfold Holds
    rw [h.registry]
    exact hholds
  slots t c ht := h.length_eq ▸ hw.slots t c (h.slots ▸ ht)
  entered c hc := by
    rcases hw.entered c (h.length_eq ▸ hc) with ⟨t, ht⟩ | ⟨name, p, hname, hparent, hfetch⟩
    · exact .inl ⟨t, h.slots ▸ ht⟩
    · refine .inr ⟨name, p, ?_, (h.lasts c).parent.trans hparent, ?_⟩
      · exact (congrArg Descriptor.name? (h.lasts c).face).trans hname
      · exact h.course.names name c hfetch
  links hhook c p hp := by
    rw [(h.lasts c).links] at hp
    exact h.length_eq ▸ hw.links (h.hook ▸ hhook) c p hp

/-! ### Names -/

/-- What comes of binding a name: it is bound behind the others, or it was bound before, or there is
no room. -/
theorem Holds.bindName_cases {bound : List (Binding ClassId)} (h : w.Holds bound) (name : String)
    (c : ClassId) :
    ∃ reg,
      (World.bindName name c w = ⟨{ w with registry := some reg }, .ok true, []⟩ ∧
        reg.Represents (bound ++ [⟨name, c⟩])) ∨
      (World.bindName name c w = ⟨{ w with registry := some reg }, .ok false, []⟩ ∧
        reg.Represents bound ∧ ∃ k, w.fetchClass name = some k) ∨
      (World.bindName name c w = ⟨{ w with registry := some reg },
          .error (.fault (.registryFull w.capacity)), [.faulted (.registryFull w.capacity)]⟩ ∧
        reg.Represents bound) := by
  obtain ⟨hrep, hcapacity⟩ := h.represents
  rw [bindName_apply]
  rcases hrep.register name c with ⟨hmem, heq⟩ | ⟨-, -, reg, heq, -, hrep'⟩ | ⟨-, -, heq⟩
  · rw [heq]
    refine ⟨_, .inr (.inl ⟨rfl, hrep, Option.ne_none_iff_exists'.1 fun hnone => ?_⟩)⟩
    exact h.fetchClass_eq_none.1 hnone hmem
  · rw [heq]
    exact ⟨reg, .inl ⟨rfl, hrep'⟩⟩
  · rw [heq, hcapacity]
    exact ⟨_, .inr (.inr ⟨rfl, hrep⟩)⟩

/-- A class came behind the others, and a name was bound to it.  Nothing that was there before is
changed. -/
structure Entered (w : World) (name : String) (d : Descriptor) (w' : World) : Prop
    extends Later w w' where
  length_eq : w'.classes.length = w.classes.length + 1
  get_eq : ∀ c : Nat, w'.get c = if c = w.classes.length then d else w.get c
  bound : ∃ bound, w'.Holds bound ∧ ∀ b ∈ bound, b.value < w'.classes.length
  fetch : w'.fetchClass name = some w.classes.length

theorem Entered.self {name : String} {d : Descriptor} (h : Entered w name d w') :
    w'.get w.classes.length = d :=
  (h.get_eq _).trans (if_pos rfl)

theorem Entered.old {name : String} {d : Descriptor} (h : Entered w name d w')
    (hc : c < w.classes.length) : w'.get c = w.get c :=
  (h.get_eq c).trans (if_neg (Nat.ne_of_lt hc))

theorem Holds.entered {bound : List (Binding ClassId)} {reg : Registry ClassId} {name : String}
    {d : Descriptor} (h : w.Holds bound) (hinside : ∀ b ∈ bound, b.value < w.classes.length)
    (hrep : reg.Represents (bound ++ [⟨name, w.classes.length⟩]))
    (hclasses : w'.classes = w.classes ++ [d]) (hregistry : w'.registry = some reg)
    (hslots : w'.slots = w.slots) : Entered w name d w' := by
  have hget : ∀ c : Nat, w'.get c = if c = w.classes.length then d else w.get c := by
    unfold World.get
    rw [hclasses]
    exact get_append w d w.slots
  have hlength : w'.classes.length = w.classes.length + 1 := by
    rw [hclasses]
    exact List.length_append
  have hholds' : w'.Holds (bound ++ [⟨name, w.classes.length⟩]) := by
    unfold Holds
    rw [hregistry]
    exact hrep
  exact {
    length_le := hlength ▸ Nat.le_succ _
    lasts := fun c hc => .of_eq ((hget c).trans (if_neg (Nat.ne_of_lt hc)))
    slots := fun t c ht => hslots ▸ ht
    names := fun n c => h.fetchClass_append hholds'
    length_eq := hlength
    get_eq := hget
    bound := by
      refine ⟨_, hholds', fun b hb => ?_⟩
      rw [hlength]
      rcases List.mem_append.1 hb with hb | hb
      · exact Nat.lt_succ_of_lt (hinside b hb)
      · exact List.mem_singleton.1 hb ▸ Nat.lt_succ_self _
    fetch := hholds'.fetchClass_of_mem (b := ⟨name, w.classes.length⟩) (by simp) }

/-! ### Parcels -/

/-- Classes of parcels came behind those that there were, all of them in slots, and names were bound
to classes.  Nothing that was there before is changed. -/
structure Grown (w : World) (bound : List (Binding ClassId)) (w' : World) : Prop where
  length_le : w.classes.length ≤ w'.classes.length
  old : ∀ c : Nat, c < w.classes.length → w'.get c = w.get c
  slots : ∀ t c, w.slots t = some c → w'.slots t = some c
  seated : ∀ t, ∀ c : Nat, w'.slots t = some c →
    w.slots t = some c ∨ w.classes.length ≤ c ∧ c < w'.classes.length
  filled : ∀ c : Nat, w.classes.length ≤ c → c < w'.classes.length → ∃ t, w'.slots t = some c
  host : w'.host = w.host
  hook : w'.hook = w.hook
  bound : ∃ more, w'.Holds (bound ++ more) ∧ ∀ b ∈ more, b.value < w'.classes.length
  links : (∀ hook, w.hook = some hook → hook.OnlyFills) →
    ∀ c : Nat, w.classes.length ≤ c → ∀ p ∈ (w'.get c).links, p < w'.classes.length

variable {bound : List (Binding ClassId)}

theorem Grown.refl (h : w.Holds bound) : Grown w bound w where
  length_le := Nat.le_refl _
  old _ _ := rfl
  slots _ _ ht := ht
  seated _ _ ht := .inl ht
  filled c hle hlt := absurd hlt (Nat.not_lt_of_le hle)
  host := rfl
  hook := rfl
  bound := ⟨[], (List.append_nil bound).symm ▸ h, nofun⟩
  links _ c hc p hp := by
    rw [get_of_length_le hc] at hp
    cases hp

theorem Grown.slotsInside (h : Grown w bound w') (hs : SlotsInside w) : SlotsInside w' := by
  intro t c ht
  rcases h.seated t c ht with ht | ⟨-, hc⟩
  · exact Nat.lt_of_lt_of_le (hs t c ht) h.length_le
  · exact hc

/-- What is left by building parcels is a later world, whose names lead to classes that there are. -/
theorem Grown.later (h : Grown w bound w') (hholds : w.Holds bound)
    (hinside : ∀ b ∈ bound, b.value < w.classes.length) :
    Later w w' ∧ ∃ bound', w'.Holds bound' ∧ ∀ b ∈ bound', b.value < w'.classes.length := by
  obtain ⟨more, hholds', hmore⟩ := h.bound
  refine ⟨⟨h.length_le, fun c hc => .of_eq (h.old c hc), h.slots,
    fun name c => hholds.fetchClass_append hholds'⟩, _, hholds', fun b hb => ?_⟩
  rcases List.mem_append.1 hb with hb | hb
  · exact Nat.lt_of_lt_of_le (hinside b hb) h.length_le
  · exact hmore b hb

/-- What is left by building parcels on a whole world is a whole world. -/
theorem Grown.whole (h : Grown w bound w') (hw : Whole w) (hholds : w.Holds bound)
    (hinside : ∀ b ∈ bound, b.value < w.classes.length) : Whole w' ∧ Course w w' := by
  obtain ⟨hlater, hbound⟩ := h.later hholds hinside
  refine ⟨⟨hbound, h.slotsInside hw.slots, fun c hc => ?_, fun hhook c p hp => ?_⟩, hlater, h.hook,
    fun t c ht => (h.seated t c ht).imp_right And.left, [], ?_, .nil, fun c => ?_, nofun⟩
  · by_cases hold : c < w.classes.length
    · rcases hw.entered c hold with ⟨t, ht⟩ | ⟨name, p, hname, hparent, hfetch⟩
      · exact .inl ⟨t, h.slots t c ht⟩
      · rw [h.old c hold]
        exact .inr ⟨name, p, hname, hparent, hlater.names name c hfetch⟩
    · exact .inl (h.filled c (Nat.le_of_not_lt hold) hc)
  · rw [h.hook] at hhook
    by_cases hold : c < w.classes.length
    · rw [h.old c hold] at hp
      exact Nat.lt_of_lt_of_le (hw.links hhook c p hp) h.length_le
    · exact h.links hhook c (Nat.le_of_not_lt hold) p hp
  · rw [h.host]
    exact (List.append_nil _).symm
  · refine ⟨fun hc => (by cases hc), fun ⟨hle, hlt, hempty⟩ => ?_⟩
    obtain ⟨t, ht⟩ := h.filled c hle hlt
    exact absurd ht (hempty t)

/-- A blank class is put into an empty slot. -/
theorem Grown.publish (h : Grown w bound w') {t : ClassSlot} (size : Nat)
    (hempty : w'.slots t = none) : Grown w bound { w' with
      classes := w'.classes ++ [.blank size]
      slots := fun r => if r = t then some w'.classes.length else w'.slots r } := by
  have hlength : (w'.classes ++ [Descriptor.blank size]).length = w'.classes.length + 1 :=
    List.length_append
  have hget := get_append w' (.blank size) fun r =>
    if r = t then some w'.classes.length else w'.slots r
  have hle := h.length_le
  refine ⟨?_, fun c hc => ?_, fun r c hr => ?_, fun r c hr => ?_, fun c hc hlt => ?_, h.host,
    h.hook, ?_, fun hhook c hc p hp => ?_⟩
  · rw [hlength]
    exact Nat.le_succ_of_le hle
  · rw [hget, if_neg (Nat.ne_of_lt (Nat.lt_of_lt_of_le hc hle)), h.old c hc]
  · have hr' := h.slots r c hr
    have hne : r ≠ t := by
      rintro rfl
      rw [hempty] at hr'
      cases hr'
    exact (if_neg hne).trans hr'
  · rw [hlength]
    by_cases hrt : r = t
    · obtain rfl : w'.classes.length = c := Option.some.inj ((if_pos hrt).symm.trans hr)
      exact .inr ⟨hle, Nat.lt_succ_self _⟩
    · exact (h.seated r c ((if_neg hrt).symm.trans hr)).imp_right fun hc =>
        ⟨hc.1, Nat.lt_succ_of_lt hc.2⟩
  · rw [hlength] at hlt
    by_cases hlast : c = w'.classes.length
    · exact ⟨t, (if_pos rfl).trans (congrArg some hlast.symm)⟩
    · obtain ⟨r, hr⟩ := h.filled c hc (by omega)
      have hne : r ≠ t := by
        rintro rfl
        rw [hempty] at hr
        cases hr
      exact ⟨r, (if_neg hne).trans hr⟩
  · obtain ⟨more, hholds, hmore⟩ := h.bound
    refine ⟨more, hholds, fun b hb => ?_⟩
    rw [hlength]
    exact Nat.lt_succ_of_lt (hmore b hb)
  · rw [hget] at hp
    rw [hlength]
    split at hp
    · cases hp
    · exact Nat.lt_succ_of_lt (h.links hhook c hc p hp)

theorem BuildFault.permitted {hook : Option Hook} {f : Fault} (hf : BuildFault f) :
    f.Permitted hook := by
  intro name heq
  rw [heq] at hf
  cases hf

/-- Once all classes of a parcel are published, no others are changed, and these refer to classes
that are there. -/
theorem Grown.frame (bound : List (Binding ClassId)) (N : Nat) (slots : ClassSlot → Option ClassId)
    (hs : SlotsInside w) :
    Frame (Fault.Permitted w.hook) (fun c => w.classes.length ≤ c ∧ c < N)
      (fun p => (∀ hook, w.hook = some hook → hook.OnlyFills) → p < N)
      (fun v => Grown w bound v ∧ v.classes.length = N ∧ v.slots = slots) where
  building := BuildFault.permitted
  slot := by
    rintro v t c ⟨h, hlength, -⟩ ht -
    exact hlength ▸ h.slotsInside hs t c ht
  change := by
    rintro v c f ⟨hle, hlt⟩ hproper ⟨h, hlength, hslots⟩
    have hlength' : (v.classes.modify c f).length = v.classes.length := List.length_modify _ _ _
    have hget := get_modify v c
    refine ⟨⟨hlength' ▸ h.length_le, fun d hd => ?_, h.slots,
      fun t d ht => hlength' ▸ h.seated t d ht, fun d hd hlt => h.filled d hd (hlength' ▸ hlt),
      h.host, h.hook, hlength' ▸ h.bound, fun hhook d hd p hp => ?_⟩, hlength'.trans hlength,
      hslots⟩
    · rw [hget, if_neg fun heq : c = d ∧ _ => Nat.not_lt_of_le hle (heq.1 ▸ hd), h.old d hd]
    · rw [hget] at hp
      rw [hlength']
      split at hp
      · next heq =>
        obtain ⟨rfl, -⟩ := heq
        rcases hproper p hp with hp | hp
        · exact h.links hhook c hd p hp
        · exact hlength.symm ▸ hp hhook
      · exact h.links hhook d hd p hp
  offsets _ := fun ⟨h, hlength, hslots⟩ => ⟨⟨h.length_le, h.old, h.slots, h.seated, h.filled,
    h.host, h.hook, h.bound, h.links⟩, hlength, hslots⟩
  hookCalls _ := fun ⟨h, hlength, hslots⟩ => ⟨⟨h.length_le, h.old, h.slots, h.seated, h.filled,
    h.host, h.hook, h.bound, h.links⟩, hlength, hslots⟩
  hook := by
    rintro v hook ⟨h, -, -⟩ hhook
    have hhook' := h.hook.symm.trans hhook
    refine ⟨fun hfault name _ => ⟨hook, _, _, hhook', hfault⟩, fun {offsets d d'} hd p hp => ?_⟩
    by_cases honly : ∀ hook, w.hook = some hook → hook.OnlyFills
    · obtain ⟨vtable, -, rfl⟩ := honly hook hhook' offsets d d' hd
      exact .inl hp
    · exact .inr fun hall => absurd hall honly

theorem Grown.rebound (h : Grown w bound w') {reg : Registry ClassId}
    {more : List (Binding ClassId)} (hrep : reg.Represents (bound ++ more))
    (hmore : ∀ b ∈ more, b.value < w'.classes.length) :
    Grown w bound { w' with registry := some reg } :=
  ⟨h.length_le, h.old, h.slots, h.seated, h.filled, h.host, h.hook, ⟨more, hrep, hmore⟩, h.links⟩

theorem Grown.of_registry {reg : Registry ClassId} (h : w.Holds bound)
    (hrep : reg.Represents bound) : Grown w bound { w with registry := some reg } := by
  have hnone : ∀ b ∈ ([] : List (Binding ClassId)), b.value < w.classes.length := nofun
  exact (Grown.refl h).rebound (by rwa [List.append_nil]) hnone

theorem Grown.bindName (h : Grown w bound w') (hc : c < w'.classes.length) (name : String) :
    ∃ reg, (World.bindName name c w').state = { w' with registry := some reg } ∧
      Grown w bound { w' with registry := some reg } := by
  obtain ⟨more, hholds, hmore⟩ := h.bound
  obtain ⟨reg, ⟨heq, hrep⟩ | ⟨heq, hrep, -⟩ | ⟨heq, hrep⟩⟩ := hholds.bindName_cases name c
  · rw [List.append_assoc] at hrep
    refine ⟨reg, by rw [heq], h.rebound hrep fun b hb => ?_⟩
    rcases List.mem_append.1 hb with hb | hb
    · exact hmore b hb
    · exact List.mem_singleton.1 hb ▸ hc
  · exact ⟨reg, by rw [heq], h.rebound hrep hmore⟩
  · exact ⟨reg, by rw [heq], h.rebound hrep hmore⟩

/-- A parcel is built, or the bootstrap stops somewhere; in any case only its own classes are
changed. -/
theorem bootstrap_grown (p : ParcelSpec) (hs : SlotsInside w) (hholds : w.Holds bound) :
    (World.bootstrap p).Reaches (Grown w bound) (Event.Permitted w.hook) (fun _ _ => True) w := by
  have hstart : KeepsRaising (Fault.Permitted w.hook) (Grown w bound)
      (Step.modify fun v : World => { v with parcels := v.parcels + 1 }) :=
    .modify fun _ h => ⟨h.length_le, h.old, h.slots, h.seated, h.filled, h.host, h.hook, h.bound,
      h.links⟩
  refine (hstart.reaches (.refl hholds)).bind fun _ v₀ hv₀ _ => ?_
  refine ((Step.Keeps.gets (S := fun _ => False) (·.parcels)).reaches hv₀).bind
    fun parcel v hv _ => ?_
  have hpublish : KeepsRaising (Fault.Permitted w.hook) (Grown w bound) (publishAll p.classes) :=
    publishAll_keeps BuildFault.permitted p.classes fun _ size hempty h => h.publish size hempty
  refine (hpublish.reaches hv).bind fun _ v₁ hv₁ hgives => ?_
  obtain ⟨-, -, -, hpub⟩ := publishAll_gives hgives (hv.slotsInside hs)
  have hnew : ∀ s ∈ p.classes, ∀ x : World, ∀ c : Nat,
      Grown w bound x ∧ x.classes.length = v₁.classes.length ∧ x.slots = v₁.slots →
        x.slots s.slot = some c → w.classes.length ≤ c ∧ c < v₁.classes.length := by
    rintro s hs' x c ⟨-, -, hslots⟩ hc
    obtain ⟨k, hk, hget⟩ := List.getElem_of_mem hs'
    have hslot := (hpub.blank_at ((List.getElem?_eq_getElem hk).trans (congrArg some hget))).1
    rw [hslots, hslot] at hc
    obtain rfl := Option.some.inj hc
    rw [hpub.length_eq]
    exact ⟨Nat.le_trans hv.length_le (Nat.le_add_right _ _), Nat.add_lt_add_left hk _⟩
  have hframe := Grown.frame bound v₁.classes.length v₁.slots hs
  have hrest : KeepsRaising (Fault.Permitted w.hook)
      (fun v => Grown w bound v ∧ v.classes.length = v₁.classes.length ∧ v.slots = v₁.slots) (do
        completeAll parcel p.classes p.novel p.overridden p.inherited
        finishAll parcel p.classes p.novel
        Step.emit (.parcelBootstrapped parcel p.classes.length)
        pure parcel) := by
    refine Step.Keeps.bind (hframe.completeAll_keeps ?_ hnew parcel _ _ _) fun _ => ?_
    · rintro x cells ⟨h, hrest⟩
      exact ⟨⟨h.length_le, h.old, h.slots, h.seated, h.filled, h.host, h.hook, h.bound, h.links⟩,
        hrest⟩
    refine Step.Keeps.bind (hframe.finishAll_keeps ?_ hnew parcel _) fun _ => ?_
    · rintro x c ⟨-, hc⟩ ⟨h, hlength, hslots⟩
      have hc' : c < x.classes.length := hlength.symm ▸ hc
      obtain ⟨reg, hstate, hgrown⟩ := h.bindName hc' (x.nameOf c)
      unfold World.register
      rw [hstate]
      exact ⟨hgrown, hlength, hslots⟩
    · exact Step.Keeps.bind (KeepsRaising.emit nofun) fun _ => Step.Keeps.pure parcel
  exact (hrest.reaches ⟨hv₁, rfl, rfl⟩).mono (fun _ h => h.1) (fun _ he => he) fun _ _ _ => trivial

end World

end ObjectSystem
