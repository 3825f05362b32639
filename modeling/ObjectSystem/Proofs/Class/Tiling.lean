import ObjectSystem.Proofs.Class.Chains
import ObjectSystem.Proofs.Class.Creation
import ObjectSystem.Proofs.Class.Kinds
import ObjectSystem.Proofs.Class.Lasting

/-! # Methods and slots

A class has the slots of its parent, and behind them one for each method that it introduces
(`Fitted`).  So from a class upward every slot was introduced by one method, whatever was overridden
or kept, and whether classes came with parcels or were made on demand (`Tiling.methodsUp_perm`).

`Tiled history w` says that the world `w` came about by calls that complete, with the parcels of
`history` bootstrapped on the way, and that these name no reference twice.  Such worlds are of a
`Kind`: hosts may do whatever leads to them. -/

namespace ObjectSystem

theorem Descriptor.methods_face (d : Descriptor) : d.face.methods = d.methods.map Method.plain := by
  unfold face methods
  cases d.methods? <;> rfl

theorem Descriptor.Lasts.offsets {d d' : Descriptor} (h : d.Lasts d') :
    d'.methods.map (·.offset) = d.methods.map (·.offset) := by
  have hplain : ∀ d : Descriptor, d.methods.map (·.offset) = d.face.methods.map (·.offset) := by
    intro d
    rw [d.methods_face, List.map_map]
    rfl
  rw [hplain, h.face, ← hplain]

namespace World

variable {w w' w₁ : World} {c n parent : Nat} {history : List ParcelSpec} {p : ParcelSpec}
  {name : String} {fresh : List String}

theorem Holds.of_bindName {bound : List (Binding ClassId)} {b : Bool} (h : w.Holds bound)
    (hbind : (World.bindName name c).Gives w b w') :
    ∃ reg, w' = { w with registry := some reg } ∧
      reg.Represents (bound ++ if b then [⟨name, c⟩] else []) := by
  obtain ⟨hanswer, hstate⟩ := hbind
  obtain ⟨reg, ⟨heq, hrep⟩ | ⟨heq, hrep, -⟩ | ⟨heq, -⟩⟩ := h.bindName_cases name c
  · rw [heq] at hanswer hstate
    exact ⟨reg, hstate.symm, Except.ok.inj hanswer ▸ hrep⟩
  · rw [heq] at hanswer hstate
    exact ⟨reg, hstate.symm, Except.ok.inj hanswer ▸ (List.append_nil bound).symm ▸ hrep⟩
  · rw [heq] at hanswer
    cases hanswer

/-- No classes are made and no offsets set, and names that are bound lead to classes that there
are. -/
structure Aside (w w' : World) : Prop extends Later w w' where
  length_eq : w'.classes.length = w.classes.length
  slots_eq : w'.slots = w.slots
  offsets : w'.offsets = w.offsets
  bound : ∃ bound, w'.Holds bound ∧ ∀ b ∈ bound, b.value < w'.classes.length

theorem Aside.of_bindName {bound : List (Binding ClassId)} (h : w.Holds bound)
    (hinside : ∀ b ∈ bound, b.value < w.classes.length)
    (hbind : (World.bindName name c).Gives w false w') : Aside w w' := by
  obtain ⟨reg, rfl, hrep⟩ := h.of_bindName hbind
  exact {
    length_le := Nat.le_refl _
    lasts := fun _ _ => .refl _
    slots := fun _ _ ht => ht
    names := fun n c hn => h.fetchClass_append hrep hn
    length_eq := rfl
    slots_eq := rfl
    offsets := rfl
    bound := ⟨bound, List.append_nil bound ▸ hrep, hinside⟩ }

/-! ### One class -/

/-- A class is behind its parent.  It has the slots of its parent, and behind them one for each
method that it introduces, in order. -/
structure Fitted (w : World) (c : Nat) : Prop where
  below : ∀ p : Nat, (w.get c).parent = some p → p < c
  size : (w.get c).classSize = slotOffset (w.get c).vtable.length
  length_eq : (w.get c).vtable.length =
    (w.slotsAbove (w.get c).parent).length + (w.get c).methods.length
  offsets : (w.get c).methods.map (·.offset) =
    (List.range' (w.slotsAbove (w.get c).parent).length (w.get c).methods.length).map slotOffset

theorem Fitted.lasts (h : Fitted w c) (hl : ∀ a : Nat, a ≤ c → (w.get a).Lasts (w'.get a)) :
    Fitted w' c := by
  have hself := hl c (Nat.le_refl c)
  have habove : w'.slotsAbove (w'.get c).parent = w.slotsAbove (w.get c).parent := by
    rw [hself.parent]
    cases hp : (w.get c).parent with
    | none => rfl
    | some p => exact (hl p (Nat.le_of_lt (h.below p hp))).vtable
  have hmethods : (w'.get c).methods.length = (w.get c).methods.length := by
    simpa only [List.length_map] using congrArg List.length hself.offsets
  refine ⟨fun p hp => h.below p (hself.parent ▸ hp), ?_, ?_, ?_⟩
  · rw [hself.vtable, ← h.size]
    exact (congrArg Descriptor.classSize hself.face :)
  · rw [hself.vtable, habove, hmethods, h.length_eq]
  · rw [hself.offsets, habove, hmethods, h.offsets]

/-- The class of a spec, which lists its share of the new methods. -/
theorem Formed.fitted {k : Nat} {s : ClassSpec} (h : Formed w p k s c) : Fitted w c := by
  obtain ⟨hshaped, hlisted⟩ := h
  have hcount : (w.get c).methods.length = s.numNovel := by
    have hlength := congrArg List.length hlisted
    rwa [List.length_map, List.length_map, hshaped.numNovel] at hlength
  refine ⟨fun p hp => hshaped.parent_lt hp, hshaped.size, ?_, ?_⟩
  · rw [hshaped.vtable, List.length_append, List.length_mapIdx, List.length_map, hshaped.numNovel,
      hcount]
  · have hoffsets := congrArg (List.map fun o : String × Option Code × Nat => o.2.2) hlisted
    rw [List.map_map, List.map_map] at hoffsets
    refine hoffsets.trans (List.ext_getElem ?_ fun j hj hj' => ?_)
    · rw [List.length_map, List.length_map, List.length_range', hshaped.numNovel, hcount]
    · rw [List.length_map] at hj
      have hplaced := hshaped.introduced j _ (List.getElem?_eq_getElem hj)
      rw [hshaped.above] at hplaced
      simp only [List.getElem_map, List.getElem_range', Function.comp_apply]
      rw [hplaced]
      simp only [slotOffset, slotSize]
      omega

theorem Fitted.copied {vtable : List (Option Code)} (h : Fitted w parent)
    (hmade : Entered w name { w.subclassOf parent name with vtable := vtable } w')
    (hparent : parent < w.classes.length)
    (hlength : vtable.length = (w.get parent).vtable.length) : Fitted w' w.classes.length := by
  have habove : w'.slotsAbove (some parent) = (w.get parent).vtable :=
    congrArg Descriptor.vtable (hmade.old hparent)
  refine ⟨fun q hq => ?_, ?_, ?_, ?_⟩
  · rw [hmade.self] at hq
    exact Option.some.inj hq ▸ hparent
  · rw [hmade.self]
    exact h.size.trans (congrArg slotOffset hlength.symm)
  · rw [hmade.self]
    exact hlength.trans (congrArg List.length habove.symm)
  · rw [hmade.self]
    rfl

/-! ### Chains -/

/-- The methods that a class and those above it introduced, from the class upward. -/
def methodsUp (w : World) (c : ClassId) : List Method :=
  (w.ancestors c).flatMap fun a => (w.get a).methods

/-- What is known of a world with some parcels: its classes are fitted, names and slots lead to
classes that there are, and only references that were named have offsets. -/
structure Tiling (history : List ParcelSpec) (w : World) : Prop where
  slots : SlotsInside w
  bound : ∃ bound, w.Holds bound ∧ ∀ b ∈ bound, b.value < w.classes.length
  named : ∀ m, w.offsets m ≠ 0 → m ∈ history.flatMap ParcelSpec.named
  fitted : ∀ c : Nat, c < w.classes.length → Fitted w c

namespace Tiling

theorem start (t : HostTable) : Tiling [] { host := t } where
  slots := nofun
  bound := ⟨[], rfl, nofun⟩
  named _ hm := absurd rfl hm
  fitted c hc := absurd hc (Nat.not_lt_zero c)

theorem parentsFirst (h : Tiling history w) : ParentsFirst w w.classes.length := fun c p hc hp =>
  (h.fitted c hc).below p hp

theorem lt_of_fetch (h : Tiling history w) (hc : w.fetchClass name = some c) :
    c < w.classes.length := by
  obtain ⟨bound, hholds, hinside⟩ := h.bound
  rw [hholds.fetchClass_eq, Option.map_eq_some_iff] at hc
  obtain ⟨b, hb, rfl⟩ := hc
  exact hinside b (List.mem_of_find?_eq_some hb)

/-- From a class upward there is one method for each slot of the class. -/
theorem methodsUp_perm (h : Tiling history w) (hc : c < w.classes.length) :
    ((w.methodsUp c).map (·.offset)).Perm
      ((List.range (w.get c).vtable.length).map slotOffset) := by
  induction c using Nat.strongRecOn with
  | ind c ih =>
    obtain ⟨hbelow, -, hlength, hoffsets⟩ := h.fitted c hc
    have habove : (((w.get c).parent.elim [] w.methodsUp).map (·.offset)).Perm
        ((List.range (w.slotsAbove (w.get c).parent).length).map slotOffset) := by
      cases hp : (w.get c).parent with
      | none => exact .refl _
      | some p => exact ih p (hbelow p hp) (Nat.lt_trans (hbelow p hp) hc)
    have hup : w.methodsUp c = (w.get c).methods ++ (w.get c).parent.elim [] w.methodsUp := by
      unfold methodsUp
      rw [h.parentsFirst.ancestors_cons (Nat.le_refl _) hc, List.flatMap_cons]
      cases (w.get c).parent <;> rfl
    rw [hup, List.map_append, hoffsets, hlength, List.range_eq_range', ← List.range'_append_1,
      Nat.zero_add, List.map_append, ← List.range_eq_range']
    exact (habove.append_left _).trans List.perm_append_comm

/-! ### Calls -/

theorem forms (h : Tiling history w) (hcall : (World.bootstrap p).Gives w n w')
    (hhook : ∀ hook, w.hook = some hook → hook.OnlyFills)
    (henough : (p.classes.map (·.numNovel)).sum ≤ p.novel.length)
    (honce : ((history ++ [p]).flatMap ParcelSpec.named).Nodup) :
    Forms p (history.flatMap ParcelSpec.named) w w' :=
  bootstrap_forms h.slots (fun d hd => (h.fitted d hd).size) h.named hcall hhook henough
    ((named_append history p).nodup_iff.1 honce)

/-- Another parcel fits its classes behind those that there are. -/
theorem bootstrap (h : Tiling history w) (hcall : (World.bootstrap p).Gives w n w')
    (hhook : ∀ hook, w.hook = some hook → hook.OnlyFills)
    (henough : (p.classes.map (·.numNovel)).sum ≤ p.novel.length)
    (honce : ((history ++ [p]).flatMap ParcelSpec.named).Nodup) :
    Later w w' ∧ Tiling (history ++ [p]) w' := by
  obtain ⟨bound, hholds, hinside⟩ := h.bound
  have hgrown : Grown w bound w' := hcall.2 ▸ (bootstrap_grown p h.slots hholds).state
  obtain ⟨hlater, hbound⟩ := hgrown.later hholds hinside
  obtain ⟨hformed, hlength, hold, -, hslots, hnamed⟩ := h.forms hcall hhook henough honce
  refine ⟨hlater, hslots, hbound,
    fun m hm => (named_append history p).mem_iff.2 (hnamed m hm), fun c hc => ?_⟩
  by_cases hlt : c < w.classes.length
  · exact (h.fitted c hlt).lasts fun a ha => .of_eq (hold a (Nat.lt_of_le_of_lt ha hlt))
  · obtain ⟨k, rfl⟩ := Nat.exists_eq_add_of_le (Nat.le_of_not_lt hlt)
    have hk : k < p.classes.length := by omega
    exact (hformed k _ (List.getElem?_eq_getElem hk)).fitted

/-- A copy of a class is entered under a name, with other functions in its slots. -/
theorem entered {vtable : List (Option Code)} {w₂ : World} (h : Tiling history w)
    (hparent : parent < w.classes.length)
    (hlength : vtable.length = (w.get parent).vtable.length)
    (hbind : (bindName name w.classes.length).Gives w true w₂)
    (hw' : w' = { w₂ with
      classes := w₂.classes ++ [{ w.subclassOf parent name with vtable := vtable }] }) :
    Entered w name { w.subclassOf parent name with vtable := vtable } w' ∧ Tiling history w' := by
  obtain ⟨bound, hholds, hinside⟩ := h.bound
  obtain ⟨reg, rfl, hrep⟩ := hholds.of_bindName hbind
  have hmade : Entered w name { w.subclassOf parent name with vtable := vtable } w' :=
    hholds.entered hinside hrep (by rw [hw']) (by rw [hw']) (by rw [hw'])
  refine ⟨hmade, fun t c ht => ?_, hmade.bound, fun m hm => ?_, fun c hc => ?_⟩
  · rw [hw'] at ht
    exact Nat.lt_of_lt_of_le (h.slots t c ht) hmade.length_le
  · rw [hw'] at hm
    exact h.named m hm
  · have hcount := hmade.length_eq
    by_cases hlt : c < w.classes.length
    · exact (h.fitted c hlt).lasts fun a ha => hmade.lasts a (Nat.lt_of_le_of_lt ha hlt)
    · obtain rfl : c = w.classes.length := by omega
      exact (h.fitted parent hparent).copied hmade hparent hlength

theorem aside (h : Tiling history w) (ha : Aside w w') : Tiling history w' where
  slots t c ht := ha.length_eq ▸ h.slots t c (ha.slots_eq ▸ ht)
  bound := ha.bound
  named m hm := h.named m (ha.offsets ▸ hm)
  fitted c hc := (h.fitted c (ha.length_eq ▸ hc)).lasts fun a hac =>
    ha.lasts a (Nat.lt_of_le_of_lt hac (ha.length_eq ▸ hc))

end Tiling

/-! ### Worlds that calls lead to -/

/-- The worlds that come about by calls that make classes and complete. -/
inductive Tiled : List ParcelSpec → World → Prop
  | start (t : HostTable) : Tiled [] { host := t }
  /-- A parcel with enough new methods is bootstrapped, and no reference is named twice in all.  A
  hook, if there is one, does no more than put functions into vtables. -/
  | bootstrap {history : List ParcelSpec} {w w' : World} {p : ParcelSpec} {n : Nat}
    (before : Tiled history w) (call : (World.bootstrap p).Gives w n w')
    (hook : ∀ hook, w.hook = some hook → hook.OnlyFills)
    (enough : (p.classes.map (·.numNovel)).sum ≤ p.novel.length)
    (once : ((history ++ [p]).flatMap ParcelSpec.named).Nodup) : Tiled (history ++ [p]) w'
  /-- A subclass is made for a host that defines the methods `fresh`. -/
  | subclass {history : List ParcelSpec} {w w' : World} {fresh : List String} {name : String}
    {parent : Nat} (before : Tiled history w) (inside : parent < w.classes.length)
    (call : (createSubclass (.answering fresh) name parent).Gives w (.ok w.classes.length) w') :
    Tiled history w'
  /-- Something is done that makes no classes and does not set offsets. -/
  | aside {history : List ParcelSpec} {w w' : World} (before : Tiled history w)
    (same : Aside w w') : Tiled history w'

/-- A host that answers at once is given a copy of the parent with its functions put in, entered
under the name, or the name was bound before and no class is made. -/
theorem Tiling.subclass_cases (h : Tiling history w) (hparent : parent < w.classes.length)
    (hmake : (createSubclass (.answering fresh) name parent).Gives w (.ok w.classes.length) w') :
    Aside w w' ∨ ∃ candidate,
      installAll (w.subclassOf parent name) (w.overridable parent fresh) = .ok candidate ∧
        Entered w name candidate w' ∧ Tiling history w' := by
  cases hfinal : (w.get parent).flags.final with
  | true => cases ((gives_createSubclass_final _ _ hfinal).1 hmake).1
  | false =>
    obtain ⟨fresh', w₁, candidate, b, w₂, h₁, hcand, h₂, h₃⟩ :=
      (gives_createSubclass _ _ hfinal).1 hmake
    obtain ⟨rfl, rfl⟩ := (Step.gives_pure _ _ _ _).1 h₁
    cases b with
    | false =>
      obtain ⟨bound, hholds, hinside⟩ := h.bound
      obtain ⟨-, -, -, rfl⟩ := h₃
      exact .inl (.of_bindName hholds hinside h₂)
    | true =>
      obtain ⟨vtable, hlength, rfl⟩ := installAll_vtable hcand
      obtain ⟨-, hw'⟩ := (Step.gives_pure _ _ _ _).1 h₃.1
      exact .inr ⟨_, hcand, h.entered hparent hlength h₂ hw'⟩

theorem Tiling.subclass (h : Tiling history w) (hparent : parent < w.classes.length)
    (hmake : (createSubclass (.answering fresh) name parent).Gives w (.ok w.classes.length) w') :
    Tiling history w' := by
  obtain hsame | ⟨candidate, -, -, hw'⟩ := h.subclass_cases hparent hmake
  · exact h.aside hsame
  · exact hw'

theorem Tiled.tiling (h : Tiled history w) : Tiling history w := by
  induction h with
  | start t => exact .start t
  | bootstrap _ call hook enough once ih => exact (ih.bootstrap call hook enough once).2
  | subclass _ inside call ih => exact ih.subclass inside call
  | aside _ same ih => exact ih.aside same

theorem subclassOf_lasts (h : (w.get parent).Lasts (w'.get parent)) (name : String) :
    w'.subclassOf parent name = w.subclassOf parent name :=
  congrArg (fun d : Descriptor =>
    { d with parent := some parent, name? := some name, methods? := some [] }) h.face

/-- A class is entered that was made of a parent as it was before the host had answered. -/
theorem Tiled.entered {candidate : Descriptor} {w₂ : World} (hw₁ : Tiled history w₁)
    (hlater : Later w w₁) (hparent : parent < w.classes.length)
    (hfinal : (w.get parent).flags.final = false)
    (hcand : installAll (w.subclassOf parent name) (w₁.overridable parent fresh) = .ok candidate)
    (hbind : (bindName name w₁.classes.length).Gives w₁ true w₂)
    (hw' : w' = { w₂ with classes := w₂.classes ++ [candidate] }) :
    Entered w₁ name candidate w' ∧ Tiled history w' := by
  have hlasts := hlater.lasts parent hparent
  have hparent₁ := Nat.lt_of_lt_of_le hparent hlater.length_le
  have hfinal₁ : (w₁.get parent).flags.final = false :=
    (congrArg (·.flags.final) hlasts.face :).trans hfinal
  rw [← subclassOf_lasts hlasts name] at hcand
  have hmake := (gives_createSubclass (.answering fresh) name hfinal₁).2
    ⟨fresh, w₁, candidate, true, w₂, ⟨rfl, rfl⟩, hcand, hbind, ⟨rfl, rfl⟩, rfl⟩
  obtain ⟨vtable, hlength, rfl⟩ := installAll_vtable hcand
  exact ⟨(hw₁.tiling.entered hparent₁ hlength hbind hw').1, hw' ▸ hw₁.subclass hparent₁ hmake⟩

/-- The worlds that come about by calls that make classes and complete are a kind. -/
def Tiled.kind : Kind where
  of := Tiled
  onward := Later
  refl := .refl
  trans := .trans
  length_le h := h.length_le
  inside hw hc := hw.tiling.lt_of_fetch hc
  declared {_ w} f hw := by
    have hsame : Aside w { w with host := f w.host } :=
      ⟨⟨Nat.le_refl _, fun _ _ => .refl _, fun _ _ ht => ht, fun _ _ hn => hn⟩, rfl, rfl, rfl,
        hw.tiling.bound⟩
    exact ⟨hsame.toLater, hw.aside hsame⟩
  refused hw hbind := by
    obtain ⟨bound, hholds, hinside⟩ := hw.tiling.bound
    have hsame := Aside.of_bindName hholds hinside hbind
    exact ⟨hsame.toLater, hw.aside hsame⟩
  entered hw₁ hlater hparent hfinal hcand hbind := by
    obtain ⟨hmade, hw'⟩ := hw₁.entered hlater hparent hfinal hcand hbind rfl
    exact ⟨hmade.toLater, hw'⟩

end World

end ObjectSystem
