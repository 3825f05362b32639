import ObjectSystem.Proofs.Class.Building

/-! # What building classes leaves alone

The bootstrap of a parcel goes through many steps and can stop at any of them.  What it does to a
world is of a few kinds only: it changes descriptors of classes, sets offsets and cells, registers
classes, and adds blank ones.  What is said of a world and stays true under each of these is
therefore kept by every part of a bootstrap, whether it succeeds or stops.

A `Frame` says this of the steps that all parts have in common.  It takes account of which classes
are changed, of which classes they come to refer to, and of the faults that are raised.

What is said of the objects and the registry alone (`Apart`) is kept by a whole bootstrap
(`bootstrap_keeps`).  No part of it has an allowance that could run out either. -/

namespace ObjectSystem

/-- The classes that a class refers to: its parent, its own class, and those of its methods. -/
def Descriptor.links (d : Descriptor) : List ClassId :=
  d.parent.toList ++ d.metaclass.toList ++ d.methods.flatMap (·.metaclass.toList)

theorem Descriptor.mem_links {d : Descriptor} {p : ClassId} :
    p ∈ d.links ↔
      d.parent = some p ∨ d.metaclass = some p ∨ ∃ m ∈ d.methods, m.metaclass = some p := by
  simp only [Descriptor.links, List.mem_append, Option.mem_toList, List.mem_flatMap, or_assoc]

/-- What a class refers to that another one does not is one of the classes of `L`. -/
def Descriptor.Proper (d' : Descriptor) (L : Nat → Prop) (d : Descriptor) : Prop :=
  ∀ p ∈ d'.links, p ∈ d.links ∨ L p

theorem Descriptor.Proper.of_links {d d' : Descriptor} {L : Nat → Prop} (h : d'.links = d.links) :
    d'.Proper L d :=
  fun _ hp => .inl (h ▸ hp)

/-- A hook raises no faults but those of `F`, and makes classes refer to no others but those of
`L`. -/
structure Hook.Obeys (hook : Hook) (F : Fault → Prop) (L : Nat → Prop) :
    Prop where
  fault : ∀ {offsets d f}, hook.apply offsets d = .error f → F f
  proper : ∀ {offsets d d'}, hook.apply offsets d = .ok d' → d'.Proper L d

namespace World

variable {w w' : World}

/-! ### Frames -/

/-- The faults that are raised where classes are built. -/
def BuildFault : Fault → Prop
  | .doubleBootstrap _ | .classNotBootstrapped | .slotOutOfRange _ _ | .registryFull _ => True
  | _ => False

/-- An operation that keeps what is said of a world, raises no faults but those of `F`, and stops
for no other reason. -/
def KeepsRaising {α : Type} (F : Fault → Prop) (I : World → Prop) (x : Step World α) : Prop :=
  x.Keeps I (fun e => ∀ f, e = .faulted f → F f) fun stop => ∃ f, stop = .fault f ∧ F f

/-- What is said of a world stays true when the descriptors of the classes of `A` are changed and
offsets are set.  Slots lead to classes of `L`, which others may refer to. -/
structure Frame (F : Fault → Prop) (A L : Nat → Prop) (I : World → Prop) : Prop where
  building : ∀ {f}, BuildFault f → F f
  slot : ∀ {w : World} {t c}, I w → w.slots t = some c → L c
  change : ∀ {w : World} {c : Nat} (f : Descriptor → Descriptor), A c →
    (f (w.get c)).Proper L (w.get c) → I w → I { w with classes := w.classes.modify c f }
  offsets : ∀ {w : World} (offsets : MethodRef → Nat), I w → I { w with offsets := offsets }
  hookCalls : ∀ {w : World} (calls : List HookCall), I w → I { w with hookCalls := calls }
  hook : ∀ {w : World} {hook : Hook}, I w → w.hook = some hook → hook.Obeys F L

section Frame

variable {F : Fault → Prop} {A L : Nat → Prop} {I : World → Prop} {α : Type}

theorem KeepsRaising.fault {f : Fault} (hf : F f) :
    KeepsRaising F I (Step.fault f : Step World α) :=
  Step.Keeps.fault (fun _ heq => Event.faulted.inj heq ▸ hf) ⟨f, rfl, hf⟩

theorem KeepsRaising.emit {e : Event} (he : ∀ f, e ≠ .faulted f) :
    KeepsRaising F I (Step.emit e) :=
  Step.Keeps.emit fun f heq => absurd heq (he f)

theorem KeepsRaising.slotClass_bind {P : Nat → Prop} {t : ClassSlot} {g : ClassId → Step World α}
    (hF : F .classNotBootstrapped) (ht : ∀ w c, I w → w.slots t = some c → P c)
    (hg : ∀ c, P c → KeepsRaising F I (g c)) : KeepsRaising F I (slotClass t >>= g) :=
  keeps_slotClass_bind (fun _ heq => Event.faulted.inj heq ▸ hF) ⟨_, rfl, hF⟩
    fun w c hw hslot => hg c (ht w c hw hslot)

namespace Frame

variable (hI : Frame F A L I) {c : Nat} (hc : A c)

include hI

theorem setOffset_keeps (m : MethodRef) (offset : Nat) : KeepsRaising F I (setOffset m offset) :=
  Step.Keeps.modify fun _ => hI.offsets _

include hc in
theorem tryModifyClass_keeps {f : Descriptor → Except Fault Descriptor}
    (hfault : ∀ w e, I w → f (w.get c) = .error e → F e)
    (hproper : ∀ w d, I w → f (w.get c) = .ok d → d.Proper L (w.get c)) :
    KeepsRaising F I (tryModifyClass c f) := by
  intro w hw
  unfold tryModifyClass
  cases hf : f (w.get c) with
  | error e => exact KeepsRaising.fault (hfault w e hw hf) w hw
  | ok d =>
    refine ⟨hI.change (fun _ => d) hc (hproper w d hw hf) hw, fun e he => ?_, fun stop hstop => ?_⟩
    · cases he
    · cases hstop

include hc in
theorem install_keeps (code : Code) (offset : Nat) :
    KeepsRaising F I (tryModifyClass c (·.install code offset)) := by
  refine hI.tryModifyClass_keeps hc (fun w e _ he => ?_) fun w d _ hd => ?_
  · unfold Descriptor.install at he
    split at he
    · cases he
    · cases he
      exact hI.building trivial
  · unfold Descriptor.install at hd
    split at hd
    · cases hd
      exact .of_links rfl
    · cases hd

include hc in
theorem callHook_keeps : KeepsRaising F I (callHook c) := by
  refine Step.Keeps.get_bind fun w hw => ?_
  cases hhook : w.hook with
  | none => exact Step.Keeps.pure ()
  | some hook =>
    have hobeys := hI.hook hw hhook
    exact Step.Keeps.bind (.set (hhook ▸ hI.hookCalls _ hw)) fun _ =>
      hI.tryModifyClass_keeps hc (fun _ _ _ he => hobeys.fault he) fun _ _ _ hd => hobeys.proper hd

theorem inheritAll_keeps (specs : List InheritedSpec) : KeepsRaising F I (inheritAll specs) := by
  induction specs with
  | nil => exact Step.Keeps.pure ()
  | cons s rest ih =>
    exact Step.Keeps.bind (Step.Keeps.gets _) fun offset =>
      Step.Keeps.bind (hI.setOffset_keeps s.method offset) fun _ => ih

include hc in
theorem overrideAll_keeps (specs : List OverriddenSpec) :
    KeepsRaising F I (overrideAll c specs) := by
  induction specs with
  | nil => exact Step.Keeps.pure ()
  | cons s rest ih =>
    exact Step.Keeps.bind (Step.Keeps.gets _) fun offset =>
      Step.Keeps.bind (hI.setOffset_keeps s.method offset) fun _ =>
        Step.Keeps.bind (hI.install_keeps hc s.code offset) fun _ => ih

include hc in
theorem introduceAll_keeps (offset : Nat) (specs : List NovelSpec) :
    KeepsRaising F I (introduceAll c offset specs) := by
  induction specs generalizing offset with
  | nil => exact Step.Keeps.pure ()
  | cons s rest ih =>
    exact Step.Keeps.bind (hI.setOffset_keeps s.method offset) fun _ =>
      Step.Keeps.bind (hI.install_keeps hc s.code offset) fun _ => ih _

theorem completeBelow_keeps {s : ClassSpec} (hs : ∀ w c, I w → w.slots s.slot = some c → A c)
    {parent : Option ClassId} (hparent : ∀ p, parent = some p → L p) (parcel ivars : Nat)
    (novel : List NovelSpec) (overridden : List OverriddenSpec) (inherited : List InheritedSpec) :
    KeepsRaising F I (completeBelow parcel s parent ivars novel overridden inherited) := by
  refine KeepsRaising.slotClass_bind (hI.building trivial) hs fun c hc =>
    Step.Keeps.get_bind fun w hw => ?_
  have hsettle : ∀ d : Descriptor, (settle d w s parent parcel ivars).Proper L d := by
    intro d p hp
    rcases Descriptor.mem_links.1 hp with hp | hp | hp
    · exact .inr (hparent p hp)
    · exact .inr (hI.slot hw hp)
    · exact .inl (Descriptor.mem_links.2 (.inr (.inr hp)))
  refine Step.Keeps.bind (Step.Keeps.modify fun v hv => hI.change _ hc (hsettle _) hv) fun _ =>
    Step.Keeps.bind (hI.callHook_keeps hc) fun _ => Step.Keeps.get_bind fun v _ => ?_
  refine Step.Keeps.bind
    (Step.Keeps.modify fun v hv => hI.change _ hc (.of_links rfl) hv) fun _ => ?_
  exact Step.Keeps.bind (hI.inheritAll_keeps inherited) fun _ =>
    Step.Keeps.bind (hI.overrideAll_keeps hc overridden) fun _ => hI.introduceAll_keeps hc _ novel

/-- A class is completed. -/
theorem complete_keeps {s : ClassSpec}
    (hcells : ∀ {w : World} (cells : IvarsCell → Nat), I w → I { w with cells := cells })
    (hs : ∀ w c, I w → w.slots s.slot = some c → A c) (parcel : Nat) (novel : List NovelSpec)
    (overridden : List OverriddenSpec) (inherited : List InheritedSpec) :
    KeepsRaising F I (complete parcel s novel overridden inherited) := by
  have hbelow : ∀ parent ivars, (∀ p, parent = some p → L p) →
      KeepsRaising F I (completeBelow parcel s parent ivars novel overridden inherited) :=
    fun _ _ hparent => hI.completeBelow_keeps hs hparent parcel _ novel overridden inherited
  have hcell : ∀ parent ivars cell, (∀ p, parent = some p → L p) → KeepsRaising F I (do
      setCell cell ivars
      completeBelow parcel s parent ivars novel overridden inherited : Step World Unit) :=
    fun parent ivars cell hparent =>
      Step.Keeps.bind (Step.Keeps.modify fun _ => hcells _) fun _ => hbelow parent ivars hparent
  have hnone : ∀ p : Nat, none = some p → L p := fun p hp => by cases hp
  unfold complete
  cases s.parent with
  | none =>
    simp only [pure_bind]
    cases s.cell with
    | none => exact Step.Keeps.bind (Step.Keeps.gets _) fun ivars => hbelow none ivars hnone
    | some cell =>
      exact Step.Keeps.bind (Step.Keeps.gets _) fun ivars => hcell none ivars cell hnone
  | some p =>
    simp only [pure_bind]
    refine KeepsRaising.slotClass_bind (hI.building trivial) (fun w c hw => hI.slot hw)
      fun c hc => ?_
    have hsome : ∀ q, some c = some q → L q := fun q hq => Option.some.inj hq ▸ hc
    cases s.cell with
    | none => exact Step.Keeps.bind (Step.Keeps.gets _) fun ivars => hbelow (some c) ivars hsome
    | some cell =>
      exact Step.Keeps.bind (Step.Keeps.gets _) fun ivars => hcell (some c) ivars cell hsome

theorem completeAll_keeps {specs : List ClassSpec}
    (hcells : ∀ {w : World} (cells : IvarsCell → Nat), I w → I { w with cells := cells })
    (hs : ∀ s ∈ specs, ∀ w c, I w → w.slots s.slot = some c → A c) (parcel : Nat)
    (novel : List NovelSpec) (overridden : List OverriddenSpec) (inherited : List InheritedSpec) :
    KeepsRaising F I (completeAll parcel specs novel overridden inherited) := by
  induction specs generalizing novel overridden inherited with
  | nil => exact Step.Keeps.pure ()
  | cons s rest ih =>
    obtain ⟨hhead, htail⟩ := List.forall_mem_cons.1 hs
    exact Step.Keeps.bind (hI.complete_keeps hcells hhead parcel _ _ _) fun _ => ih htail _ _ _

/-- A class is registered. -/
theorem register_keeps (hregister : ∀ {w : World} {c}, A c → I w → I (register c w).state)
    (hc : A c) : KeepsRaising F I (register c) := by
  intro w hw
  refine ⟨hregister hc hw, ?_⟩
  unfold World.register
  rw [bindName_apply, Outcome.mapState, Registry.register]
  cases (w.registry.getD (.new w.hash defaultCapacity)).probe (w.nameOf c) with
  | full =>
    refine ⟨fun e he f hf => ?_, fun stop hstop => ⟨_, (Except.error.inj hstop).symm, ?_⟩⟩
    · obtain rfl := Event.faulted.inj ((List.mem_singleton.1 he).symm.trans hf)
      exact hI.building trivial
    · exact hI.building trivial
  | _ =>
    refine ⟨fun e he => ?_, fun stop hstop => ?_⟩
    · cases he
    · cases hstop

/-- A class gets its name and methods, and is registered. -/
theorem finish_keeps {s : ClassSpec}
    (hregister : ∀ {w : World} {c}, A c → I w → I (register c w).state)
    (hs : ∀ w c, I w → w.slots s.slot = some c → A c) (parcel : Nat) (novel : List NovelSpec) :
    KeepsRaising F I (finish parcel s novel) := by
  refine KeepsRaising.slotClass_bind (hI.building trivial) hs fun c hc =>
    Step.Keeps.get_bind fun w hw => ?_
  have hnamed : ∀ d : Descriptor, ({ d with
      name? := some s.name, methods? := some (novel.map w.methodOf) } : Descriptor).Proper L d := by
    intro d p hp
    rcases Descriptor.mem_links.1 hp with hp | hp | ⟨m, hm, hp⟩
    · exact .inl (Descriptor.mem_links.2 (.inl hp))
    · exact .inl (Descriptor.mem_links.2 (.inr (.inl hp)))
    · obtain ⟨r, -, rfl⟩ := List.mem_map.1 hm
      exact .inr (hI.slot hw hp)
  by_cases hname : (w.get c).name?.isSome
  · rw [if_pos hname]
    exact KeepsRaising.fault (hI.building trivial)
  · rw [if_neg hname]
    refine Step.Keeps.bind (Step.Keeps.modify fun v hv => hI.change _ hc (hnamed _) hv) fun _ =>
      Step.Keeps.bind (hI.register_keeps hregister hc) fun b => ?_
    have hlast :
        KeepsRaising F I (Step.emit (.classRegistered s.name parcel (w.get c).classSize)) :=
      KeepsRaising.emit nofun
    cases b with
    | false => exact Step.Keeps.bind (KeepsRaising.emit nofun) fun _ => hlast
    | true => exact hlast

theorem finishAll_keeps {specs : List ClassSpec}
    (hregister : ∀ {w : World} {c}, A c → I w → I (register c w).state)
    (hs : ∀ s ∈ specs, ∀ w c, I w → w.slots s.slot = some c → A c) (parcel : Nat)
    (novel : List NovelSpec) : KeepsRaising F I (finishAll parcel specs novel) := by
  induction specs generalizing novel with
  | nil => exact Step.Keeps.pure ()
  | cons s rest ih =>
    obtain ⟨hhead, htail⟩ := List.forall_mem_cons.1 hs
    exact Step.Keeps.bind (hI.finish_keeps hregister hhead parcel _) fun _ => ih htail _

end Frame

/-- A blank class is made and put into a slot that was empty. -/
theorem publish_keeps (hbuild : ∀ {f}, BuildFault f → F f) (s : ClassSpec)
    (hpublish : ∀ {w : World} (size : Nat), w.slots s.slot = none → I w → I { w with
      classes := w.classes ++ [.blank size]
      slots := fun t => if t = s.slot then some w.classes.length else w.slots t }) :
    KeepsRaising F I (publish s) := by
  have hplace : ∀ base : Nat, KeepsRaising F I (do
      let w ← Step.get
      if (w.slots s.slot).isSome then Step.fault (.doubleBootstrap s.name)
      else do
        Step.set { w with classes := w.classes ++ [.blank (base + s.numNovel * slotSize)] }
        fillSlot s.slot w.classes.length : Step World Unit) := by
    intro base w hw
    rw [Step.get_bind]
    by_cases hslot : (w.slots s.slot).isSome
    · rw [if_pos hslot]
      exact KeepsRaising.fault (hbuild (f := .doubleBootstrap s.name) trivial) w hw
    · rw [if_neg hslot]
      refine ⟨hpublish _ (by simpa using hslot) hw, fun e he => ?_, fun stop hstop => ?_⟩
      · cases he
      · cases hstop
  unfold publish
  cases s.parent with
  | none => exact Step.Keeps.bind (Step.Keeps.pure _) hplace
  | some p =>
    exact KeepsRaising.slotClass_bind (P := fun _ => True)
      (hbuild (f := .classNotBootstrapped) trivial) (fun _ _ _ _ => trivial)
      fun c _ => Step.Keeps.bind (Step.Keeps.gets _) hplace

theorem publishAll_keeps (hbuild : ∀ {f}, BuildFault f → F f) (specs : List ClassSpec)
    (hpublish : ∀ {w : World} (t : ClassSlot) (size : Nat), w.slots t = none → I w → I { w with
      classes := w.classes ++ [.blank size]
      slots := fun r => if r = t then some w.classes.length else w.slots r }) :
    KeepsRaising F I (publishAll specs) := by
  induction specs with
  | nil => exact Step.Keeps.pure ()
  | cons s rest ih => exact Step.Keeps.bind (publish_keeps hbuild s (hpublish s.slot)) fun _ => ih

end Frame

/-! ### The objects and the registry -/

/-- The objects, with the truth values among them. -/
def stock (w : World) : List Instance × Option (Nat × Nat) := (w.objects, w.truths)

/-- What is said of the objects and the registry alone, and stays true when a class is
registered. -/
structure Apart (I : World → Prop) : Prop where
  of_same : ∀ {w w' : World}, w'.stock = w.stock → w'.registry = w.registry → I w → I w'
  register : ∀ (c : Nat) (w : World), I w → I (register c w).state

/-- An operation that keeps what is said of a world, whatever its events, and does not run out of an
allowance. -/
def KeepsApart {α : Type} (I : World → Prop) (x : Step World α) : Prop :=
  x.Keeps I (fun _ => True) (· ≠ .unfinished)

theorem Apart.stock (x : List Instance × Option (Nat × Nat)) : Apart (·.stock = x) where
  of_same hstock _ h := hstock.trans h
  register c w h := by
    unfold World.register
    rw [bindName_apply]
    exact h

theorem slotClass_keeps {I : World → Prop} (t : ClassSlot) : KeepsApart I (slotClass t) :=
  keeps_slotClass t trivial nofun

theorem Apart.frame {I : World → Prop} (hI : Apart I) :
    Frame (fun _ => True) (fun _ => True) (fun _ => True) I where
  building _ := trivial
  slot _ _ := trivial
  change {w} _ _ _ _ h := hI.of_same (w := w) rfl rfl h
  offsets {w} _ h := hI.of_same (w := w) rfl rfl h
  hookCalls {w} _ h := hI.of_same (w := w) rfl rfl h
  hook _ _ := ⟨fun _ => trivial, fun _ _ _ => .inr trivial⟩

/-- Bootstrapping has nothing to do with what is apart from it, and comes to an end. -/
theorem bootstrap_keeps {I : World → Prop} (hI : Apart I) (p : ParcelSpec) :
    KeepsApart I (bootstrap p) := by
  have hpasses : KeepsRaising (fun _ => True) I (bootstrap p) := by
    refine Step.Keeps.bind (.modify fun _ => hI.of_same rfl rfl) fun _ => ?_
    refine Step.Keeps.bind (Step.Keeps.gets _) fun parcel => ?_
    refine Step.Keeps.bind (publishAll_keeps (fun _ => trivial) p.classes
      fun {w} _ _ _ h => hI.of_same (w := w) rfl rfl h) fun _ => ?_
    refine Step.Keeps.bind (hI.frame.completeAll_keeps
      (fun {w} _ h => hI.of_same (w := w) rfl rfl h) (fun _ _ _ _ _ _ => trivial)
      parcel _ _ _) fun _ => ?_
    refine Step.Keeps.bind (hI.frame.finishAll_keeps (fun _ h => hI.register _ _ h)
      (fun _ _ _ _ _ _ => trivial) parcel _) fun _ => ?_
    exact Step.Keeps.bind (KeepsRaising.emit nofun) fun _ => Step.Keeps.pure parcel
  intro w hw
  obtain ⟨hstate, -, hstop⟩ := hpasses w hw
  refine ⟨hstate, fun _ _ => trivial, fun stop heq => ?_⟩
  obtain ⟨f, rfl, -⟩ := hstop stop heq
  exact nofun

theorem bootstrap_stock {p : ParcelSpec} {parcel : Nat}
    (h : (World.bootstrap p).Gives w parcel w') : w'.stock = w.stock :=
  h.2 ▸ (bootstrap_keeps (.stock w.stock) p w rfl).1

/-! ### Owners -/

/-- Owners of functions are settled before the classes are built, and that changes nothing else. -/
theorem settleOwners_eq (specs : List ClassSpec) (novel : List NovelSpec)
    (overridden : List OverriddenSpec) (w : World) :
    ∃ owners, settleOwners specs novel overridden w = { w with owners := owners } := by
  have hown : ∀ slot ks w, ∃ owners, ownAll slot ks w = { w with owners := owners } := by
    intro slot ks w
    induction ks generalizing w with
    | nil => exact ⟨w.owners, rfl⟩
    | cons k rest ih => exact ih _
  induction specs generalizing novel overridden w with
  | nil => exact ⟨w.owners, rfl⟩
  | cons s rest ih =>
    obtain ⟨owners, heq⟩ := hown s.slot
      (teardowns (novel.take s.numNovel) (overridden.take s.numOverridden)) w
    unfold settleOwners
    rw [heq]
    exact ih _ _ _

end World

end ObjectSystem
