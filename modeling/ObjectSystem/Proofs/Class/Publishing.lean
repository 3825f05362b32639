import Mathlib.Data.List.Induction
import ObjectSystem.Proofs.Class.Apart
import ObjectSystem.Proofs.Class.Marks

/-! # The first pass

Nobody looks whether the specs of a parcel are in order and name every slot once, but the first pass
finds it out.  To publish a class takes the class in the slot of its parent and an empty slot, and
publishing it fills that slot, so it stops at the first spec that is `Misplaced` behind those before
it: one with a parent that nobody published, itself included, or with a slot that is filled.  Up to
there blank classes were made and their slots filled, and nothing else was touched.

When all specs are `InOrder`, the second pass takes them up in the same order.  By then the class of
a parent is either one of an earlier parcel or was completed before, and is not touched any more
(`ParentsDone`), whatever becomes of the pass. -/

namespace ObjectSystem

namespace World

variable {w w' : World} {s : ClassSpec} {specs before rest : List ClassSpec} {t : ClassSlot}
  {f : Fault} {parcel c : Nat} {novel : List NovelSpec} {overridden : List OverriddenSpec}
  {inherited : List InheritedSpec} {slots : ClassSlot → Option ClassId}

/-! ### Specs out of place -/

/-- A slot is filled, or is going to be by one of some specs. -/
def Filled (slots : ClassSlot → Option ClassId) (before : List ClassSpec) (t : ClassSlot) : Prop :=
  (slots t).isSome ∨ t ∈ before.map (·.slot)

instance (slots : ClassSlot → Option ClassId) (before : List ClassSpec) (t : ClassSlot) :
    Decidable (Filled slots before t) :=
  inferInstanceAs (Decidable (_ ∨ _))

/-- Why the class of a spec cannot be published behind those of others.  The parent is looked at
first. -/
inductive Misplaced (slots : ClassSlot → Option ClassId) (before : List ClassSpec)
    (s : ClassSpec) : Fault → Prop
  | early {t : ClassSlot} (parent : s.parent = some t) (empty : ¬ Filled slots before t) :
      Misplaced slots before s .classNotBootstrapped
  | again (parent : ∀ t, s.parent = some t → Filled slots before t)
      (filled : Filled slots before s.slot) :
      Misplaced slots before s (.doubleBootstrap s.name)

/-- No spec is out of place behind those before it. -/
def InOrder (slots : ClassSlot → Option ClassId) (specs : List ClassSpec) : Prop :=
  ∀ before s rest, specs = before ++ s :: rest → ∀ f, ¬ Misplaced slots before s f

theorem inOrder_nil : InOrder slots [] := by
  intro before s rest h
  simp at h

theorem inOrder_concat :
    InOrder slots (specs ++ [s]) ↔ InOrder slots specs ∧ ∀ f, ¬ Misplaced slots specs s f := by
  constructor
  · intro h
    refine ⟨fun before s' rest heq => h before s' (rest ++ [s]) ?_, h specs s [] rfl⟩
    rw [heq, List.append_assoc, List.cons_append]
  · rintro ⟨hinit, hlast⟩ before s' rest heq
    rcases List.eq_nil_or_concat rest with rfl | ⟨rest, r, rfl⟩
    · obtain ⟨rfl, hs⟩ := List.append_inj' heq rfl
      obtain rfl := List.head_eq_of_cons_eq hs
      exact hlast
    · rw [List.concat_eq_append, ← List.cons_append, ← List.append_assoc] at heq
      exact hinit before s' rest (List.append_inj' heq rfl).1

theorem inOrder_or_misplaced (slots : ClassSlot → Option ClassId) (specs : List ClassSpec) :
    InOrder slots specs ∨
      ∃ before s rest f, specs = before ++ s :: rest ∧ InOrder slots before ∧
        Misplaced slots before s f := by
  induction specs using List.reverseRecOn with
  | nil => exact .inl inOrder_nil
  | append_singleton specs s ih =>
    rcases ih with hinit | ⟨before, s', rest, f, rfl, hbefore, hmisplaced⟩
    · by_cases hlast : ∃ f, Misplaced slots specs s f
      · obtain ⟨f, hmisplaced⟩ := hlast
        exact .inr ⟨specs, s, [], f, rfl, hinit, hmisplaced⟩
      · exact .inl (inOrder_concat.2 ⟨hinit, not_exists.1 hlast⟩)
    · exact .inr ⟨before, s', rest ++ [s], f, by simp, hbefore, hmisplaced⟩

/-! ### Publishing one class -/

/-- The world with a blank class for a spec, in its slot. -/
def withBlank (w : World) (s : ClassSpec) : World :=
  { w with
    classes := w.classes ++ [.blank (w.baseSize (s.parent.bind w.slots) + s.numNovel * slotSize)]
    slots := fun t => if t = s.slot then some w.classes.length else w.slots t }

theorem publish_early (hparent : s.parent = some t) (ht : w.slots t = none) :
    publish s w = ⟨w, .error (.fault .classNotBootstrapped), [.faulted .classNotBootstrapped]⟩ := by
  have hslot : slotClass t w =
      ⟨w, .error (.fault .classNotBootstrapped), [.faulted .classNotBootstrapped]⟩ := by
    unfold slotClass
    rw [ht]
    rfl
  unfold publish
  rw [hparent]
  exact Step.bind_of_stop _ hslot

/-- What becomes of a class whose parent is there is a matter of its own slot. -/
theorem publish_behind (hparent : ∀ t, s.parent = some t → (w.slots t).isSome) :
    publish s w =
      if (w.slots s.slot).isSome then
        ⟨w, .error (.fault (.doubleBootstrap s.name)), [.faulted (.doubleBootstrap s.name)]⟩
      else ⟨w.withBlank s, .ok (), []⟩ := by
  have hplace : ∀ base, (do
      let w ← Step.get
      if (w.slots s.slot).isSome then Step.fault (.doubleBootstrap s.name)
      else
        Step.set { w with classes := w.classes ++ [.blank (base + s.numNovel * slotSize)] }
        fillSlot s.slot w.classes.length : Step World Unit) w =
      if (w.slots s.slot).isSome then
        ⟨w, .error (.fault (.doubleBootstrap s.name)), [.faulted (.doubleBootstrap s.name)]⟩
      else ⟨{ w with
        classes := w.classes ++ [.blank (base + s.numNovel * slotSize)]
        slots := fun t => if t = s.slot then some w.classes.length else w.slots t }, .ok (), []⟩ := by
    intro base
    rw [Step.get_bind]
    by_cases hslot : (w.slots s.slot).isSome
    · rw [if_pos hslot, if_pos hslot]
      rfl
    · rw [if_neg hslot, if_neg hslot]
      rfl
  unfold publish withBlank baseSize
  cases hp : s.parent with
  | none => exact hplace _
  | some t =>
    obtain ⟨c, hc⟩ := Option.isSome_iff_exists.1 (hparent t hp)
    have hslot : slotClass t w = ⟨w, .ok c, []⟩ := by
      unfold slotClass
      rw [hc]
    rw [Option.bind_some, hc]
    exact (Step.bind_of_ok _ hslot).trans (hplace _)

/-! ### Publishing classes in order -/

theorem publishAll_append (specs rest : List ClassSpec) :
    publishAll (specs ++ rest) = (do publishAll specs; publishAll rest) := by
  induction specs with
  | nil => exact (pure_bind () fun _ => publishAll rest).symm
  | cons s specs ih =>
    rw [List.cons_append, publishAll, publishAll, ih, bind_assoc]

theorem publishAll_singleton (s : ClassSpec) : publishAll [s] = publish s := bind_pure _

/-- The world with blank classes for some specs. -/
def withBlanks (w : World) (specs : List ClassSpec) : World := specs.foldl withBlank w

theorem withBlanks_concat (w : World) (specs : List ClassSpec) (s : ClassSpec) :
    w.withBlanks (specs ++ [s]) = (w.withBlanks specs).withBlank s :=
  List.foldl_concat ..

/-- Nothing changes but that there are blank classes at the end, and slots that they fill. -/
theorem withBlanks_eq (w : World) (specs : List ClassSpec) :
    ∃ blanks : List Descriptor, blanks.length = specs.length ∧
      (∀ d ∈ blanks, ∃ size, d = .blank size) ∧
      w.withBlanks specs = { w with
        classes := w.classes ++ blanks
        slots := Ledger.fillSlots w.slots w.classes.length specs } := by
  induction specs generalizing w with
  | nil => exact ⟨[], rfl, nofun, by rw [List.append_nil]; rfl⟩
  | cons s rest ih =>
    obtain ⟨blanks, hlength, hblank, hrest⟩ := ih (w.withBlank s)
    have hcount : (w.withBlank s).classes.length = w.classes.length + 1 := List.length_append
    have hclasses : (w.withBlank s).classes ++ blanks = w.classes ++
        .blank (w.baseSize (s.parent.bind w.slots) + s.numNovel * slotSize) :: blanks :=
      List.append_assoc ..
    rw [hcount, hclasses] at hrest
    exact ⟨_, congrArg (· + 1) hlength, List.forall_mem_cons.2 ⟨⟨_, rfl⟩, hblank⟩, hrest⟩

theorem isSome_fillSlots (slots : ClassSlot → Option ClassId) (k : Nat) (specs : List ClassSpec)
    (t : ClassSlot) : (Ledger.fillSlots slots k specs t).isSome ↔ Filled slots specs t := by
  unfold Filled
  induction specs generalizing slots k with
  | nil => simp [Ledger.fillSlots]
  | cons s rest ih =>
    rw [Ledger.fillSlots, ih, List.map_cons, List.mem_cons]
    by_cases ht : t = s.slot
    · simp [ht]
    · simp [ht]

theorem isSome_withBlanks (w : World) (specs : List ClassSpec) (t : ClassSlot) :
    ((w.withBlanks specs).slots t).isSome ↔ Filled w.slots specs t := by
  obtain ⟨blanks, -, -, heq⟩ := w.withBlanks_eq specs
  rw [heq]
  exact isSome_fillSlots w.slots _ specs t

theorem Misplaced.publish (h : Misplaced w.slots before s f) :
    World.publish s (w.withBlanks before) =
      ⟨w.withBlanks before, .error (.fault f), [.faulted f]⟩ := by
  cases h with
  | early hparent hempty =>
    rw [← isSome_withBlanks, Option.not_isSome_iff_eq_none] at hempty
    exact publish_early hparent hempty
  | again hparent hfilled =>
    rw [publish_behind fun t ht => (w.isSome_withBlanks before t).2 (hparent t ht),
      if_pos ((w.isSome_withBlanks before s.slot).2 hfilled)]

theorem publish_of_not_misplaced (h : ∀ f, ¬ Misplaced w.slots before s f) :
    publish s (w.withBlanks before) = ⟨w.withBlanks (before ++ [s]), .ok (), []⟩ := by
  have hparent : ∀ t, s.parent = some t → Filled w.slots before t := fun t ht =>
    not_not.1 fun hempty => h _ (.early ht hempty)
  have hslot : ¬ Filled w.slots before s.slot := fun hfilled => h _ (.again hparent hfilled)
  rw [publish_behind fun t ht => (w.isSome_withBlanks before t).2 (hparent t ht),
    if_neg (mt (w.isSome_withBlanks before s.slot).1 hslot), withBlanks_concat]

theorem InOrder.publishAll (h : InOrder w.slots specs) :
    World.publishAll specs w = ⟨w.withBlanks specs, .ok (), []⟩ := by
  induction specs using List.reverseRecOn with
  | nil => rfl
  | append_singleton specs s ih =>
    obtain ⟨hinit, hlast⟩ := inOrder_concat.1 h
    rw [publishAll_append, Step.bind_of_ok _ (ih hinit), publishAll_singleton]
    exact publish_of_not_misplaced hlast

theorem Misplaced.publishAll (h : Misplaced w.slots before s f) (hbefore : InOrder w.slots before) :
    World.publishAll (before ++ s :: rest) w =
      ⟨w.withBlanks before, .error (.fault f), [.faulted f]⟩ := by
  rw [publishAll_append, Step.bind_of_ok _ hbefore.publishAll]
  exact Step.bind_of_stop _ h.publish

theorem publishAll_stops_iff :
    (∃ stop, (publishAll specs w).answer = .error stop) ↔
      ∃ before s rest f, specs = before ++ s :: rest ∧ InOrder w.slots before ∧
        Misplaced w.slots before s f := by
  constructor
  · rintro ⟨stop, hstop⟩
    refine (inOrder_or_misplaced w.slots specs).resolve_left fun hin => ?_
    rw [hin.publishAll] at hstop
    cases hstop
  · rintro ⟨before, s, rest, f, rfl, hbefore, h⟩
    exact ⟨_, by rw [h.publishAll hbefore]⟩

theorem inOrder_of_publishAll (h : (publishAll specs).Gives w () w') : InOrder w.slots specs := by
  refine (inOrder_or_misplaced w.slots specs).resolve_right fun hmisplaced => ?_
  obtain ⟨stop, hstop⟩ := publishAll_stops_iff.2 hmisplaced
  rw [h.1] at hstop
  cases hstop

/-! ### The second pass takes the same order -/

theorem completeAll_append (parcel : Nat) (specs rest : List ClassSpec) (novel : List NovelSpec)
    (overridden : List OverriddenSpec) (inherited : List InheritedSpec) :
    completeAll parcel (specs ++ rest) novel overridden inherited = (do
      completeAll parcel specs novel overridden inherited
      completeAll parcel rest (novel.drop (specs.map (·.numNovel)).sum)
        (overridden.drop (specs.map (·.numOverridden)).sum)
        (inherited.drop (specs.map (·.numInherited)).sum)) := by
  induction specs generalizing novel overridden inherited with
  | nil => exact (pure_bind () fun _ => completeAll parcel rest novel overridden inherited).symm
  | cons s specs ih =>
    rw [List.cons_append, completeAll, completeAll, ih, bind_assoc]
    simp only [List.drop_drop, List.map_cons, List.sum_cons]

/-- Completing classes fills no slots, and leaves all classes alone but those of `A`, if the slots of
the specs lead to these. -/
theorem completeAll_leaves {A : Nat → Prop}
    (hA : ∀ s ∈ specs, ∀ c, w.slots s.slot = some c → A c) :
    let w' := (completeAll parcel specs novel overridden inherited w).state
    w'.slots = w.slots ∧ ∀ c, ¬ A c → w'.get c = w.get c := by
  have hframe : Frame (fun _ => True) A (fun _ => True)
      fun v => v.slots = w.slots ∧ ∀ c, ¬ A c → v.get c = w.get c :=
    { building _ := trivial
      slot _ _ := trivial
      change {v d} g hd _ hv := by
        refine ⟨hv.1, fun c hc => ?_⟩
        have hne : d ≠ c := fun h => hc (h ▸ hd)
        rw [get_modify, if_neg fun h => hne h.1, hv.2 c hc]
      offsets _ hv := hv
      hookCalls _ hv := hv
      hook _ _ := ⟨fun _ => trivial, fun _ _ _ => .inr trivial⟩ }
  exact (hframe.completeAll_keeps (fun _ hv => hv)
    (fun s hs v c hv hc => hA s hs c (hv.1 ▸ hc)) parcel novel overridden inherited w
    ⟨rfl, fun _ _ => rfl⟩).1

/-- When the second pass comes to a class, there is a class in the slot of its parent, and that one
is what it will be at the end of the pass. -/
def ParentsDone (w : World) (parcel : Nat) (p : ParcelSpec) : Prop :=
  ∀ before s rest t w', p.classes = before ++ s :: rest → s.parent = some t →
    (completeAll parcel before p.novel p.overridden p.inherited).Gives w () w' →
    ∃ c, w'.slots t = some c ∧
      (completeAll parcel p.classes p.novel p.overridden p.inherited w).state.get c = w'.get c

/-- Published classes are behind their parents, so they are completed behind them. -/
theorem Published.parentsDone {p : ParcelSpec} {n : Nat} (h : Published w n p.classes)
    (parcel : Nat) : w.ParentsDone parcel p := by
  rintro before s rest t w' hclasses hparent ⟨hanswer, rfl⟩
  rw [hclasses] at h
  obtain ⟨-, hbelow, -⟩ := h.blank_at (k := before.length) (s := s) (by simp)
  obtain ⟨c, hc, hlt⟩ := hbelow t hparent
  have hslots : (completeAll parcel before p.novel p.overridden p.inherited w).state.slots =
      w.slots := (completeAll_leaves (A := fun _ => True) fun _ _ _ _ => trivial).1
  refine ⟨c, by rw [hslots, hc], ?_⟩
  have hgives : (completeAll parcel before p.novel p.overridden p.inherited).Gives w () _ :=
    ⟨hanswer, rfl⟩
  rw [hclasses, completeAll_append, hgives.bind_apply]
  refine (completeAll_leaves (A := fun d => n + before.length ≤ d) fun r hr d hd => ?_).2 c
    (Nat.not_le_of_lt hlt)
  obtain ⟨i, hi, rfl⟩ := List.getElem_of_mem hr
  obtain ⟨hself, -, -⟩ := h.blank_at (k := before.length + i) (s := (s :: rest)[i]) (by
    rw [List.getElem?_append_right (Nat.le_add_right _ _), Nat.add_sub_cancel_left,
      List.getElem?_eq_getElem hi])
  rw [hslots, hself] at hd
  have := Option.some.inj hd
  omega

/-! ### The whole -/

/-- What a bootstrap does when the classes of the parcel are published. -/
def buildPublished (parcel : Nat) (p : ParcelSpec) : Step World Nat := do
  completeAll parcel p.classes p.novel p.overridden p.inherited
  finishAll parcel p.classes p.novel
  Step.emit (.parcelBootstrapped parcel p.classes.length)
  pure parcel

theorem bootstrap_eq (p : ParcelSpec) (w : World) :
    bootstrap p w = (do publishAll p.classes; buildPublished (w.parcels + 1) p : Step World Nat)
      { w with parcels := w.parcels + 1 } := rfl

/-- The bootstrap of a parcel stops in its first pass exactly if some spec is out of place, and then
at the first such one.  By then a number was given to the parcel and blank classes fill the slots of
the specs before it, and that is all that has changed.

Once past the first pass, the specs are in order, and the second pass completes no class before its
parent. -/
theorem first_pass_stops_iff (w : World) (p : ParcelSpec) :
    ((∃ stop, (publishAll p.classes { w with parcels := w.parcels + 1 }).answer = .error stop) ↔
      ∃ before s rest f, p.classes = before ++ s :: rest ∧ InOrder w.slots before ∧
        Misplaced w.slots before s f) ∧
    (∀ before s rest f, p.classes = before ++ s :: rest → InOrder w.slots before →
      Misplaced w.slots before s f →
      (∃ blanks : List Descriptor, blanks.length = before.length ∧
        (∀ d ∈ blanks, ∃ size, d = .blank size) ∧
        bootstrap p w =
          ⟨{ w with
              parcels := w.parcels + 1
              classes := w.classes ++ blanks
              slots := Ledger.fillSlots w.slots w.classes.length before },
            .error (.fault f), [.faulted f]⟩) ∧
      ∀ t, (Ledger.fillSlots w.slots w.classes.length before t).isSome ↔
        Filled w.slots before t) ∧
    ∀ w₁, (publishAll p.classes).Gives { w with parcels := w.parcels + 1 } () w₁ →
      InOrder w.slots p.classes ∧
        bootstrap p w = buildPublished (w.parcels + 1) p w₁ ∧
        (SlotsInside w → w₁.ParentsDone (w.parcels + 1) p) := by
  refine ⟨publishAll_stops_iff (w := { w with parcels := w.parcels + 1 }), ?_, ?_⟩
  · intro before s rest f hclasses hbefore h
    obtain ⟨blanks, hlength, hblank, heq⟩ :=
      withBlanks_eq { w with parcels := w.parcels + 1 } before
    refine ⟨⟨blanks, hlength, hblank, ?_⟩, isSome_fillSlots w.slots w.classes.length before⟩
    rw [bootstrap_eq, hclasses, ← heq]
    exact Step.bind_of_stop _ (Misplaced.publishAll h hbefore)
  · intro w₁ h
    have hin : InOrder w.slots p.classes :=
      inOrder_of_publishAll (w := { w with parcels := w.parcels + 1 }) h
    refine ⟨hin, ?_, fun hinside => ?_⟩
    · have hpublish := InOrder.publishAll (w := { w with parcels := w.parcels + 1 }) hin
      obtain ⟨-, rfl⟩ := h
      rw [hpublish]
      exact Step.bind_of_ok _ hpublish
    · obtain ⟨-, -, -, hpub⟩ := publishAll_gives h hinside
      exact hpub.parentsDone _

end World

namespace Greenhouse

open World

/-- What grows in a slot, below something else. -/
def plant (key parent : String) : ClassSpec :=
  ⟨⟨key⟩, some ⟨parent⟩, key, 8, none, 0, 0, 0, {}⟩

/-- A world with a pot. -/
def shelf : World where
  classes := [{ Descriptor.blank vtableOffset with name? := some "Pot" }]
  slots t := if t = ⟨"Pot"⟩ then some 0 else none

/-- A sprout is out of place before its flower, and so is a second seed.  When the seed is there, and
then the flower and the sprout, each comes after what it grows from. -/
theorem sprout_before_flower :
    (∃ blanks : List Descriptor, blanks.length = 1 ∧ (∀ d ∈ blanks, ∃ size, d = .blank size) ∧
      bootstrap { classes := [plant "Seed" "Pot", plant "Sprout" "Flower", plant "Flower" "Seed"] }
          shelf =
        ⟨{ shelf with
            parcels := 1
            classes := shelf.classes ++ blanks
            slots := Ledger.fillSlots shelf.slots 1 [plant "Seed" "Pot"] },
          .error (.fault .classNotBootstrapped), [.faulted .classNotBootstrapped]⟩) ∧
      (bootstrap { classes := [plant "Seed" "Pot", plant "Seed" "Seed"] } shelf).answer =
        .error (.fault (.doubleBootstrap "Seed")) ∧
      shelf.SlotsInside ∧
      ∃ w₁, (publishAll [plant "Seed" "Pot", plant "Flower" "Seed", plant "Sprout" "Flower"]).Gives
          { shelf with parcels := 1 } () w₁ ∧
        w₁.ParentsDone 1
          { classes := [plant "Seed" "Pot", plant "Flower" "Seed", plant "Sprout" "Flower"] } := by
  have hseed : InOrder shelf.slots [plant "Seed" "Pot"] := inOrder_of_publishAll ⟨rfl, rfl⟩
  have hinside : shelf.SlotsInside := by
    intro t c ht
    obtain ⟨-, rfl⟩ : t = ⟨"Pot"⟩ ∧ 0 = c := by simpa [shelf] using ht
    exact Nat.one_pos
  obtain ⟨-, hsprout, -⟩ := first_pass_stops_iff shelf
    { classes := [plant "Seed" "Pot", plant "Sprout" "Flower", plant "Flower" "Seed"] }
  obtain ⟨-, hagain, -⟩ := first_pass_stops_iff shelf
    { classes := [plant "Seed" "Pot", plant "Seed" "Seed"] }
  obtain ⟨-, -, hsorted⟩ := first_pass_stops_iff shelf
    { classes := [plant "Seed" "Pot", plant "Flower" "Seed", plant "Sprout" "Flower"] }
  refine ⟨(hsprout [plant "Seed" "Pot"] _ _ _ rfl hseed (.early rfl (by decide))).1, ?_, hinside,
    _, ⟨rfl, rfl⟩, (hsorted _ ⟨rfl, rfl⟩).2.2 hinside⟩
  obtain ⟨⟨blanks, -, -, heq⟩, -⟩ := hagain [plant "Seed" "Pot"] _ _ _ rfl hseed
    (.again (fun t ht => Option.some.inj ht ▸ by decide) (by decide))
  rw [heq]
  rfl

end Greenhouse

end ObjectSystem
