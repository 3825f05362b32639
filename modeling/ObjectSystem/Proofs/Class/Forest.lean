import ObjectSystem.Object.Lifetime
import ObjectSystem.Proofs.Class.Chains
import ObjectSystem.Proofs.Class.Enduring
import ObjectSystem.Proofs.Class.Moments
import ObjectSystem.Proofs.Class.Publishing
import ObjectSystem.Proofs.Object.Handles

/-! # The forest of classes

Whatever is done to a world that began empty, and wherever it stopped, the parent of a class was
there before the class (`World.ParentsOlder`).  A bootstrap reads parents from slots only when all
its classes are published, but the slot of a parent was filled when its child was published, and
slots are filled once.

So no walk along parents goes on for ever, and the classes are a forest (`forest_of_ensues`). -/

namespace ObjectSystem

namespace World

variable {u w w' : World} {a b c p : Nat} {s : ClassSpec} {specs : List ClassSpec}

/-- Parents were there before their children. -/
def ParentsOlder (w : World) : Prop := ∀ c p : Nat, (w.get c).parent = some p → p < c

theorem ParentsOlder.first (h : ParentsOlder w) : ParentsFirst w w.classes.length :=
  fun c p _ hp => h c p hp

/-! ### Bootstrapping -/

/-- Each of the classes is in its slot, and the slot of its parent leads to an older one. -/
def Planted (u : World) (specs : List ClassSpec) : Prop :=
  ∀ s ∈ specs, ∃ c : Nat, u.slots s.slot = some c ∧
    ∀ t, s.parent = some t → ∃ d : Nat, u.slots t = some d ∧ d < c

theorem Published.planted {n : Nat} (h : Published u n specs) : Planted u specs := by
  intro s hs
  obtain ⟨k, hk, rfl⟩ := List.getElem_of_mem hs
  obtain ⟨hslot, hbelow, -⟩ := h.blank_at (List.getElem?_eq_getElem hk)
  exact ⟨n + k, hslot, hbelow⟩

/-- Since a parcel was published no slot was filled, and parents are older. -/
structure Sprouting (u v : World) : Prop where
  slots : v.slots = u.slots
  hook : v.hook = u.hook
  older : v.ParentsOlder

theorem Sprouting.modify {v : World} (h : Sprouting u v) {f : Descriptor → Descriptor}
    (hf : ∀ p : Nat, (f (v.get c)).parent = some p → (v.get c).parent = some p ∨ p < c) :
    Sprouting u { v with classes := v.classes.modify c f } := by
  refine ⟨h.slots, h.hook, fun d p hp => ?_⟩
  rw [get_modify] at hp
  split at hp
  · next heq =>
    obtain ⟨rfl, -⟩ := heq
    exact (hf p hp).elim (h.older c p) id
  · exact h.older d p hp

/-- The operation goes on in the same way, whether it answers or stops. -/
def KeepsSprouting {α : Type} (u : World) (x : Step World α) : Prop :=
  x.Keeps (Sprouting u) (fun _ => True) fun _ => True

namespace KeepsSprouting

variable {α : Type} {parcel : Nat} {novel : List NovelSpec}
  {overridden : List OverriddenSpec} {inherited : List InheritedSpec}

theorem slotClass_bind {t : ClassSlot} (ht : u.slots t = some c) {g : ClassId → Step World α}
    (hg : KeepsSprouting u (g c)) : KeepsSprouting u (slotClass t >>= g) :=
  keeps_slotClass_bind trivial trivial fun v d hv hd => by
    obtain rfl := Option.some.inj ((hv.slots ▸ ht).symm.trans hd)
    exact hg

theorem setOffset (m : MethodRef) (offset : Nat) : KeepsSprouting u (World.setOffset m offset) :=
  .modify fun _ hv => ⟨hv.slots, hv.hook, hv.older⟩

theorem tryModifyClass {f : Descriptor → Except Fault Descriptor}
    (hf : ∀ d d', f d = .ok d' → d'.parent = d.parent) :
    KeepsSprouting u (World.tryModifyClass c f) := by
  intro v hv
  unfold World.tryModifyClass
  cases hd : f (v.get c) with
  | error e => exact Step.Keeps.fault (α := Unit) trivial trivial v hv
  | ok d =>
    exact ⟨hv.modify fun p hp => .inl ((hf _ _ hd).symm.trans hp), fun _ _ => trivial,
      fun _ _ => trivial⟩

theorem install (code : Code) (offset : Nat) :
    KeepsSprouting u (World.tryModifyClass c (·.install code offset)) := by
  refine tryModifyClass fun d d' hd => ?_
  unfold Descriptor.install at hd
  split at hd
  · cases hd
    rfl
  · cases hd

theorem callHook (hhook : ∀ hook, u.hook = some hook → hook.OnlyFills) :
    KeepsSprouting u (World.callHook c) := by
  refine Step.Keeps.get_bind fun v hv => ?_
  cases heq : v.hook with
  | none => exact Step.Keeps.pure ()
  | some hook =>
    refine Step.Keeps.bind (.set ⟨hv.slots, heq.symm.trans hv.hook, hv.older⟩) fun _ => ?_
    refine tryModifyClass fun d d' hd => ?_
    obtain ⟨vtable, -, rfl⟩ := hhook hook (hv.hook.symm.trans heq) _ _ _ hd
    rfl

theorem inheritAll : KeepsSprouting u (World.inheritAll inherited) := by
  induction inherited with
  | nil => exact Step.Keeps.pure ()
  | cons s rest ih =>
    exact Step.Keeps.bind (.gets _) fun offset => Step.Keeps.bind (setOffset s.method offset)
      fun _ => ih

theorem overrideAll : KeepsSprouting u (World.overrideAll c overridden) := by
  induction overridden with
  | nil => exact Step.Keeps.pure ()
  | cons s rest ih =>
    exact Step.Keeps.bind (.gets _) fun offset => Step.Keeps.bind (setOffset s.method offset)
      fun _ => Step.Keeps.bind (install s.code offset) fun _ => ih

theorem introduceAll (offset : Nat) : KeepsSprouting u (World.introduceAll c offset novel) := by
  induction novel generalizing offset with
  | nil => exact Step.Keeps.pure ()
  | cons s rest ih =>
    exact Step.Keeps.bind (setOffset s.method offset) fun _ =>
      Step.Keeps.bind (install s.code offset) fun _ => ih _

theorem completeBelow (hhook : ∀ hook, u.hook = some hook → hook.OnlyFills)
    (hc : u.slots s.slot = some c) {parent : Option ClassId}
    (hparent : ∀ p : Nat, parent = some p → p < c) (ivars : Nat) :
    KeepsSprouting u
      (World.completeBelow parcel s parent ivars novel overridden inherited) := by
  refine slotClass_bind hc (Step.Keeps.get_bind fun v _ => ?_)
  refine Step.Keeps.bind (.modify fun x hx => hx.modify fun p hp => .inr (hparent p hp)) fun _ => ?_
  refine Step.Keeps.bind (callHook hhook) fun _ => Step.Keeps.get_bind fun x _ => ?_
  refine Step.Keeps.bind (.modify fun y hy => hy.modify fun p hp => .inl hp) fun _ => ?_
  exact Step.Keeps.bind inheritAll fun _ => Step.Keeps.bind overrideAll fun _ => introduceAll _

theorem complete (hhook : ∀ hook, u.hook = some hook → hook.OnlyFills)
    (hc : u.slots s.slot = some c)
    (hbelow : ∀ t, s.parent = some t → ∃ d : Nat, u.slots t = some d ∧ d < c) :
    KeepsSprouting u (World.complete parcel s novel overridden inherited) := by
  have hplain : ∀ (parent : Option ClassId) (ivars : Nat), (∀ p : Nat, parent = some p → p < c) →
      KeepsSprouting u (World.completeBelow parcel s parent ivars novel overridden inherited) :=
    fun _ ivars hparent => completeBelow hhook hc hparent ivars
  have hcell : ∀ (parent : Option ClassId) (ivars : Nat) (cell : IvarsCell),
      (∀ p : Nat, parent = some p → p < c) → KeepsSprouting u (do
        setCell cell ivars
        World.completeBelow parcel s parent ivars novel overridden inherited : Step World Unit) :=
    fun parent ivars _ hparent =>
      Step.Keeps.bind (.modify fun _ hv => ⟨hv.slots, hv.hook, hv.older⟩) fun _ =>
        hplain parent ivars hparent
  unfold World.complete
  cases hparent : s.parent with
  | none =>
    have hnone : ∀ p : Nat, (none : Option ClassId) = some p → p < c := nofun
    simp only [pure_bind]
    cases s.cell with
    | none => exact Step.Keeps.bind (.gets _) fun ivars => hplain none ivars hnone
    | some cell => exact Step.Keeps.bind (.gets _) fun ivars => hcell none ivars cell hnone
  | some t =>
    obtain ⟨d, hd, hlt⟩ := hbelow t hparent
    have hsome : ∀ p : Nat, some d = some p → p < c := fun p hp => Option.some.inj hp ▸ hlt
    simp only [pure_bind]
    refine slotClass_bind hd ?_
    cases s.cell with
    | none => exact Step.Keeps.bind (.gets _) fun ivars => hplain (some d) ivars hsome
    | some cell => exact Step.Keeps.bind (.gets _) fun ivars => hcell (some d) ivars cell hsome

theorem completeAll (hhook : ∀ hook, u.hook = some hook → hook.OnlyFills)
    (hspecs : Planted u specs) :
    KeepsSprouting u (World.completeAll parcel specs novel overridden inherited) := by
  induction specs generalizing novel overridden inherited with
  | nil => exact Step.Keeps.pure ()
  | cons s rest ih =>
    obtain ⟨⟨c, hc, hbelow⟩, hrest⟩ := List.forall_mem_cons.1 hspecs
    exact Step.Keeps.bind (complete hhook hc hbelow) fun _ => ih hrest

theorem register (c : ClassId) : KeepsSprouting u (World.register c) := by
  intro v hv
  unfold World.register
  rw [bindName_apply]
  exact ⟨⟨hv.slots, hv.hook, hv.older⟩, fun _ _ => trivial, fun _ _ => trivial⟩

theorem finish (hc : u.slots s.slot = some c) : KeepsSprouting u (World.finish parcel s novel) := by
  refine slotClass_bind hc (Step.Keeps.get_bind fun v _ => ?_)
  split
  · exact .fault trivial trivial
  · refine Step.Keeps.bind (.modify fun x hx => hx.modify fun p hp => .inl hp) fun _ =>
      Step.Keeps.bind (register c) fun b => ?_
    cases b with
    | false => exact Step.Keeps.bind (.emit trivial) fun _ => .emit trivial
    | true => exact .emit trivial

theorem finishAll (hspecs : Planted u specs) :
    KeepsSprouting u (World.finishAll parcel specs novel) := by
  induction specs generalizing novel with
  | nil => exact Step.Keeps.pure ()
  | cons s rest ih =>
    obtain ⟨⟨c, hc, -⟩, hrest⟩ := List.forall_mem_cons.1 hspecs
    exact Step.Keeps.bind (finish hc) fun _ => ih hrest

end KeepsSprouting

/-- A bootstrap gives no class a parent that came later, whether it succeeds or stops. -/
theorem ParentsOlder.bootstrap (h : ParentsOlder w) (hs : SlotsInside w)
    (hhook : ∀ hook, w.hook = some hook → hook.OnlyFills) (p : ParcelSpec) :
    ParentsOlder (World.bootstrap p w).state := by
  have hpublish : Step.Keeps (fun v => v.ParentsOlder ∧ v.hook = w.hook) _ _
      (publishAll p.classes) :=
    publishAll_keeps (F := fun _ => True) (fun _ => trivial) p.classes fun {v} t size _ hv => by
      refine ⟨fun c q hq => ?_, hv.2⟩
      rw [get_append v (.blank size) fun r => if r = t then some v.classes.length else v.slots r]
        at hq
      split at hq
      · cases hq
      · exact hv.1 c q hq
  obtain ⟨⟨holder, hsame⟩, -⟩ := hpublish { w with parcels := w.parcels + 1 } ⟨h, rfl⟩
  rw [bootstrap_eq]
  rcases hx : publishAll p.classes { w with parcels := w.parcels + 1 } with ⟨v, (stop | _), es⟩
  · rw [hx] at holder
    exact Step.endures_of_eq (P := ParentsOlder) (Step.bind_of_stop _ hx) holder
  · rw [hx] at holder hsame
    obtain ⟨-, -, -, hpub⟩ := publishAll_gives (w := { w with parcels := w.parcels + 1 })
      ⟨by rw [hx], by rw [hx]⟩ hs
    have hplanted := hpub.planted
    have hhook' : ∀ hook, v.hook = some hook → hook.OnlyFills := by rwa [hsame]
    have hbuild : KeepsSprouting v (buildPublished (w.parcels + 1) p) :=
      Step.Keeps.bind (KeepsSprouting.completeAll hhook' hplanted) fun _ =>
        Step.Keeps.bind (KeepsSprouting.finishAll hplanted) fun _ =>
          Step.Keeps.bind (.emit trivial) fun _ => .pure _
    rw [Step.state_bind_of_ok _ hx]
    exact (hbuild v ⟨rfl, rfl, holder⟩).1.older

/-! ### Whatever is done -/

/-- Parents are older, unless a hook does more than fill vtables. -/
def Descending (w : World) : Prop :=
  (∀ hook, w.hook = some hook → hook.OnlyFills) → w.ParentsOlder

theorem Descending.of_touched (h : Descending w) (ht : Touched w w') : Descending w' :=
  fun hhook c p hp => h (ht.hook ▸ hhook) c p ((ht.lasts c).parent ▸ hp)

theorem Descending.bindName (h : Descending w) (name : String) (c : ClassId) :
    Descending (World.bindName name c w).state := by
  rw [bindName_apply]
  exact h

theorem enduring_descending : Enduring (fun _ => True) Descending where
  operation {op w} _ hw h := by
    rcases op.harmless_or with ⟨p, rfl⟩ | ⟨requested, rfl⟩ | ⟨name, c, rfl⟩ | ⟨c, rfl⟩ | hop
    · intro hhook
      have hsame := ((Operation.bootstrap p).goes hw).state.2.hook
      rw [Operation.state_bootstrap] at hsame hhook ⊢
      rw [hsame] at hhook
      exact (h hhook).bootstrap hw.slots hhook p
    · exact h
    · rcases Operation.state_bindName name c w with heq | heq
      · rwa [heq]
      · exact heq ▸ h.bindName name c
    · rcases Operation.state_register c w with heq | heq
      · rwa [heq]
      · exact heq ▸ h.bindName _ c
    · exact h.of_touched (hop w w.hook w (.refl w)).1
  bindName name c {w} _ h := h.bindName name c
  enter {d parent w} h hbelow hparent := by
    intro hhook c p hp
    rw [get_append w d w.slots] at hp
    split at hp
    · next hc =>
      rw [hc, ← Option.some.inj (hbelow.symm.trans hp)]
      exact hparent
    · exact h hhook c p hp
  tell _ _ h := h

end World

open World

namespace Ensues

theorem descending {w w' : World} (h : Ensues w w') (hw : Whole w) (hd : w.Descending) :
    w'.Descending := by
  induction h with
  | refl => exact hd
  | run h p ih =>
    exact enduring_descending.run (p.only_of_forall fun _ => trivial) (h.whole_later hw).1 ih
  | hooked _ hook hnone ih =>
    refine fun _ => ih fun hook' hhook' => ?_
    rw [hnone] at hhook'
    cases hhook'

end Ensues

namespace World

variable {w : World} {a b c p : Nat}

/-! ### Walks -/

namespace ParentsOlder

variable (h : ParentsOlder w)

include h

theorem mem_ancestors_of_parent (hp : (w.get c).parent = some p) (ha : a ∈ w.ancestors p) :
    a ∈ w.ancestors c := by
  rw [h.first.ancestors_cons (Nat.le_refl _) (lt_of_parent hp), hp]
  exact List.mem_cons_of_mem _ ha

theorem le_of_mem_ancestors (ha : a ∈ w.ancestors c) : a ≤ c := by
  induction c using Nat.strongRecOn with
  | ind c ih =>
    rcases h.first.eq_or_above ha with rfl | ⟨p, -, hlt, ha⟩
    · exact Nat.le_refl _
    · exact Nat.le_trans (ih p hlt ha) (Nat.le_of_lt hlt)

theorem ancestors_trans (hb : b ∈ w.ancestors a) (hc : c ∈ w.ancestors b) :
    c ∈ w.ancestors a := by
  induction a using Nat.strongRecOn with
  | ind a ih =>
    rcases h.first.eq_or_above hb with rfl | ⟨p, hp, hlt, hb⟩
    · exact hc
    · exact h.mem_ancestors_of_parent hp (ih p hlt hb)

theorem ancestors_comparable (hb : b ∈ w.ancestors a) (hc : c ∈ w.ancestors a) :
    c ∈ w.ancestors b ∨ b ∈ w.ancestors c := by
  induction a using Nat.strongRecOn with
  | ind a ih =>
    rcases h.first.eq_or_above hb with rfl | ⟨p, hp, hlt, hbp⟩
    · exact .inl hc
    rcases h.first.eq_or_above hc with rfl | ⟨q, hq, -, hcq⟩
    · exact .inr hb
    obtain rfl := Option.some.inj (hp.symm.trans hq)
    exact ih p hlt hbp hcq

theorem ancestorsUpTo_eq {n : Nat} (hn : c < n) :
    w.ancestorsUpTo n c = c :: (w.get c).parent.elim [] w.ancestors := by
  obtain ⟨n, rfl⟩ : ∃ k, n = k + 1 := Nat.exists_eq_add_one.2 (Nat.zero_lt_of_lt hn)
  rw [ancestorsUpTo]
  cases hp : (w.get c).parent with
  | none => rfl
  | some p =>
    have hlt := h c p hp
    have hp' := Nat.lt_trans hlt (lt_of_parent hp)
    exact congrArg (c :: ·) (h.first.ancestorsUpTo_eq hp' (by omega) hp')

theorem descendsUpTo_eq {n : Nat} (hn : a < n) (b : Nat) :
    w.descendsUpTo n a b =
      (decide (a = b) || (w.get a).parent.elim false (w.isSubclassOf · b)) := by
  rw [Bool.eq_iff_iff, descendsUpTo_iff, h.ancestorsUpTo_eq hn, List.mem_cons, Bool.or_eq_true,
    decide_eq_true_iff, eq_comm]
  refine or_congr_right ?_
  cases (w.get a).parent with
  | none => simp
  | some p => exact (isSubclassOf_iff w p b).symm

theorem findMethod_eq (hc : c < w.classes.length) (name : String) :
    w.findMethod c name =
      (((w.get c).methods.findIdx? (·.name == name)).map (c, ·)).or
        ((w.get c).parent.bind (w.findMethod · name)) := by
  unfold findMethod
  rw [h.first.ancestors_cons (Nat.le_refl _) hc, List.findSome?_cons]
  cases (w.get c).methods.findIdx? (·.name == name) with
  | some i => rfl
  | none => cases (w.get c).parent <;> rfl

end ParentsOlder

/-- Each Destroy function of the user's own goes on from a class that was there no later than the
classes that have the function. -/
def DestroysUpward (w : World) : Prop :=
  ∀ (c : Nat) k slot owner, w.resolve c CoreMethod.objDestroy = .ok (.custom (.teardown k)) →
    w.owners k = some slot → w.slots slot = some owner → owner ≤ c

theorem lt_of_resolve {m : MethodRef} {code : Code} (h : w.resolve c m = .ok code) :
    c < w.classes.length := by
  by_contra hc
  unfold resolve at h
  rw [get_of_length_le (Nat.le_of_not_lt hc)] at h
  have hempty : (Descriptor.blank 0).vtable.length = 0 := rfl
  cases hindex : slotIndex? (Descriptor.blank 0).vtable.length (w.offsets m) with
  | none => simp [Descriptor.slot, hindex] at h
  | some i => exact absurd (slotIndex?_eq_some hindex).1 (by omega)

/-- The classes of two worlds are the same, and go to an end in the same way. -/
structure SameEnds (w v : World) : Prop where
  classes : v.classes = w.classes
  slots : v.slots = w.slots
  offsets : v.offsets = w.offsets
  owners : v.owners = w.owners

namespace SameEnds

variable {v : World}

theorem get_eq (h : SameEnds w v) : v.get = w.get := by
  unfold World.get
  rw [h.classes]

theorem resolve_eq (h : SameEnds w v) (c : ClassId) (m : MethodRef) :
    v.resolve c m = w.resolve c m := by
  unfold resolve nameOf
  rw [h.get_eq, h.offsets]

end SameEnds

/-- The functions that an end of an object goes through do not use up an allowance: each is found
at a class that is older than the one before. -/
theorem ParentsOlder.runDestroy_finished (h : ParentsOlder w) (hup : DestroysUpward w)
    {code : Code} (hcode : w.resolve c CoreMethod.objDestroy = .ok code) {n : Nat} (hn : c < n)
    (o : ObjRef) :
    (runDestroy n code o).Keeps (SameEnds w) (fun _ => True) (· ≠ .unfinished) := by
  have hfree : (free o).Keeps (SameEnds w) (fun _ => True) (· ≠ .unfinished) := by
    cases o with
    | allocated i => exact .modify fun v hv => ⟨hv.classes, hv.slots, hv.offsets, hv.owners⟩
    | _ => exact .pure ()
  induction c using Nat.strongRecOn generalizing code n with
  | ind c ih =>
    obtain ⟨n, rfl⟩ : ∃ k, n = k + 1 := Nat.exists_eq_add_one.2 (Nat.zero_lt_of_lt hn)
    cases code with
    | objDestroy => exact hfree
    | immortalDestroy => exact fun v hv => Step.Keeps.fault (α := Unit) trivial nofun v hv
    | custom b =>
      cases b with
      | teardown k =>
        refine .bind (.gets _) fun s => .bind (.modify fun v hv =>
          ⟨hv.classes, hv.slots, hv.offsets, hv.owners⟩) fun _ => .gets_bind fun v hv => ?_
        rw [hv.owners]
        cases howner : w.owners k with
        | none => exact .pure ()
        | some slot =>
          refine keeps_slotClass_bind trivial nofun fun v owner hv hslot => ?_
          have howns := hup c k slot owner hcode howner (hv.slots ▸ hslot)
          refine .gets_bind fun v hv => ?_
          rw [hv.get_eq]
          cases hp : (w.get owner).parent with
          | none => exact .pure ()
          | some parent =>
            have hlt := Nat.lt_of_lt_of_le (h owner parent hp) howns
            refine .get_bind fun v hv => ?_
            rw [hv.resolve_eq]
            cases hnext : w.resolve parent CoreMethod.objDestroy with
            | error f => exact Step.Keeps.fault (α := Unit) trivial nofun
            | ok next => exact ih parent hlt hnext (by omega)
      | _ => exact .pure ()
    | _ => exact .pure ()

/-- The classes of a world are a forest: parents were there before, every walk along them ends, and
to be a subclass is an order in which the classes above a class are in line. -/
structure IsForest (w : World) : Prop where
  parent_lt : ∀ c p : Nat, (w.get c).parent = some p → p < c ∧ c < w.classes.length
  wellFounded : WellFounded fun p c : Nat => (w.get c).parent = some p
  ancestorsUpTo : ∀ n c : Nat, c < n →
    w.ancestorsUpTo n c = c :: (w.get c).parent.elim [] w.ancestors
  descendsUpTo : ∀ n a b : Nat, a < n →
    w.descendsUpTo n a b = (decide (a = b) || (w.get a).parent.elim false (w.isSubclassOf · b))
  findMethod : ∀ (c : Nat) name, c < w.classes.length → w.findMethod c name =
    (((w.get c).methods.findIdx? (·.name == name)).map (c, ·)).or
      ((w.get c).parent.bind (w.findMethod · name))
  ivarsOffset : ∀ (p : Nat) parcel, p < w.classes.length → w.ivarsOffset (some p) parcel =
    if (w.get p).parcel = parcel then w.ivarsOffset (w.get p).parent parcel else (w.get p).objSize
  subclass_iff : ∀ a b : Nat, w.isSubclassOf a b = true ↔ b ∈ w.ancestors a
  refl : ∀ a : Nat, a < w.classes.length → w.isSubclassOf a a = true
  trans : ∀ a b c : Nat, w.isSubclassOf a b = true → w.isSubclassOf b c = true →
    w.isSubclassOf a c = true
  antisymm : ∀ a b : Nat, w.isSubclassOf a b = true → w.isSubclassOf b a = true → a = b
  comparable : ∀ a b c : Nat, b ∈ w.ancestors a → c ∈ w.ancestors a →
    w.isSubclassOf b c = true ∨ w.isSubclassOf c b = true

theorem ParentsOlder.isForest (h : ParentsOlder w) : IsForest w where
  parent_lt c p hp := ⟨h c p hp, lt_of_parent hp⟩
  wellFounded := Subrelation.wf (h _ _) Nat.lt_wfRel.wf
  ancestorsUpTo n c hn := h.ancestorsUpTo_eq hn
  descendsUpTo n a b hn := h.descendsUpTo_eq hn b
  findMethod c name hc := h.findMethod_eq hc name
  ivarsOffset p parcel hp := h.first.ivarsOffset_some (Nat.le_refl _) hp parcel
  subclass_iff := isSubclassOf_iff w
  refl a ha := (isSubclassOf_iff w a a).2 (by
    rw [h.first.ancestors_cons (Nat.le_refl _) ha]
    exact List.mem_cons_self)
  trans a b c hab hbc := by
    rw [isSubclassOf_iff] at hab hbc ⊢
    exact h.ancestors_trans hab hbc
  antisymm a b hab hba := by
    rw [isSubclassOf_iff] at hab hba
    exact Nat.le_antisymm (h.le_of_mem_ancestors hba) (h.le_of_mem_ancestors hab)
  comparable a b c hb hc := by
    rw [isSubclassOf_iff, isSubclassOf_iff]
    exact h.ancestors_comparable hb hc

theorem ParentsOlder.destroy_finished (h : ParentsOlder w) (hup : DestroysUpward w) (o : ObjRef) :
    (destroy o).Keeps (SameEnds w) (fun _ => True) (· ≠ .unfinished) := by
  refine .get_bind fun v hv => .bind (.emit trivial) fun _ => ?_
  rw [hv.resolve_eq]
  cases hcode : w.resolve (v.classOf o) CoreMethod.objDestroy with
  | error f => exact Step.Keeps.fault (α := Unit) trivial nofun
  | ok code =>
    have hrun := h.runDestroy_finished hup hcode (lt_of_resolve hcode) o
    rw [← hv.classes] at hrun
    exact hrun

/-- Whatever is done to a world that began empty, and wherever it stopped, its classes are a forest:
a parent is always there before its children, so every walk along parents ends.  The end of an
object is such a walk when the Destroy functions go upward. -/
theorem forest_of_ensues {hash : String → Nat} {t : HostTable}
    (h : Ensues { hash := hash, host := t } w)
    (hhook : ∀ hook, w.hook = some hook → hook.OnlyFills) :
    w.IsForest ∧ ∀ owners, let v : World := { w with owners := owners }
      DestroysUpward v → ∀ o, (destroy o v).answer ≠ .error .unfinished ∧
        ∀ (c : Nat) code n, v.resolve c CoreMethod.objDestroy = .ok code → c < n →
          (runDestroy n code o v).answer ≠ .error .unfinished := by
  have hempty : Descending { hash := hash, host := t } := fun _ c p hp => by
    rw [get_of_length_le (Nat.zero_le c)] at hp
    cases hp
  have holder := h.descending (Whole.start hash t) hempty hhook
  refine ⟨holder.isForest, fun owners => ?_⟩
  intro v hup o
  have hv : v.ParentsOlder := holder
  have hsame : SameEnds v v := ⟨rfl, rfl, rfl, rfl⟩
  exact ⟨fun hstop => (hv.destroy_finished hup o v hsame).2.2 _ hstop rfl,
    fun c code n hcode hn hstop => (hv.runDestroy_finished hup hcode hn o v hsame).2.2 _ hstop rfl⟩

end World

namespace Kennel

/-- A puppy is born. -/
def birth : Program := .act (.make 2) fun _ => .answer none []

/-- After a day on which the class of puppies was made and the parcel was refused the second time,
puppies are below dogs and these are below animals.  A puppy that is born then comes to an end. -/
theorem forest_after_day :
    let w := (birth.run (day.run dogs).state).state
    (∀ hook, w.hook = some hook → hook.OnlyFills) ∧ IsForest w ∧
      w.ancestors 2 = [2, 1, 0] ∧ w.isSubclassOf 2 0 = true ∧ w.isSubclassOf 0 2 = false ∧
      w.classOf (.allocated 0) = 2 ∧
      (destroy (.allocated 0) { w with owners := fun _ => none }).answer ≠ .error .unfinished := by
  have hhook : ∀ hook, (birth.run (day.run dogs).state).state.hook = some hook →
      hook.OnlyFills := by
    have hnone : (birth.run (day.run dogs).state).state.hook.isNone = true := by decide +kernel
    intro hook heq
    rw [heq] at hnone
    cases hnone
  obtain ⟨hforest, hends⟩ := forest_of_ensues ((dogs_ensue.run day).run birth) hhook
  exact ⟨hhook, hforest, by decide +kernel, by decide +kernel, by decide +kernel,
    by decide +kernel, (hends (fun _ => none) (fun _ _ _ _ _ => nofun) (.allocated 0)).1⟩

end Kennel

end ObjectSystem
