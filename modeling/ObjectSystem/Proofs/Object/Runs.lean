import ObjectSystem.Proofs.Class.Apart
import ObjectSystem.Proofs.Object.Counting

/-! # Runs of handles

`Run L s t` says that `s` came about by acts in any order, with classes being built in between, and
that `t` tells of every act what came of it.

`Run.count_eq_handles` is what holds of every run.  The counts are right, the Destroy function of a
mortal object was run once if all handles on it were given up and not at all before, and nothing is
ever counted or destroyed of an immortal object. -/

namespace ObjectSystem

open World

/-- An act, with what came of it. -/
structure Deed where
  act : Act
  answer : Except Stop (Option Nat)
  events : List Event

/-- What an act comes to. -/
def Act.deed (a : Act) (s : Holding) : Deed :=
  ⟨a, (a.perform s).answer, (a.perform s).events⟩

/-- How often an object was destroyed. -/
def deaths (o : ObjRef) (t : List Deed) : Nat :=
  (t.map fun d => if d.act.target = some o then d.events.countP Event.isEnd else 0).sum

theorem deaths_concat (o : ObjRef) (t : List Deed) (d : Deed) :
    deaths o (t ++ [d]) =
      deaths o t + if d.act.target = some o then d.events.countP Event.isEnd else 0 := by
  simp [deaths]

namespace World

variable {w w' : World}

/-- Nothing that counts for classes or handles differs between two worlds. -/
structure Idle (w w' : World) : Prop extends Alike w w' where
  special : ∀ c : Nat, (w'.get c).flags.special = (w.get c).flags.special
  metaclass : ∀ c : Nat, (w'.get c).metaclass = (w.get c).metaclass
  handles : ∀ c : Nat, (w'.get c).handles = (w.get c).handles
  headers : ∀ c : Nat, (w'.get c).methods.map (fun m => (m.metaclass, m.handles)) =
    (w.get c).methods.map fun m => (m.metaclass, m.handles)
  stock : w'.stock = w.stock

theorem Marked.idle (hm : Marked w) (h : Idle w w') : Marked w' := by
  have hheader : ∀ c : Nat, ∀ m ∈ (w'.get c).methods, ∃ m' ∈ (w.get c).methods,
      m'.metaclass = m.metaclass ∧ m'.handles = m.handles := by
    intro c m hmem
    have hmem' : (m.metaclass, m.handles) ∈
        (w'.get c).methods.map fun m => (m.metaclass, m.handles) :=
      List.mem_map_of_mem hmem
    rw [h.headers] at hmem'
    obtain ⟨m', hm', heq⟩ := List.mem_map.1 hmem'
    exact ⟨m', hm', Prod.mk.inj heq⟩
  constructor
  · intro t c ht
    rw [h.special]
    exact hm.special t c (h.slots ▸ ht)
  · intro c hc
    simp only [h.special, h.slots, h.parent] at hc ⊢
    exact hm.source c hc
  · intro c k hk
    rw [h.slots]
    exact hm.metaclass c k (h.metaclass c ▸ hk)
  · intro c m hmem k hk
    obtain ⟨m', hm', hmeta, -⟩ := hheader c m hmem
    rw [h.slots]
    exact hm.methodClass c m' hm' k (hmeta.trans hk)
  · intro c
    rw [h.handles]
    exact hm.handles c
  · intro c m hmem
    obtain ⟨m', hm', -, hhandles⟩ := hheader c m hmem
    exact hhandles ▸ hm.methodHandles c m' hm'

/-- To the classes of a world nothing is done that counts for handles, and to the objects nothing at
all. -/
structure Grows (w w' : World) : Prop where
  special : ∀ c : Nat, c < w.classes.length →
    (w'.get c).flags.special = (w.get c).flags.special
  metaclass : ∀ c : Nat, c < w.classes.length → (w'.get c).metaclass = (w.get c).metaclass
  methodClasses : ∀ c : Nat, c < w.classes.length →
    (w'.get c).methods.map (·.metaclass) = (w.get c).methods.map (·.metaclass)
  slots : ∀ t c, w.slots t = some c → w'.slots t = some c
  stock : w'.stock = w.stock

theorem Grows.of_get (hget : ∀ c : Nat, c < w.classes.length → w'.get c = w.get c)
    (hslots : ∀ t c, w.slots t = some c → w'.slots t = some c) (hstock : w'.stock = w.stock) :
    Grows w w' where
  special c hc := by rw [hget c hc]
  metaclass c hc := by rw [hget c hc]
  methodClasses c hc := by rw [hget c hc]
  slots := hslots
  stock := hstock

theorem Idle.grows (h : Idle w w') : Grows w w' where
  special c _ := h.special c
  metaclass c _ := h.metaclass c
  methodClasses c _ := by
    have hfst := congrArg (List.map Prod.fst) (h.headers c)
    rwa [List.map_map, List.map_map] at hfst
  slots t c ht := h.slots ▸ ht
  stock := h.stock

theorem Grows.objects (h : Grows w w') : w'.objects = w.objects := congrArg Prod.fst h.stock

theorem Grows.present {o : ObjRef} (h : Grows w w') (ho : w.Present o) : w'.Present o := by
  have hlt : ∀ c : Nat, w.get c ≠ .blank 0 → c < w.classes.length := fun c hc =>
    Nat.lt_of_not_le fun hle => hc (get_of_length_le hle)
  cases o with
  | allocated i =>
    show i < w'.objects.length
    rw [h.objects]
    exact ho
  | ofClass c =>
    have hc : c < w.classes.length := hlt c fun hblank => by
      have hsome : (w.get c).metaclass.isSome = true := ho
      rw [hblank] at hsome
      cases hsome
    show (w'.get c).metaclass.isSome
    rw [h.metaclass c hc]
    exact ho
  | ofMethod c j =>
    have hc : c < w.classes.length := hlt c fun hblank => by
      have hsome : (((w.get c).methods[j]?).bind (·.metaclass)).isSome = true := ho
      rw [hblank] at hsome
      cases hsome
    have hbind : ∀ l : List Method, l[j]?.bind (·.metaclass) = (l.map (·.metaclass))[j]?.join := by
      intro l
      rw [List.getElem?_map]
      cases l[j]? <;> rfl
    show (((w'.get c).methods[j]?).bind (·.metaclass)).isSome
    rw [hbind, h.methodClasses c hc, ← hbind]
    exact ho

end World

/-! ### What is told of a run -/

/-- What was told of the objects: a mortal one was destroyed once if it has no handles any more, and
not at all before.  Nothing else was ever destroyed. -/
structure Logged (s : Holding) (t : List Deed) : Prop where
  mortal : ∀ (i : Nat) x, s.world.objects[i]? = some x →
    (s.world.get x.cls).flags.special = false →
      deaths (.allocated i) t = if x.count = 0 then 1 else 0
  other : ∀ o, (∀ (i : Nat) x, o = .allocated i → s.world.objects[i]? = some x →
    (s.world.get x.cls).flags.special = true) → deaths o t = 0

variable {L L' : Ledger} {s : Holding} {t : List Deed} {w' : World}

theorem Tallied.grow (h : Tallied L s) (hL : L <:+ L') (hg : Grows s.world w')
    (standing : Standing L' w') (marked : w'.Marked)
    (rooted : ∀ r : Nat, w'.slots .obj = some r → CoreMethod.objDestroy ∈ (L'.entry r).own) :
    Tallied L' { s with world := w' } where
  standing := standing
  marked := marked
  rooted := rooted
  truthful no yes htruths i hi := by
    have htruths' : s.world.truths = some (no, yes) :=
      (congrArg Prod.snd hg.stock).symm.trans htruths
    obtain ⟨x, hx, hslot⟩ := h.truthful no yes htruths' i hi
    exact ⟨x, (congrArg (·[i]?) hg.objects).trans hx, hg.slots _ _ hslot⟩
  present o ho := hg.present (h.present o ho)
  counted i x hx := by
    have hcounted := h.counted i x ((congrArg (·[i]?) hg.objects).symm.trans hx)
    have hspecial := hg.special x.cls (h.standing.length_eq ▸ hcounted.inside)
    refine ⟨Nat.lt_of_lt_of_le hcounted.inside hL.length_le, ?_, ?_, ?_, ?_⟩
    · exact fun hs => hcounted.immortal (hspecial ▸ hs)
    · exact fun hs => (hcounted.destroys (hspecial ▸ hs)).of_suffix hL
    · exact fun hs => hcounted.mortal (hspecial ▸ hs)
    · exact fun hs => hcounted.alive (hspecial ▸ hs)

theorem Logged.grow (h : Logged s t) (ht : Tallied L s) (hg : Grows s.world w') :
    Logged { s with world := w' } t := by
  have hobjects : ∀ i : Nat, w'.objects[i]? = s.world.objects[i]? := fun i =>
    congrArg (·[i]?) hg.objects
  have hspecial : ∀ (i : Nat) x, s.world.objects[i]? = some x →
      (w'.get x.cls).flags.special = (s.world.get x.cls).flags.special := fun i x hx =>
    hg.special x.cls (ht.standing.length_eq ▸ (ht.counted i x hx).inside)
  constructor
  · intro i x hx hmortal
    have hx' := (hobjects i).symm.trans hx
    exact h.mortal i x hx' ((hspecial i x hx').symm.trans hmortal)
  · intro o ho
    refine h.other o fun i x hi hx => ?_
    rw [← hspecial i x hx]
    exact ho i x hi ((hobjects i).trans hx)

/-- What is told of one more act. -/
theorem Logged.perform (h : Logged s t) (ht : Tallied L s) {a : Act} (ha : a.Allowed s) {ends : Nat}
    (he : Effect s a.target ends (a.perform s)) :
    Logged (a.perform s).state (t ++ [a.deed s]) := by
  have hdeaths : ∀ o, deaths o (t ++ [a.deed s]) =
      deaths o t + if a.target = some o then ends else 0 := by
    intro o
    rw [deaths_concat, ← he.ends_eq]
    rfl
  constructor
  · intro i x' hx' hmortal
    rw [hdeaths]
    by_cases hi : i < s.world.objects.length
    · have hx := List.getElem?_eq_getElem hi
      obtain ⟨y, hy, hcls, -, hcount⟩ := he.old i _ hx
      obtain rfl : x' = y := Option.some.inj (hx'.symm.trans hy)
      rw [he.same.get, hcls] at hmortal
      rw [h.mortal i _ hx hmortal, hcount]
    · -- a new object has a handle, and was not there to be destroyed
      have hle := Nat.le_of_not_lt hi
      have hnone := List.getElem?_eq_none hle
      rw [if_neg (he.new i x' hx' hle), h.other (.allocated i) fun j x hj hx => by
        rw [← ObjRef.allocated.inj hj, hnone] at hx
        cases hx]
      have htarget : a.target ≠ some (.allocated i) := fun htarget =>
        hi (ht.present _ (ha.held htarget))
      rw [if_neg htarget]
  · intro o ho
    have ho' : ∀ (i : Nat) x, o = .allocated i → s.world.objects[i]? = some x →
        (s.world.get x.cls).flags.special = true := by
      intro i x hi hx
      obtain ⟨x', hx', hcls, -⟩ := he.old i x hx
      have hspecial := ho i x' hi hx'
      rwa [he.same.get, hcls] at hspecial
    rw [hdeaths, h.other o ho', Nat.zero_add]
    split
    · next htarget =>
      refine he.immortal fun o' heq => ?_
      obtain rfl : o = o' := Option.some.inj (htarget.symm.trans heq)
      by_contra hmortal
      obtain ⟨i, x, hi, hx, hfalse⟩ := ht.exists_instance (ht.present o (ha.held htarget))
        (Bool.eq_false_iff.2 hmortal)
      rw [ho' i x hi hx] at hfalse
      cases hfalse
    · rfl

/-- The root class has what a property asks for if that of the core parcel has it. -/
theorem World.root_withParcel {w : World} {p : ParcelSpec} {P : Entry → Prop} (hs : Standing L w)
    (hcore : P { novel := Core.novel })
    (hrooted : ∀ r : Nat, w.slots .obj = some r → P (L.entry r))
    (hroot : ∀ s ∈ p.classes, s.slot = .obj → p = Core.parcel)
    (hslots : w'.slots = Ledger.fillSlots w.slots w.classes.length p.classes) :
    ∀ r : Nat, w'.slots .obj = some r → P ((L.withParcel w p).entry r) := by
  intro r hr
  rw [hslots] at hr
  rcases Ledger.fillSlots_cases hr with hr | ⟨k, s, hk, hslot, rfl⟩
  · have hlt : r < L.length := hs.length_eq ▸ hs.slots _ r hr
    rw [Ledger.withParcel, Ledger.entry_of_suffix Ledger.suffix_enter hlt]
    exact hrooted r hr
  · obtain rfl := hroot s (List.mem_of_getElem? hk) hslot
    have hothers : ∀ s ∈ Core.parcel.classes.tail, s.slot ≠ .obj := by decide
    have hzero : k = 0 := by
      cases k with
      | zero => rfl
      | succ k =>
        rw [← List.getElem?_tail] at hk
        exact absurd hslot (hothers s (List.mem_of_getElem? hk))
    rw [hzero, Nat.add_zero, hs.length_eq, Ledger.withParcel, Core.parcel, Core.classes,
      Ledger.enter, Ledger.entry_of_suffix Ledger.suffix_enter (by simp), Ledger.entry_self]
    exact hcore

/-! ### Runs -/

/-- What comes about by acts, with parcels bootstrapped and subclasses made in between.  The root
class is that of the core parcel. -/
inductive Run : Ledger → Holding → List Deed → Prop
  | start : Run [] {} []
  | bootstrap {L : Ledger} {s : Holding} {t : List Deed} {w' : World} {p : ParcelSpec} {n : Nat}
    (before : Run L s t) (call : (World.bootstrap p).Gives s.world n w')
    (hook : ∀ hook, s.world.hook = some hook → hook.OnlyFills)
    (enough : (p.classes.map (·.numNovel)).sum ≤ p.novel.length)
    (once : (L.withParcel s.world p).refs.Nodup)
    (anchored : (L.withParcel s.world p).Anchored)
    (root : ∀ c ∈ p.classes, c.slot = .obj → p = Core.parcel) :
    Run (L.withParcel s.world p) { s with world := w' } t
  | subclass {L : Ledger} {s : Holding} {t : List Deed} {w' : World} {fresh : List String}
    {name : String} {parent : Nat} (before : Run L s t) (inside : parent < s.world.classes.length)
    (call : (createSubclass (.answering fresh) name parent).Gives s.world
      (.ok s.world.classes.length) w') :
    Run (L.made s.world parent fresh :: L) { s with world := w' } t
  /-- Something is done that has nothing to do with classes or handles. -/
  | aside {L : Ledger} {s : Holding} {t : List Deed} {w' : World} (before : Run L s t)
    (same : Idle s.world w') : Run L { s with world := w' } t
  | act {L : Ledger} {s : Holding} {t : List Deed} {a : Act} (before : Run L s t)
    (allowed : a.Allowed s) : Run L (a.perform s).state (t ++ [a.deed s])

theorem Tallied.start : Tallied [] {} where
  standing := .start
  marked := ⟨nofun, nofun, nofun, nofun, fun _ => rfl, nofun⟩
  rooted := nofun
  truthful := nofun
  present := nofun
  counted := nofun

/-- In every run the counts are right, and so is what was told. -/
theorem Run.tallied (h : Run L s t) : Tallied L s ∧ Logged s t := by
  induction h with
  | start => exact ⟨.start, nofun, fun _ _ => rfl⟩
  | @bootstrap L s t w' p n _ call hook enough once anchored root ih =>
    obtain ⟨htallied, hlogged⟩ := ih
    have hstanding := htallied.standing
    obtain ⟨hmarked, hslots, hkept, hget⟩ :=
      htallied.marked.bootstrap hstanding.slots call hook
    have hg : Grows s.world w' := .of_get hget hkept (bootstrap_stock call)
    refine ⟨htallied.grow Ledger.suffix_enter hg ?_ hmarked ?_, hlogged.grow htallied hg⟩
    · exact bootstrap_standing hstanding call hook enough once anchored
    · exact root_withParcel (P := fun e => CoreMethod.objDestroy ∈ e.own) hstanding
        (List.mem_append_left _ List.mem_cons_self) htallied.rooted root hslots
  | @subclass L s t w' fresh name parent _ inside call ih =>
    obtain ⟨htallied, hlogged⟩ := ih
    have hstanding := htallied.standing
    obtain ⟨-, r, vtable, hw'⟩ := createSubclass_copy hstanding.names call
    have hget : ∀ c : Nat, c < s.world.classes.length → w'.get c = s.world.get c := by
      intro c hc
      have happend := get_append s.world
        { s.world.subclassOf parent name with vtable := vtable } s.world.slots c
      rw [if_neg (Nat.ne_of_lt hc)] at happend
      rw [hw']
      exact happend
    have hg : Grows s.world w' := .of_get hget (fun _ _ ht => hw' ▸ ht) (hw' ▸ rfl)
    refine ⟨htallied.grow (List.suffix_cons _ _) hg ?_ ?_ ?_, hlogged.grow htallied hg⟩
    · exact createSubclass_standing hstanding (hstanding.length_eq ▸ inside) call
    · have hclasses : w'.classes =
          s.world.classes ++ [{ s.world.subclassOf parent name with vtable := vtable }] := by
        rw [hw']
      have hslots : w'.slots = s.world.slots := by rw [hw']
      exact htallied.marked.subclass hstanding.slots hclasses hslots rfl rfl rfl rfl rfl
    · intro r hr
      rw [hw'] at hr
      have hlt : r < L.length := hstanding.length_eq ▸ hstanding.slots _ r hr
      rw [Ledger.entry_of_suffix (List.suffix_cons _ _) hlt]
      exact htallied.rooted r hr
  | aside _ same ih =>
    obtain ⟨htallied, hlogged⟩ := ih
    refine ⟨htallied.grow List.suffix_rfl same.grows ?_ ?_ ?_, hlogged.grow htallied same.grows⟩
    · exact htallied.standing.alike same.toAlike
    · exact htallied.marked.idle same
    · intro r hr
      exact htallied.rooted r (same.slots ▸ hr)
  | act _ allowed ih =>
    obtain ⟨htallied, hlogged⟩ := ih
    obtain ⟨htallied', ends, heffect⟩ := htallied.perform allowed
    exact ⟨htallied', hlogged.perform htallied allowed heffect⟩

/-! ### Immortal objects -/

variable {o : ObjRef} {k : Nat}

/-- A class whose instances are immortal is in a slot that says so, or below such a class. -/
theorem Tallied.special_below (h : Tallied L s) {c : Nat}
    (hc : (s.world.get c).flags.special = true) :
    ∃ slot k, s.world.slots slot = some k ∧ slot.isSpecial = true ∧
      s.world.isSubclassOf c k = true := by
  have hsound := h.standing.sound
  induction c using Nat.strongRecOn with
  | ind c ih =>
    have hlt : c < L.length := h.standing.length_eq ▸ lt_of_special hc
    have hlineage := hsound.wellFormed.lineage_eq hlt
    rcases h.marked.source c hc with ⟨slot, hslot, hspecial⟩ | ⟨p, hp, hspecial⟩
    · refine ⟨slot, c, hslot, hspecial, (isSubclassOf_iff _ _ _).2 ?_⟩
      rw [hsound.ancestors_eq hlt, hlineage]
      exact List.mem_cons_self
    · have hparent := (hsound.settled c hlt).parent.symm.trans hp
      have hpc := (hsound.wellFormed.lt_of_parent hparent).1
      obtain ⟨slot, k, hslot, hslotSpecial, hbelow⟩ := ih p hpc hspecial
      refine ⟨slot, k, hslot, hslotSpecial, (isSubclassOf_iff _ _ _).2 ?_⟩
      have hk := (isSubclassOf_iff _ _ _).1 hbelow
      rw [hsound.ancestors_eq (Nat.lt_trans hpc hlt)] at hk
      rw [hsound.ancestors_eq hlt, hlineage, hparent]
      exact List.mem_cons_of_mem _ hk

theorem Tallied.count_immortal (h : Tallied L s) (hclass : s.world.classOf? o = some k)
    (hspecial : (s.world.get k).flags.special = true) : s.world.count o = 1 := by
  cases o with
  | allocated i =>
    obtain ⟨x, hx, rfl⟩ := Option.map_eq_some_iff.1 hclass
    exact (count_allocated hx).trans ((h.counted i x hx).immortal hspecial)
  | ofClass c => exact h.marked.handles c
  | ofMethod c i =>
    obtain ⟨m, hm, -⟩ := Option.bind_eq_some_iff.1 hclass
    show ((s.world.methodAt (c, i)).map (·.handles)).getD 0 = 1
    rw [hm]
    exact h.marked.methodHandles c m (List.mem_of_getElem? hm)

theorem Effect.classOf? {target : Option ObjRef} {ends : Nat} {out : Outcome Holding (Option Nat)}
    (h : Effect s target ends out) (hclass : s.world.classOf? o = some k) :
    out.state.world.classOf? o = some k := by
  cases o with
  | allocated i =>
    obtain ⟨x, hx, rfl⟩ := Option.map_eq_some_iff.1 hclass
    obtain ⟨x', hx', hcls, -⟩ := h.old i x hx
    exact (classOf?_allocated hx').trans (congrArg some hcls)
  | ofClass c =>
    show (out.state.world.get c).metaclass = some k
    rw [h.same.get]
    exact hclass
  | ofMethod c i =>
    show ((out.state.world.get c).methods[i]?).bind (·.metaclass) = some k
    rw [h.same.get]
    exact hclass

/-- Handles on an immortal object come and go without the world taking notice. -/
theorem Act.perform_immortal {a : Act} (ho : a.target = some o)
    (himmortal : s.world.isImmortal o = true) :
    (a.perform s).state.world = s.world ∧ (a.perform s).events = [] := by
  have hgaveUp : ∀ f, (s.gaveUp o f).state.world = s.world ∧ (s.gaveUp o f).events = [] := by
    intro f
    unfold Holding.gaveUp
    rw [release_immortal himmortal]
    exact ⟨rfl, rfl⟩
  cases a <;> simp only [Act.target, reduceCtorEq, Option.some.injEq] at ho <;> subst ho
  case retain =>
    have hout : Act.perform (.retain _) s = _ :=
      Holding.take_ok (Step.bind_of_ok _ (retain_immortal himmortal))
    rw [hout]
    exact ⟨rfl, rfl⟩
  case release => exact Act.perform_release _ s ▸ hgaveUp some
  case drop => exact Act.perform_drop _ s ▸ hgaveUp fun _ => none
  case intoRaw => exact ⟨rfl, rfl⟩
  case fromRaw => exact ⟨rfl, rfl⟩

/-! ### Counts are handles -/

/-- In every run the classes in the slots of classes, methods and truth values are those whose
instances are immortal, with what is below them.  The count of a mortal object is the number of
handles on it, the raw ones among them.  It was destroyed once if there are none left, and not
before.

A release answers how many handles are left.  Only with the last one the Destroy function of the
class is run, and a drop does the same.  No act has to do with the count of another object.  An
immortal object is counted once for ever, it was never destroyed, and what is done with handles on
it is not noticed. -/
theorem Run.count_eq_handles (h : Run L s t) :
    (∀ slot (c : Nat), s.world.slots slot = some c →
      (s.world.get c).flags.special = slot.isSpecial) ∧
    (∀ c : Nat, (s.world.get c).flags.special = true → ∃ slot k, s.world.slots slot = some k ∧
      slot.isSpecial = true ∧ s.world.isSubclassOf c k = true) ∧
    (∀ (i : Nat) x, s.world.objects[i]? = some x → (s.world.get x.cls).flags.special = false →
      x.count = s.outstanding.count (.allocated i) ∧ (0 < x.count → x.freed = false) ∧
        deaths (.allocated i) t = if s.outstanding.count (.allocated i) = 0 then 1 else 0) ∧
    (∀ i : Nat, .allocated i ∈ s.handles → s.world.isImmortal (.allocated i) = false →
      (s.outstanding.count (.allocated i) ≠ 1 →
        ((Act.release (.allocated i)).perform s).answer =
            .ok (some (s.outstanding.count (.allocated i) - 1)) ∧
          ((Act.release (.allocated i)).perform s).events = []) ∧
      (s.outstanding.count (.allocated i) = 1 →
        ∃ code, s.world.resolve (s.world.classOf (.allocated i)) CoreMethod.objDestroy = .ok code ∧
          ((Act.release (.allocated i)).perform s).answer =
            (runDestroy s.world.classes.length code (.allocated i)
              (s.world.uncounted i)).answer.map (fun _ => some 0) ∧
          ((Act.release (.allocated i)).perform s).events =
            .objectDestroyed (s.world.classNameOf (.allocated i)) ::
              (runDestroy s.world.classes.length code (.allocated i)
                (s.world.uncounted i)).events)) ∧
    (∀ o, ((Act.drop o).perform s).state = ((Act.release o).perform s).state ∧
      ((Act.drop o).perform s).events = ((Act.release o).perform s).events) ∧
    (∀ a : Act, a.Allowed s → ∀ (i : Nat) x, s.world.objects[i]? = some x →
      a.target ≠ some (.allocated i) →
        (a.perform s).state.world.count (.allocated i) = x.count) ∧
    ∀ o slot (k : Nat), s.world.classOf? o = some k → s.world.slots slot = some k →
      slot.isSpecial = true →
        s.world.count o = 1 ∧ deaths o t = 0 ∧
          (∀ a : Act, a.Allowed s → (a.perform s).state.world.count o = 1) ∧
          ∀ a : Act, a.target = some o →
            (a.perform s).state.world = s.world ∧ (a.perform s).events = [] := by
  obtain ⟨htallied, hlogged⟩ := h.tallied
  refine ⟨htallied.marked.special, fun c => htallied.special_below, ?_, ?_, ?_, ?_, ?_⟩
  · intro i x hx hmortal
    have hcounted := htallied.counted i x hx
    have hcount := hcounted.mortal hmortal
    refine ⟨hcount, hcounted.alive hmortal, ?_⟩
    rw [hlogged.mortal i x hx hmortal, hcount]
  · intro i hheld hmortal
    have hpos : 0 < s.outstanding.count (.allocated i) :=
      List.count_pos_iff.2 (List.mem_append_left _ hheld)
    rw [Act.perform_release]
    unfold Holding.gaveUp
    rcases htallied.release_eq hheld hmortal with ⟨hleft, heq⟩ | ⟨hleft, code, hcode, heq⟩
    · rw [heq]
      exact ⟨fun _ => ⟨rfl, rfl⟩, fun hlast => absurd hlast (by omega)⟩
    · rw [heq]
      refine ⟨fun hshared => absurd hshared (by omega), fun _ => ⟨code, hcode, ?_, rfl⟩⟩
      cases (runDestroy s.world.classes.length code (.allocated i) (s.world.uncounted i)).answer <;>
        rfl
  · intro o
    rw [Act.perform_drop, Act.perform_release]
    exact ⟨rfl, rfl⟩
  · intro a ha i x hx htarget
    obtain ⟨-, ends, heffect⟩ := htallied.perform ha
    obtain ⟨x', hx', -, hcount, -⟩ := heffect.old i x hx
    exact (count_allocated hx').trans (hcount htarget)
  · intro o slot k hclass hslot hspecial
    have hmark : (s.world.get k).flags.special = true :=
      (htallied.marked.special slot k hslot).trans hspecial
    refine ⟨htallied.count_immortal hclass hmark, ?_, ?_, ?_⟩
    · refine hlogged.other o fun i x ho hx => ?_
      subst ho
      obtain rfl : x.cls = k := Option.some.inj ((classOf?_allocated hx).symm.trans hclass)
      exact hmark
    · intro a ha
      obtain ⟨htallied', ends, heffect⟩ := htallied.perform ha
      refine htallied'.count_immortal (heffect.classOf? hclass) ?_
      rw [heffect.same.get]
      exact hmark
    · intro a ho
      exact Act.perform_immortal ho ((isImmortal_eq hclass).trans hmark)

namespace Orchard

/-- How many apples there are, on the ground of the core classes. -/
def counted : Holding := ((Act.number 3).perform { world := ground }).state

/-- Whether they are ripe is known as well. -/
def known : Holding := ((Act.truth true).perform counted).state

/-- The number is held twice. -/
def told : Holding := ((Act.retain (.allocated 0)).perform known).state

/-- The number is held once again. -/
def kept : Holding := ((Act.release (.allocated 0)).perform told).state

/-- Nobody holds the number any more. -/
def forgotten : Holding := ((Act.release (.allocated 0)).perform kept).state

theorem run_ground : Run (Ledger.withParcel [] {} Core.parcel) { world := ground } [] := by
  have hcore : (World.bootstrap Core.parcel).Gives {} 1 ground := ⟨by decide +kernel, rfl⟩
  exact .bootstrap .start hcore nofun (by decide) (by decide) (by decide) fun _ _ _ => rfl

theorem run_told : ∃ L t, Run L told t := by
  obtain ⟨hslot, hobj, hbelow⟩ : ground.slots .integer = some 4 ∧ ground.slots .obj = some 0 ∧
      ground.isSubclassOf 4 0 = true := by decide +kernel
  have hrooted : ∀ c, ground.slots .integer = some c → ground.Rooted c := by
    intro c hc
    obtain rfl := Option.some.inj (hslot.symm.trans hc)
    exact ⟨0, hobj, hbelow⟩
  have hcounted : Run _ counted _ := run_ground.act (a := .number 3) hrooted
  have hknown : Run _ known _ := hcounted.act (a := .truth true) trivial
  have hheld : ObjRef.allocated 0 ∈ known.handles := by decide +kernel
  exact ⟨_, _, hknown.act (a := .retain (.allocated 0)) hheld⟩

theorem mortal_number : ∀ s ∈ [told, kept, forgotten],
    s.world.objects[0]?.map Instance.cls = some 4 ∧ (s.world.get 4).flags.special = false := by
  decide +kernel

/-- A number that is held twice is released twice.  The first release leaves one handle, and with
the second one the number is destroyed.  The truth values stay. -/
theorem count_eq_handles_told :
    told.world.count (.allocated 0) = 2 ∧
      ((Act.release (.allocated 0)).perform told).answer = .ok (some 1) ∧
      ((Act.release (.allocated 0)).perform kept).events = [.objectDestroyed "Clownfish::Integer"] ∧
      ∃ L t, Run L forgotten t ∧ deaths (.allocated 0) t = 1 ∧ deaths (.allocated 2) t = 0 ∧
        forgotten.world.count (.allocated 2) = 1 := by
  obtain ⟨L, t, htold⟩ := run_told
  obtain ⟨hheld, htwo, hheld', hone, hnone⟩ : ObjRef.allocated 0 ∈ told.handles ∧
      told.outstanding.count (.allocated 0) = 2 ∧ ObjRef.allocated 0 ∈ kept.handles ∧
      kept.outstanding.count (.allocated 0) = 1 ∧
      forgotten.outstanding.count (.allocated 0) = 0 := by decide +kernel
  have hkept : Run L kept _ := htold.act (a := .release (.allocated 0)) hheld
  have hforgotten : Run L forgotten _ := hkept.act (a := .release (.allocated 0)) hheld'
  obtain ⟨-, -, hcount, hshared, -⟩ := htold.count_eq_handles
  obtain ⟨-, -, -, hlast, -⟩ := hkept.count_eq_handles
  obtain ⟨-, -, hdeaths, -, -, -, himmortal⟩ := hforgotten.count_eq_handles
  have hnumber : ∀ s ∈ [told, kept, forgotten], ∃ x, s.world.objects[0]? = some x ∧
      (s.world.get x.cls).flags.special = false := by
    intro s hs
    obtain ⟨hcls, hspecial⟩ := mortal_number s hs
    obtain ⟨x, hx, hfour⟩ := Option.map_eq_some_iff.1 hcls
    exact ⟨x, hx, hfour.symm ▸ hspecial⟩
  refine ⟨?_, ?_, ?_, L, _, hforgotten, ?_, ?_⟩
  · obtain ⟨x, hx, hmortal⟩ := hnumber told (by simp)
    rw [count_allocated hx, (hcount 0 x hx hmortal).1, htwo]
  · obtain ⟨x, hx, hmortal⟩ := hnumber told (by simp)
    obtain ⟨hanswer, -⟩ := (hshared 0 hheld ((isImmortal_allocated hx).trans hmortal)).1
      (by rw [htwo]; decide)
    rw [hanswer, htwo]
  · obtain ⟨x, hx, hmortal⟩ := hnumber kept (by simp)
    obtain ⟨code, hcode, -, hevents⟩ :=
      (hlast 0 hheld' ((isImmortal_allocated hx).trans hmortal)).2 hone
    obtain ⟨hfree, hname⟩ : kept.world.resolve (kept.world.classOf (.allocated 0))
        CoreMethod.objDestroy = .ok .objDestroy ∧
        kept.world.classNameOf (.allocated 0) = "Clownfish::Integer" := by decide +kernel
    obtain rfl := Except.ok.inj (hcode.symm.trans hfree)
    have hquiet : ∀ n, (runDestroy n .objDestroy (.allocated 0) (kept.world.uncounted 0)).events =
        [] := fun n => by cases n <;> rfl
    rw [hevents, hname, hquiet]
  · obtain ⟨x, hx, hmortal⟩ := hnumber forgotten (by simp)
    rw [(hdeaths 0 x hx hmortal).2.2, hnone]
    rfl
  · obtain ⟨hclass, hslot⟩ : forgotten.world.classOf? (.allocated 2) = some 3 ∧
        forgotten.world.slots .boolean = some 3 := by decide +kernel
    obtain ⟨hcounted, hnever, -⟩ := himmortal (.allocated 2) .boolean 3 hclass hslot rfl
    exact ⟨hnever, hcounted⟩

end Orchard

end ObjectSystem
