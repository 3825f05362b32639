import ObjectSystem.Core
import ObjectSystem.Proofs.Class.Dispatch
import ObjectSystem.Proofs.Object.Handles

/-! # Counting handles

The count of an object is the number of the handles on it, if the object is mortal.  This is an
invariant of every act (`Tallied.perform`): what getting, doubling and giving up handles does to one
object it does to its handles as well, and to no other object anything at all.  What an act came to
is said by `Effect`, which tells how many objects were destroyed as well.

A handle is given up only by those who hold it (`Act.Allowed`). -/

namespace ObjectSystem

open World

/-- A class has Destroy, from an ancestor that names it. -/
def Ledger.Destroys (L : Ledger) (c : ClassId) : Prop :=
  ∃ r ∈ L.lineage c, CoreMethod.objDestroy ∈ (L.entry r).own

theorem Ledger.Destroys.of_suffix {L L' : Ledger} {c : ClassId} (h : L.Destroys c) (hL : L <:+ L') :
    L'.Destroys c := by
  obtain ⟨r, hr, hmem⟩ := h
  obtain ⟨hrlt, hclt⟩ := lt_of_mem_lineage hr
  refine ⟨r, ?_, ?_⟩
  · rwa [lineage_of_suffix hL hclt]
  · rwa [entry_of_suffix hL hrlt]

namespace World

variable {w w' : World}

/-- Nothing is changed but objects, and maybe what is not about classes at all. -/
structure SameClasses (w w' : World) : Prop where
  classes : w'.classes = w.classes
  slots : w'.slots = w.slots
  offsets : w'.offsets = w.offsets
  registry : w'.registry = w.registry

theorem SameClasses.get (h : SameClasses w w') (c : ClassId) : w'.get c = w.get c := by
  unfold World.get
  rw [h.classes]

theorem SameClasses.alike (h : SameClasses w w') (hn : NamesInside w) : Alike w w' := by
  refine ⟨congrArg List.length h.classes, fun c => ?_, fun c => ?_, fun c => ?_, fun c => ?_,
    fun c => ?_, h.slots, h.offsets, fun r hr b hb => ?_⟩
  · rw [h.get]
  · rw [h.get]
  · rw [h.get]
  · rw [h.get]
  · rw [h.get]
  · rw [h.registry] at hr
    rw [h.classes]
    exact hn r hr b hb

end World

/-! ### What is kept -/

/-- The count of a mortal object is the number of handles on it, and the count of an immortal one
is that of its making.  The memory of an object with handles was not given back. -/
structure Counted (L : Ledger) (s : Holding) (i : Nat) (x : Instance) : Prop where
  inside : x.cls < L.length
  immortal : (s.world.get x.cls).flags.special = true → x.count = 1
  destroys : (s.world.get x.cls).flags.special = false → L.Destroys x.cls
  mortal : (s.world.get x.cls).flags.special = false →
    x.count = s.outstanding.count (.allocated i)
  alive : (s.world.get x.cls).flags.special = false → 0 < x.count → x.freed = false

/-- A world in which all is well with classes and handles. -/
structure Tallied (L : Ledger) (s : Holding) : Prop where
  standing : Standing L s.world
  marked : s.world.Marked
  rooted : ∀ r : Nat, s.world.slots .obj = some r → CoreMethod.objDestroy ∈ (L.entry r).own
  truthful : s.world.Truthful
  present : ∀ o ∈ s.outstanding, s.world.Present o
  counted : ∀ (i : Nat) x, s.world.objects[i]? = some x → Counted L s i x

variable {L L' : Ledger} {s s' : Holding} {i : Nat} {x : Instance} {o : ObjRef} {w : World}

theorem Counted.congr (h : Counted L s i x)
    (hspecial : (s'.world.get x.cls).flags.special = (s.world.get x.cls).flags.special)
    (hcount : (s.world.get x.cls).flags.special = false →
      s'.outstanding.count (.allocated i) = s.outstanding.count (.allocated i)) :
    Counted L s' i x where
  inside := h.inside
  immortal hs := h.immortal (hspecial ▸ hs)
  destroys hs := h.destroys (hspecial ▸ hs)
  mortal hs := (h.mortal (hspecial ▸ hs)).trans (hcount (hspecial ▸ hs)).symm
  alive hs := h.alive (hspecial ▸ hs)

theorem Tallied.of_same (h : Tallied L s) (hs : SameClasses s.world s'.world)
    (htruthful : s'.world.Truthful) (hpresent : ∀ o ∈ s'.outstanding, s'.world.Present o)
    (hcounted : ∀ (i : Nat) x, s'.world.objects[i]? = some x → Counted L s' i x) :
    Tallied L s' where
  standing := h.standing.alike (hs.alike h.standing.names)
  marked := h.marked.of_get hs.get hs.slots
  rooted r hr := h.rooted r (hs.slots ▸ hr)
  truthful := htruthful
  present := hpresent
  counted := hcounted

theorem isImmortal_allocated (hx : w.objects[i]? = some x) :
    w.isImmortal (.allocated i) = (w.get x.cls).flags.special :=
  isImmortal_eq (classOf?_allocated hx)

theorem count_allocated (hx : w.objects[i]? = some x) : w.count (.allocated i) = x.count :=
  congrArg (Option.getD · 0) (congrArg (Option.map Instance.count) hx)

/-- An object that is present and not immortal was allocated. -/
theorem Tallied.exists_instance (h : Tallied L s) (ho : s.world.Present o)
    (hmortal : s.world.isImmortal o = false) :
    ∃ i x, o = .allocated i ∧ s.world.objects[i]? = some x ∧
      (s.world.get x.cls).flags.special = false := by
  cases o with
  | allocated i =>
    have hx : s.world.objects[i]? = some s.world.objects[i] := List.getElem?_eq_getElem ho
    exact ⟨i, _, rfl, hx, isImmortal_allocated hx ▸ hmortal⟩
  | ofClass c =>
    obtain ⟨k, hk⟩ := Option.isSome_iff_exists.1 ho
    have hclass : s.world.classOf? (.ofClass c) = some k := hk
    rw [isImmortal_eq hclass, h.marked.special _ _ (h.marked.metaclass c k hk)] at hmortal
    cases hmortal
  | ofMethod c j =>
    obtain ⟨k, hk⟩ := Option.isSome_iff_exists.1 ho
    obtain ⟨m, hm, hmetaclass⟩ := Option.bind_eq_some_iff.1 hk
    have hclass : s.world.classOf? (.ofMethod c j) = some k := hk
    rw [isImmortal_eq hclass, h.marked.special _ _
      (h.marked.methodClass c m (List.mem_of_getElem? hm) k hmetaclass)] at hmortal
    cases hmortal

/-! ### One act -/

theorem Holding.count_hold (s : Holding) (o o' : ObjRef) :
    ({ s with handles := o :: s.handles } : Holding).outstanding.count o' =
      s.outstanding.count o' + if o = o' then 1 else 0 := by
  show (o :: s.outstanding).count o' = _
  rw [List.count_cons]
  by_cases h : o = o' <;> simp [h]

theorem Holding.count_letGo {s : Holding} {o : ObjRef} (ho : o ∈ s.handles) (o' : ObjRef) :
    ({ s with handles := s.handles.erase o } : Holding).outstanding.count o' =
      s.outstanding.count o' - if o = o' then 1 else 0 := by
  show (s.handles.erase o ++ s.raws).count o' = (s.handles ++ s.raws).count o' - _
  rw [List.count_append, List.count_append]
  by_cases h : o = o'
  · have := List.count_pos_iff.2 ho
    rw [if_pos h, ← h, List.count_erase_self]
    omega
  · rw [if_neg h, List.count_erase_of_ne fun heq => h heq.symm]
    rfl

theorem Tallied.not_held_of_length_le (h : Tallied L s) (hi : s.world.objects.length ≤ i) :
    s.outstanding.count (.allocated i) = 0 := by
  rw [List.count_eq_zero]
  intro hmem
  exact absurd (h.present _ hmem) (Nat.not_lt_of_le hi)

/-- A handle on an immortal object is got. -/
theorem Tallied.hold (h : Tallied L s) (ho : s.world.Present o)
    (himmortal : s.world.isImmortal o = true) :
    Tallied L { s with handles := o :: s.handles } := by
  refine h.of_same ⟨rfl, rfl, rfl, rfl⟩ h.truthful (fun o' ho' => ?_) fun i x hx => ?_
  · rcases List.mem_cons.1 ho' with rfl | ho'
    · exact ho
    · exact h.present o' ho'
  · refine (h.counted i x hx).congr rfl fun hmortal => ?_
    have hne : o ≠ .allocated i := by
      intro heq
      rw [heq, isImmortal_allocated hx, hmortal] at himmortal
      cases himmortal
    rw [Holding.count_hold, if_neg hne, Nat.add_zero]

theorem Tallied.letGo (h : Tallied L s) (ho : o ∈ s.handles)
    (himmortal : s.world.isImmortal o = true) :
    Tallied L { s with handles := s.handles.erase o } := by
  refine h.of_same ⟨rfl, rfl, rfl, rfl⟩ h.truthful (fun o' ho' => ?_) fun i x hx => ?_
  · refine h.present o' ?_
    rcases List.mem_append.1 ho' with ho' | ho'
    · exact List.mem_append_left _ (List.mem_of_mem_erase ho')
    · exact List.mem_append_right _ ho'
  · refine (h.counted i x hx).congr rfl fun hmortal => ?_
    have hne : o ≠ .allocated i := by
      intro heq
      rw [heq, isImmortal_allocated hx, hmortal] at himmortal
      cases himmortal
    rw [Holding.count_letGo ho, if_neg hne, Nat.sub_zero]

theorem Tallied.of_perm (h : Tallied L s) {handles raws : List ObjRef}
    (hperm : (handles ++ raws).Perm s.outstanding) :
    Tallied L { s with handles := handles, raws := raws } := by
  refine h.of_same ⟨rfl, rfl, rfl, rfl⟩ h.truthful (fun o ho => h.present o (hperm.mem_iff.1 ho))
    fun i x hx => ?_
  exact (h.counted i x hx).congr rfl fun _ => hperm.count_eq _

/-- New objects come behind the others, which stay as they are. -/
theorem Tallied.append (h : Tallied L s) (new : List Instance) (truths : Option (Nat × Nat))
    (o : ObjRef) (ho : ∃ j < new.length, o = .allocated (s.world.objects.length + j))
    (htruths : World.Truthful { s.world with objects := s.world.objects ++ new, truths := truths })
    (hnew : ∀ (j : Nat) y, new[j]? = some y →
      Counted L { s with
        world := { s.world with objects := s.world.objects ++ new, truths := truths }
        handles := o :: s.handles } (s.world.objects.length + j) y) :
    Tallied L { s with
      world := { s.world with objects := s.world.objects ++ new, truths := truths }
      handles := o :: s.handles } := by
  obtain ⟨j, hj, rfl⟩ := ho
  refine h.of_same ⟨rfl, rfl, rfl, rfl⟩ htruths (fun o' ho' => ?_) fun i x hx => ?_
  · rcases List.mem_cons.1 ho' with rfl | ho'
    · show _ < (s.world.objects ++ new).length
      rw [List.length_append]
      omega
    · have hpresent := h.present o' ho'
      cases o' with
      | allocated k =>
        show k < (s.world.objects ++ new).length
        rw [List.length_append]
        exact Nat.lt_add_right _ hpresent
      | ofClass c => exact hpresent
      | ofMethod c k => exact hpresent
  · replace hx : (s.world.objects ++ new)[i]? = some x := hx
    by_cases hi : i < s.world.objects.length
    · rw [List.getElem?_append_left hi] at hx
      refine (h.counted i x hx).congr rfl fun _ => ?_
      have hne : ObjRef.allocated (s.world.objects.length + j) ≠ .allocated i := by
        intro heq
        have := ObjRef.allocated.inj heq
        omega
      exact (Holding.count_hold s _ _).trans (by rw [if_neg hne, Nat.add_zero])
    · rw [List.getElem?_append_right (Nat.le_of_not_lt hi)] at hx
      have hcounted := hnew _ x hx
      rwa [Nat.add_sub_cancel' (Nat.le_of_not_lt hi)] at hcounted

theorem Holding.inWorld_apply {α : Type} (x : Step World α) (s : Holding) :
    inWorld x s = (x s.world).mapState fun w => { s with world := w } := rfl

theorem Holding.take_ok {x : Step World ObjRef} {es : List Event}
    (h : x s.world = ⟨w, .ok o, es⟩) :
    take x s = ⟨{ s with world := w, handles := o :: s.handles }, .ok none, es⟩ := by
  unfold take
  rw [Step.bind_apply, inWorld_apply, h]
  show (⟨_, _, es ++ []⟩ : Outcome Holding (Option Nat)) = _
  rw [List.append_nil]
  rfl

theorem Holding.take_stop {x : Step World ObjRef} {stop : Stop} {es : List Event}
    (h : x s.world = ⟨w, .error stop, es⟩) :
    take x s = ⟨{ s with world := w }, .error stop, es⟩ := by
  unfold take
  rw [Step.bind_apply, inWorld_apply, h]
  rfl

theorem Holding.giveUp_eq (s : Holding) (o : ObjRef) :
    giveUp o s = ⟨{ s with world := (World.release o s.world).state, handles := s.handles.erase o },
      (World.release o s.world).answer, (World.release o s.world).events⟩ := rfl

/-- What an act came to, if it destroyed `ends` objects: no more than its target, and only if that
has no handles any more. -/
structure Effect (s : Holding) (target : Option ObjRef) (ends : Nat)
    (out : Outcome Holding (Option Nat)) : Prop where
  ends_eq : out.events.countP Event.isEnd = ends
  immortal : (∀ o, target = some o → s.world.isImmortal o = true) → ends = 0
  same : SameClasses s.world out.state.world
  old : ∀ (i : Nat) x, s.world.objects[i]? = some x →
    ∃ x', out.state.world.objects[i]? = some x' ∧ x'.cls = x.cls ∧
      (target ≠ some (.allocated i) → x'.count = x.count) ∧
      (if x'.count = 0 then 1 else 0) =
        (if x.count = 0 then 1 else 0) + if target = some (.allocated i) then ends else 0
  new : ∀ (i : Nat) x', out.state.world.objects[i]? = some x' → s.world.objects.length ≤ i →
    x'.count ≠ 0

theorem Effect.idle {out : Outcome Holding (Option Nat)} (target : Option ObjRef)
    (hworld : out.state.world = s.world) (hevents : ∀ e ∈ out.events, e.isEnd = false) :
    Effect s target 0 out where
  ends_eq := List.countP_eq_zero.2 fun e he => by simp [hevents e he]
  immortal _ := rfl
  same := hworld ▸ ⟨rfl, rfl, rfl, rfl⟩
  old i x hx := ⟨x, hworld ▸ hx, rfl, fun _ => rfl, by rw [ite_self, Nat.add_zero]⟩
  new i x' hx' hi := by
    rw [hworld, List.getElem?_eq_none hi] at hx'
    cases hx'

/-- An act that does nothing but to make objects. -/
theorem Effect.append {new : List Instance} {truths : Option (Nat × Nat)} {handles : List ObjRef}
    {answer : Except Stop (Option Nat)} (target : Option ObjRef)
    (hnew : ∀ y ∈ new, y.count = 1) :
    Effect s target 0 ⟨{ s with
      world := { s.world with objects := s.world.objects ++ new, truths := truths }
      handles := handles }, answer, []⟩ where
  ends_eq := rfl
  immortal _ := rfl
  same := ⟨rfl, rfl, rfl, rfl⟩
  old i x hx := by
    refine ⟨x, ?_, rfl, fun _ => rfl, by rw [ite_self, Nat.add_zero]⟩
    exact (List.getElem?_append_left (List.getElem?_eq_some_iff.1 hx).1).trans hx
  new i x' hx' hi := by
    replace hx' : (s.world.objects ++ new)[i]? = some x' := hx'
    rw [List.getElem?_append_right hi] at hx'
    rw [hnew x' (List.mem_of_getElem? hx')]
    exact Nat.one_ne_zero

theorem Tallied.destroys (h : Tallied L s) {c : Nat} (hc : s.world.Rooted c) :
    c < L.length ∧ L.Destroys c := by
  obtain ⟨r, hr, hsub⟩ := hc
  have hlength := h.standing.length_eq
  have hrlt := h.standing.slots _ r hr
  have hclt := lt_of_isSubclassOf hrlt hsub
  rw [hlength] at hclt
  refine ⟨hclt, r, ?_, h.rooted r hr⟩
  rw [← h.standing.sound.ancestors_eq hclt]
  exact (isSubclassOf_iff s.world c r).1 hsub

/-- Getting a handle. -/
theorem Tallied.take (h : Tallied L s) {x : Step World ObjRef} (hx : Acquires s.world (x s.world))
    (target : Option ObjRef) :
    Tallied L (Holding.take x s).state ∧ Effect s target 0 (Holding.take x s) := by
  cases hout : x s.world with
  | mk w answer es =>
    rw [hout] at hx
    cases hx with
    | refused f =>
      rw [Holding.take_stop hout]
      exact ⟨h, .idle target rfl fun e he => List.mem_singleton.1 he ▸ rfl⟩
    | known o present immortal =>
      rw [Holding.take_ok hout]
      exact ⟨h.hold present immortal, .idle target rfl fun e he => by cases he⟩
    | fresh y rooted count freed =>
      obtain ⟨hinside, hdestroys⟩ := h.destroys rooted
      rw [Holding.take_ok hout]
      refine ⟨?_, .append target fun z hz => List.mem_singleton.1 hz ▸ count⟩
      refine h.append [y] _ _ ⟨0, Nat.one_pos, rfl⟩ ?_ ?_
      · intro no yes htruths k hk
        obtain ⟨z, hz, hslot⟩ := h.truthful no yes htruths k hk
        exact ⟨z, (List.getElem?_append_left (List.getElem?_eq_some_iff.1 hz).1).trans hz, hslot⟩
      · intro j z hz
        cases j with
        | succ j => simp at hz
        | zero =>
          obtain rfl := Option.some.inj hz
          refine ⟨hinside, fun _ => count, fun _ => hdestroys, fun _ => ?_, fun _ _ => freed⟩
          refine count.trans ?_
          rw [Nat.add_zero]
          refine ((Holding.count_hold s _ _).trans ?_).symm
          rw [if_pos rfl, h.not_held_of_length_le (Nat.le_refl _)]
    | truths y z b first second counts =>
      rw [Holding.take_ok hout]
      have hspecial : ∀ c, s.world.slots .boolean = some c → (s.world.get c).flags.special = true :=
        fun c hc => h.marked.special _ c hc
      have hinside : ∀ c : Nat, s.world.slots .boolean = some c → c < L.length := fun c hc =>
        h.standing.length_eq ▸ h.standing.slots _ c hc
      have hcounted : ∀ v : Instance, s.world.slots .boolean = some v.cls → v.count = 1 →
          ∀ (s' : Holding) i, (∀ c, s'.world.get c = s.world.get c) → Counted L s' i v := by
        intro v hv hcount s' i hget
        have hmarked : (s'.world.get v.cls).flags.special = true := by
          rw [hget]
          exact hspecial _ hv
        exact ⟨hinside _ hv, fun _ => hcount, fun hf => absurd (hmarked.symm.trans hf) (by simp),
          fun hf => absurd (hmarked.symm.trans hf) (by simp),
          fun hf => absurd (hmarked.symm.trans hf) (by simp)⟩
      refine ⟨?_, .append target fun v hv => ?_⟩
      · refine h.append [y, z] _ _ ?_ ?_ ?_
        · cases b with
          | false => exact ⟨0, by simp, rfl⟩
          | true => exact ⟨1, by simp, rfl⟩
        · intro no yes htruths k hk
          obtain ⟨rfl, rfl⟩ := Prod.mk.inj (Option.some.inj htruths)
          rcases List.mem_cons.1 hk with rfl | hk
          · exact ⟨y, by simp, first⟩
          · obtain rfl := List.mem_singleton.1 hk
            exact ⟨z, by simp, second⟩
        · intro j v hv
          match j, hv with
          | 0, hv =>
            obtain rfl := Option.some.inj hv
            exact hcounted _ first counts.1 _ _ fun _ => rfl
          | 1, hv =>
            obtain rfl := Option.some.inj hv
            exact hcounted _ second counts.2 _ _ fun _ => rfl
      · rcases List.mem_cons.1 hv with rfl | hv
        · exact counts.1
        · exact List.mem_singleton.1 hv ▸ counts.2

/-- One object has another count now, and maybe its memory was given back.  Nothing else about
objects is changed. -/
structure World.Recounts (i n : Nat) (w w' : World) : Prop where
  same : SameClasses w w'
  truths : w'.truths = w.truths
  cls : ∀ j : Nat, (w'.objects[j]?).map Instance.cls = (w.objects[j]?).map Instance.cls
  count : ∀ j : Nat, j ≠ i →
    (w'.objects[j]?).map Instance.count = (w.objects[j]?).map Instance.count
  freed : ∀ j : Nat, j ≠ i →
    (w'.objects[j]?).map Instance.freed = (w.objects[j]?).map Instance.freed
  self : ∀ x x', w.objects[i]? = some x → w'.objects[i]? = some x' →
    x'.count = n ∧ (0 < n → x'.freed = x.freed)

theorem World.Recounts.modify (f : Nat → Nat) (hx : w.objects[i]? = some x) :
    Recounts i (f x.count) w
      { w with objects := w.objects.modify i fun x => { x with count := f x.count } } := by
  have hget : ∀ j : Nat, (w.objects.modify i fun x => { x with count := f x.count })[j]? =
      (w.objects[j]?).map fun y => if i = j then { y with count := f y.count } else y :=
    fun j => List.getElem?_modify _ _ _ _
  refine ⟨⟨rfl, rfl, rfl, rfl⟩, rfl, fun j => ?_, fun j hj => ?_, fun j hj => ?_,
    fun y y' hy hy' => ?_⟩
  · refine (congrArg (Option.map Instance.cls) (hget j)).trans ?_
    rw [Option.map_map]
    refine congrArg (Option.map · _) (funext fun y => ?_)
    by_cases hij : i = j <;> simp [hij]
  · refine (congrArg (Option.map Instance.count) (hget j)).trans ?_
    simp [Ne.symm hj]
  · refine (congrArg (Option.map Instance.freed) (hget j)).trans ?_
    simp [Ne.symm hj]
  · rw [hget i, hy] at hy'
    obtain rfl : x = y := Option.some.inj (hx.symm.trans hy)
    obtain rfl := Option.some.inj hy'
    simp

theorem World.Recounts.length_eq {n : Nat} {w' : World} (h : Recounts i n w w') (j : Nat) :
    j < w'.objects.length ↔ j < w.objects.length := by
  have hcls := congrArg Option.isSome (h.cls j)
  rw [Option.isSome_map, Option.isSome_map, Bool.eq_iff_iff] at hcls
  simpa using hcls

theorem World.Recounts.exists_old {n : Nat} {w' : World} {j : Nat} {y' : Instance}
    (h : Recounts i n w w') (hy' : w'.objects[j]? = some y') :
    ∃ y, w.objects[j]? = some y ∧ y'.cls = y.cls ∧
      (j ≠ i → y'.count = y.count ∧ y'.freed = y.freed) := by
  have hlt := (h.length_eq j).1 (List.getElem?_eq_some_iff.1 hy').1
  have hy := List.getElem?_eq_getElem hlt
  have hcls := h.cls j
  rw [hy, hy'] at hcls
  refine ⟨_, hy, Option.some.inj hcls, fun hj => ?_⟩
  have hcount := h.count j hj
  have hfreed := h.freed j hj
  rw [hy, hy'] at hcount hfreed
  exact ⟨Option.some.inj hcount, Option.some.inj hfreed⟩

/-- An object gets another count, and it is the number of the handles on it. -/
theorem Tallied.recount {n : Nat} (h : Tallied L s) (hr : Recounts i n s.world s'.world)
    (hx : s.world.objects[i]? = some x) (hmortal : (s.world.get x.cls).flags.special = false)
    (hself : s'.outstanding.count (.allocated i) = n) (hlive : 0 < x.count)
    (hother : ∀ j, j ≠ i →
      s'.outstanding.count (.allocated j) = s.outstanding.count (.allocated j))
    (hmem : ∀ o ∈ s'.outstanding, o ∈ s.outstanding) : Tallied L s' := by
  refine h.of_same hr.same ?_ (fun o ho => ?_) fun j y' hy' => ?_
  · intro no yes htruths k hk
    obtain ⟨y, hy, hslot⟩ := h.truthful no yes (hr.truths ▸ htruths) k hk
    have hlt := (hr.length_eq k).2 (List.getElem?_eq_some_iff.1 hy).1
    refine ⟨_, List.getElem?_eq_getElem hlt, ?_⟩
    obtain ⟨z, hz, hcls, -⟩ := hr.exists_old (List.getElem?_eq_getElem hlt)
    obtain rfl : y = z := Option.some.inj (hy.symm.trans hz)
    rw [hcls, hr.same.slots]
    exact hslot
  · have hpresent := h.present o (hmem o ho)
    cases o with
    | allocated k => exact (hr.length_eq k).2 hpresent
    | ofClass c =>
      show (s'.world.get c).metaclass.isSome
      rw [hr.same.get]
      exact hpresent
    | ofMethod c k =>
      show ((s'.world.get c).methods[k]?.bind (·.metaclass)).isSome
      rw [hr.same.get]
      exact hpresent
  · obtain ⟨y, hy, hcls, hfields⟩ := hr.exists_old hy'
    have hcounted := h.counted j y hy
    have hspecial : (s'.world.get y'.cls).flags.special = (s.world.get y.cls).flags.special := by
      rw [hcls, hr.same.get]
    by_cases hj : j = i
    · subst hj
      obtain rfl : x = y := Option.some.inj (hx.symm.trans hy)
      obtain ⟨hcount, hfreed⟩ := hr.self x y' hx hy'
      refine ⟨hcls ▸ hcounted.inside, fun hs => ?_, fun _ => hcls ▸ hcounted.destroys hmortal,
        fun _ => hcount.trans hself.symm, fun _ hpos => ?_⟩
      · exact absurd ((hspecial.symm.trans hs).symm.trans hmortal) (by simp)
      · exact (hfreed (hcount ▸ hpos)).trans (hcounted.alive hmortal hlive)
    · obtain ⟨hcount, hfreed⟩ := hfields hj
      exact ⟨hcls ▸ hcounted.inside, fun hs => hcount.trans (hcounted.immortal (hspecial ▸ hs)),
        fun hs => hcls ▸ hcounted.destroys (hspecial ▸ hs),
        fun hs => (hcount.trans (hcounted.mortal (hspecial ▸ hs))).trans (hother j hj).symm,
        fun hs hpos => hfreed.trans (hcounted.alive (hspecial ▸ hs) (hcount ▸ hpos))⟩

/-- The object that gets another count is destroyed if that is 0. -/
theorem Effect.recount {n ends : Nat} {out : Outcome Holding (Option Nat)}
    (hr : Recounts i n s.world out.state.world) (hx : s.world.objects[i]? = some x)
    (hmortal : (s.world.get x.cls).flags.special = false) (hlive : 0 < x.count)
    (hends : ends = if n = 0 then 1 else 0) (hevents : out.events.countP Event.isEnd = ends) :
    Effect s (some (.allocated i)) ends out where
  ends_eq := hevents
  immortal htarget := by
    have hs := htarget _ rfl
    rw [isImmortal_allocated hx, hmortal] at hs
    cases hs
  same := hr.same
  old j y hy := by
    have hlt := (hr.length_eq j).2 (List.getElem?_eq_some_iff.1 hy).1
    have hy' := List.getElem?_eq_getElem hlt
    obtain ⟨z, hz, hcls, hfields⟩ := hr.exists_old hy'
    obtain rfl : y = z := Option.some.inj (hy.symm.trans hz)
    refine ⟨_, hy', hcls, fun hne => (hfields fun hj => hne (hj ▸ rfl)).1, ?_⟩
    by_cases hj : j = i
    · subst hj
      obtain rfl : x = y := Option.some.inj (hx.symm.trans hy)
      rw [(hr.self x _ hx hy').1, if_neg (Nat.ne_of_gt hlive), if_pos rfl, Nat.zero_add, hends]
    · rw [(hfields hj).1, if_neg fun heq => hj (ObjRef.allocated.inj (Option.some.inj heq)).symm]
      rfl
  new j y' hy' hj := by
    obtain ⟨y, hy, -⟩ := hr.exists_old hy'
    rw [List.getElem?_eq_none hj] at hy
    cases hy

/-- Doubling a handle. -/
theorem Tallied.retain (h : Tallied L s) (ho : o ∈ s.handles) :
    Tallied L ((Act.retain o).perform s).state ∧
      Effect s (some o) 0 ((Act.retain o).perform s) := by
  have hheld := List.mem_append_left s.raws ho
  have hpresent := h.present o hheld
  cases himmortal : s.world.isImmortal o with
  | true =>
    refine h.take ?_ (some o)
    rw [Step.bind_of_ok _ (retain_immortal himmortal)]
    exact .known o hpresent himmortal
  | false =>
    obtain ⟨i, x, rfl, hx, hmortal⟩ := h.exists_instance hpresent himmortal
    have hout : Act.perform (.retain (.allocated i)) s = _ :=
      Holding.take_ok (Step.bind_of_ok _ (retain_mortal himmortal))
    have hcount := (h.counted i x hx).mortal hmortal
    have hlive : 0 < x.count := hcount ▸ List.count_pos_iff.2 hheld
    have hr := Recounts.modify (· + 1) hx
    rw [hout]
    refine ⟨h.recount hr hx hmortal ?_ hlive (fun j hj => ?_) fun o' ho' => ?_,
      .recount hr hx hmortal hlive (if_neg (Nat.succ_ne_zero _)).symm rfl⟩
    · refine (Holding.count_hold s _ _).trans ?_
      rw [if_pos rfl, ← hcount]
    · refine (Holding.count_hold s _ _).trans ?_
      rw [if_neg fun heq => hj (ObjRef.allocated.inj heq).symm, Nat.add_zero]
    · rcases List.mem_cons.1 ho' with rfl | ho'
      · exact hheld
      · exact ho'

/-- What an object is after its end has nothing to do with its count. -/
theorem World.Recounts.survives {w' w'' : World} (h : Recounts i 0 w w')
    (hs : Survives (.allocated i) w' w'') : Recounts i 0 w w'' := by
  have hcls : ∀ j : Nat,
      (w''.objects[j]?).map Instance.cls = (w'.objects[j]?).map Instance.cls := by
    intro j
    have hfst := congrArg (Option.map Prod.fst) (hs.counts j)
    rw [Option.map_map, Option.map_map] at hfst
    exact hfst
  have hcount : ∀ j : Nat,
      (w''.objects[j]?).map Instance.count = (w'.objects[j]?).map Instance.count := by
    intro j
    have hsnd := congrArg (Option.map Prod.snd) (hs.counts j)
    rw [Option.map_map, Option.map_map] at hsnd
    exact hsnd
  refine ⟨⟨hs.classes.trans h.same.classes, hs.slots.trans h.same.slots,
    hs.offsets.trans h.same.offsets, hs.registry.trans h.same.registry⟩, hs.truths.trans h.truths,
    fun j => (hcls j).trans (h.cls j), fun j hj => (hcount j).trans (h.count j hj),
    fun j hj => ?_, fun y y'' hy hy'' => ⟨?_, fun hpos => absurd hpos (Nat.lt_irrefl 0)⟩⟩
  · exact (hs.freed j fun heq => hj (ObjRef.allocated.inj heq).symm).trans (h.freed j hj)
  · have hc := hcount i
    rw [hy''] at hc
    obtain ⟨y', hy', heq⟩ := Option.map_eq_some_iff.1 hc.symm
    exact heq.symm.trans (h.self y y' hy hy').1

/-- Giving up a handle on a mortal object: if it is not the last one, it is only counted; with the
last one the Destroy function of the class is run. -/
theorem Tallied.release_eq (h : Tallied L s) (ho : .allocated i ∈ s.handles)
    (hmortal : s.world.isImmortal (.allocated i) = false) :
    (s.outstanding.count (.allocated i) - 1 ≠ 0 ∧
      World.release (.allocated i) s.world =
        ⟨s.world.uncounted i, .ok (s.outstanding.count (.allocated i) - 1), []⟩) ∨
    (s.outstanding.count (.allocated i) - 1 = 0 ∧
      ∃ code, s.world.resolve (s.world.classOf (.allocated i)) CoreMethod.objDestroy = .ok code ∧
        World.release (.allocated i) s.world =
          ⟨(runDestroy s.world.classes.length code (.allocated i) (s.world.uncounted i)).state,
            (runDestroy s.world.classes.length code (.allocated i)
              (s.world.uncounted i)).answer.map fun _ => 0,
            .objectDestroyed (s.world.classNameOf (.allocated i)) ::
              (runDestroy s.world.classes.length code (.allocated i)
                (s.world.uncounted i)).events⟩) := by
  have hheld := List.mem_append_left s.raws ho
  have hlt : i < s.world.objects.length := h.present _ hheld
  have hx : s.world.objects[i]? = some s.world.objects[i] := List.getElem?_eq_getElem hlt
  have hcounted := h.counted i _ hx
  rw [isImmortal_allocated hx] at hmortal
  have hcount : s.world.count (.allocated i) = s.outstanding.count (.allocated i) :=
    (count_allocated hx).trans (hcounted.mortal hmortal)
  have himmortal := (isImmortal_allocated hx).trans hmortal
  have hpos : 0 < s.outstanding.count (.allocated i) := List.count_pos_iff.2 hheld
  by_cases hlast : s.outstanding.count (.allocated i) = 1
  · obtain ⟨r, hr, hmem⟩ := hcounted.destroys hmortal
    obtain ⟨code, -, hcode⟩ := h.standing.sound.resolve_eq hmem hr
    have hclass : s.world.classOf (.allocated i) = s.world.objects[i].cls :=
      congrArg (Option.getD · 0) (classOf?_allocated hx)
    rw [← hclass] at hcode
    exact .inr ⟨by omega, code, hcode, release_last himmortal (hcount.trans hlast) hcode⟩
  · refine .inl ⟨by omega, ?_⟩
    rw [release_shared himmortal (by omega), hcount]

/-- What giving up a handle comes to, if `f` of the number of handles left is answered. -/
def Holding.gaveUp (s : Holding) (o : ObjRef) (f : Nat → Option Nat) :
    Outcome Holding (Option Nat) :=
  ⟨{ s with world := (World.release o s.world).state, handles := s.handles.erase o },
    (World.release o s.world).answer.map f, (World.release o s.world).events⟩

theorem Holding.gaveUp_eq (s : Holding) (o : ObjRef) (f : Nat → Option Nat) :
    (Holding.giveUp o >>= fun left => pure (f left)) s = s.gaveUp o f := by
  unfold Holding.gaveUp
  rw [Step.bind_apply, Holding.giveUp_eq]
  cases (World.release o s.world).answer with
  | error stop => rfl
  | ok left =>
    show (⟨_, .ok (f left), _ ++ []⟩ : Outcome Holding (Option Nat)) = _
    rw [List.append_nil]
    rfl

theorem Act.perform_release (o : ObjRef) (s : Holding) :
    (Act.release o).perform s = s.gaveUp o some := s.gaveUp_eq o some

theorem Act.perform_drop (o : ObjRef) (s : Holding) :
    (Act.drop o).perform s = s.gaveUp o fun _ => none := s.gaveUp_eq o fun _ => none

theorem Tallied.gaveUp (h : Tallied L s) (ho : o ∈ s.handles) (f : Nat → Option Nat) :
    Tallied L (s.gaveUp o f).state ∧ ∃ ends, Effect s (some o) ends (s.gaveUp o f) := by
  have hheld := List.mem_append_left s.raws ho
  have hpresent := h.present o hheld
  cases himmortal : s.world.isImmortal o with
  | true =>
    unfold Holding.gaveUp
    rw [release_immortal himmortal]
    exact ⟨h.letGo ho himmortal, 0, .idle _ rfl fun e he => by cases he⟩
  | false =>
    obtain ⟨i, x, rfl, hx, hmortal⟩ := h.exists_instance hpresent himmortal
    have hcount := (h.counted i x hx).mortal hmortal
    have hlive : 0 < x.count := hcount ▸ List.count_pos_iff.2 hheld
    have hself : ∀ w, ({ s with world := w, handles := s.handles.erase (.allocated i) } :
        Holding).outstanding.count (.allocated i) = x.count - 1 := by
      intro w
      refine (Holding.count_letGo ho (.allocated i)).trans ?_
      rw [if_pos rfl, ← hcount]
    have hother : ∀ w j, j ≠ i → ({ s with world := w, handles := s.handles.erase (.allocated i) } :
        Holding).outstanding.count (.allocated j) = s.outstanding.count (.allocated j) := by
      intro w j hj
      refine (Holding.count_letGo ho (.allocated j)).trans ?_
      rw [if_neg fun heq => hj (ObjRef.allocated.inj heq).symm, Nat.sub_zero]
    have hmem : ∀ w, ∀ o' ∈ ({ s with world := w, handles := s.handles.erase (.allocated i) } :
        Holding).outstanding, o' ∈ s.outstanding := by
      intro w o' ho'
      rcases List.mem_append.1 ho' with ho' | ho'
      · exact List.mem_append_left _ (List.mem_of_mem_erase ho')
      · exact List.mem_append_right _ ho'
    have hr : Recounts i (x.count - 1) s.world (s.world.uncounted i) := .modify (· - 1) hx
    unfold Holding.gaveUp
    rcases h.release_eq ho himmortal with ⟨hleft, hrelease⟩ | ⟨hleft, code, -, hrelease⟩
    · rw [hrelease]
      refine ⟨h.recount hr hx hmortal (hself _) hlive (hother _) (hmem _), 0,
        .recount hr hx hmortal hlive ?_ rfl⟩
      rw [if_neg (hcount ▸ hleft)]
    · rw [hrelease]
      rw [← hcount] at hleft
      rw [hleft] at hr
      obtain ⟨hsurvives, hquiet, -⟩ := runDestroy_keeps s.world.classes.length code (.allocated i)
        (s.world.uncounted i) (s.world.uncounted i) (.refl _ _)
      have hr' := hr.survives hsurvives
      have hnone := List.countP_eq_zero.2 fun e he =>
        Bool.eq_false_iff.1 (hquiet e he)
      exact ⟨h.recount hr' hx hmortal ((hself _).trans hleft) hlive (hother _) (hmem _), 1,
        .recount hr' hx hmortal hlive rfl
          ((List.countP_cons_of_pos rfl).trans (congrArg (· + 1) hnone))⟩

/-! ### Any act -/

/-- Objects are made of classes that have Destroy from the root class, and handles are used only as
long as they are held. -/
def Act.Allowed (s : Holding) : Act → Prop
  | .make c => s.world.Rooted c
  | .number _ => ∀ c, s.world.slots .integer = some c → s.world.Rooted c
  | .truth _ | .ofClass _ | .ofMethod _ => True
  | .retain o | .release o | .drop o | .intoRaw o => o ∈ s.handles
  | .fromRaw o => o ∈ s.raws

theorem Act.Allowed.held {a : Act} (h : a.Allowed s) (ho : a.target = some o) :
    o ∈ s.outstanding := by
  cases a <;> simp only [Act.target, reduceCtorEq, Option.some.injEq] at ho <;> subst ho
  case fromRaw => exact List.mem_append_right _ h
  all_goals exact List.mem_append_left _ h

/-- An allowed act keeps the counts right, whatever it comes to. -/
theorem Tallied.perform (h : Tallied L s) {a : Act} (ha : a.Allowed s) :
    Tallied L (a.perform s).state ∧ ∃ ends, Effect s a.target ends (a.perform s) := by
  have htake : ∀ {x : Step World ObjRef}, Acquires s.world (x s.world) →
      Tallied L (Holding.take x s).state ∧ ∃ ends, Effect s none ends (Holding.take x s) :=
    fun hx => ⟨(h.take hx none).1, 0, (h.take hx none).2⟩
  cases a with
  | make c => exact htake (makeInstance_acquires ha)
  | number n => exact htake (newInteger_acquires ha)
  | truth b => exact htake (truth_acquires b h.marked h.truthful)
  | ofClass c => exact htake (classObject_acquires h.marked c)
  | ofMethod m => exact htake (methodObject_acquires h.marked m)
  | retain o => exact ⟨(h.retain ha).1, 0, (h.retain ha).2⟩
  | release o => exact Act.perform_release o s ▸ h.gaveUp ha some
  | drop o => exact Act.perform_drop o s ▸ h.gaveUp ha fun _ => none
  | intoRaw o =>
    refine ⟨h.of_perm ?_, 0, .idle _ rfl fun e he => by cases he⟩
    exact List.perm_middle.trans ((List.perm_cons_erase ha).symm.append_right s.raws)
  | fromRaw o =>
    refine ⟨h.of_perm ?_, 0, .idle _ rfl fun e he => by cases he⟩
    exact List.perm_middle.symm.trans ((List.perm_cons_erase ha).symm.append_left s.handles)

end ObjectSystem
