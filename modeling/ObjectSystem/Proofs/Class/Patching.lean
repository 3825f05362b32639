import Mathlib.Data.List.Pairwise
import ObjectSystem.Proofs.Class.Programs
import ObjectSystem.Proofs.Class.Tiling

/-! # Methods that give way

A method gives way to a host that defines it if it has a callback and is not excluded
(`Method.givesWay`).  A class that is made for the host has the callbacks of these methods, each in
the slot that its method introduced, and in all other slots what its parent has (`Patched`).

In a world that is tiled no two methods of a chain have introduced the same slot, and there is a
slot for each.  So the callbacks do not come in each other's way, and none of them is out of place
(`Tiling.installs`).  What becomes of a name below a parent depends on nothing then but the name:
whether it is bound when the host has answered, and whether there is room for it
(`overrides_patch_slots`). -/

namespace ObjectSystem

open World

/-- The method has a callback, is not excluded, and is known to the host by one of these names. -/
def Method.givesWay (m : Method) (fresh : List String) : Bool :=
  m.callback.isSome && !m.excluded && fresh.contains m.hostName

namespace World

variable {w w' : World} {c i parent : Nat} {history : List ParcelSpec} {fresh : List String}

/-! ### Functions put into slots -/

/-- Functions that are put into different slots all stay there, and other slots are as they were. -/
theorem installAll_slots {d : Descriptor} {patches : List (Code × Nat)}
    (hslots : ∀ patch ∈ patches, ∃ i < d.vtable.length, patch.2 = slotOffset i)
    (hnodup : (patches.map Prod.snd).Nodup) :
    ∃ vtable : List (Option Code), installAll d patches = .ok { d with vtable := vtable } ∧
      vtable.length = d.vtable.length ∧
      (∀ (i : Nat) code, (code, slotOffset i) ∈ patches → vtable[i]? = some (some code)) ∧
      ∀ i : Nat, slotOffset i ∉ patches.map Prod.snd → vtable[i]? = d.vtable[i]? := by
  induction patches generalizing d with
  | nil => exact ⟨d.vtable, rfl, rfl, nofun, fun _ _ => rfl⟩
  | cons patch rest ih =>
    obtain ⟨code, offset⟩ := patch
    obtain ⟨⟨k, hk, rfl⟩, hslots⟩ := List.forall_mem_cons.1 hslots
    rw [List.map_cons, List.nodup_cons] at hnodup
    have hlength : (d.vtable.set k (some code)).length = d.vtable.length := List.length_set
    obtain ⟨vtable, hinstall, hlength', hplaced, hother⟩ := ih
      (d := { d with vtable := d.vtable.set k (some code) }) (by rwa [hlength]) hnodup.2
    refine ⟨vtable, ?_, hlength'.trans hlength, fun i code' hi => ?_, fun i hi => ?_⟩
    · have hfirst : d.install code (slotOffset k) =
          .ok { d with vtable := d.vtable.set k (some code) } := by
        unfold Descriptor.install
        rw [slotIndex?_slotOffset hk]
      unfold installAll
      rw [hfirst]
      exact hinstall
    · rcases List.mem_cons.1 hi with hi | hi
      · obtain ⟨rfl, hik⟩ := Prod.mk.inj hi
        obtain rfl := slotOffset_inj.1 hik
        rw [hother i hnodup.1]
        exact List.getElem?_set_self hk
      · exact hplaced i code' hi
    · rw [List.map_cons, List.mem_cons, not_or] at hi
      rw [hother i hi.2]
      exact List.getElem?_set_ne fun hki => hi.1 (congrArg slotOffset hki.symm)

theorem overridable_eq_filterMap (w : World) (parent : ClassId) (fresh : List String) :
    w.overridable parent fresh = ((w.methodsUp parent).filter (·.givesWay fresh)).filterMap
      fun m => m.callback.map (·, m.offset) := by
  unfold overridable methodsUp
  rw [List.filter_flatMap, List.filterMap_flatMap]
  refine List.flatMap_congr fun a _ => ?_
  rw [List.filterMap_filter]
  refine List.filterMap_congr fun m _ => ?_
  unfold Method.givesWay
  cases m.callback with
  | none => rfl
  | some code => cases m.excluded <;> cases fresh.contains m.hostName <;> rfl

theorem mem_overridable {patch : Code × Nat} :
    patch ∈ w.overridable parent fresh ↔ ∃ m ∈ w.methodsUp parent,
      m.givesWay fresh = true ∧ m.callback = some patch.1 ∧ m.offset = patch.2 := by
  rw [overridable_eq_filterMap, List.mem_filterMap]
  constructor
  · rintro ⟨m, hm, hpatch⟩
    obtain ⟨hm, hgives⟩ := List.mem_filter.1 hm
    obtain ⟨code, hcode, rfl⟩ := Option.map_eq_some_iff.1 hpatch
    exact ⟨m, hm, hgives, hcode, rfl⟩
  · rintro ⟨m, hm, hgives, hcode, hoffset⟩
    refine ⟨m, List.mem_filter.2 ⟨hm, hgives⟩, ?_⟩
    rw [hcode, hoffset]
    rfl

theorem overridable_offsets (w : World) (parent : ClassId) (fresh : List String) :
    (w.overridable parent fresh).map Prod.snd =
      ((w.methodsUp parent).filter (·.givesWay fresh)).map (·.offset) := by
  rw [overridable_eq_filterMap, List.map_filterMap, ← List.filterMap_eq_map]
  refine List.filterMap_congr fun m hm => ?_
  obtain ⟨-, hgives⟩ := List.mem_filter.1 hm
  unfold Method.givesWay at hgives
  cases hcode : m.callback with
  | none => simp [hcode] at hgives
  | some code => rfl

/-! ### Slots and methods -/

theorem place_unique {β γ : Type} {l : List β} {f : β → List γ} (h : (l.flatMap f).Nodup)
    {a a' : β} (ha : a ∈ l) (ha' : a' ∈ l) {j j' : Nat} {x : γ} (hj : (f a)[j]? = some x)
    (hj' : (f a')[j']? = some x) : a' = a ∧ j' = j := by
  obtain ⟨halone, htogether⟩ := List.nodup_flatMap.1 h
  obtain rfl : a' = a := by
    by_contra hne
    have : Std.Symm (Function.onFun List.Disjoint f) := ⟨fun _ _ hd _ hx hx' => hd hx' hx⟩
    exact htogether.forall ha' ha hne (List.mem_of_getElem? hj') (List.mem_of_getElem? hj)
  obtain ⟨hlt, hget⟩ := List.getElem?_eq_some_iff.1 hj
  obtain ⟨hlt', hget'⟩ := List.getElem?_eq_some_iff.1 hj'
  exact ⟨rfl, (halone a' ha').getElem_inj_iff.1 (hget'.trans hget.symm)⟩

/-- Every slot of a class was introduced by one method of a class on the way up, and no other. -/
theorem Tiling.introduced (h : Tiling history w) (hc : c < w.classes.length)
    (hi : i < (w.get c).vtable.length) :
    ∃ a ∈ w.ancestors c, ∃ j m, w.methodAt (a, j) = some m ∧ m.offset = slotOffset i ∧
      ∀ a' ∈ w.ancestors c, ∀ j' m', w.methodAt (a', j') = some m' → m'.offset = slotOffset i →
        a' = a ∧ j' = j := by
  have hperm := h.methodsUp_perm hc
  have hmem : slotOffset i ∈ (w.methodsUp c).map (·.offset) :=
    hperm.mem_iff.2 (List.mem_map_of_mem (List.mem_range.2 hi))
  obtain ⟨m, hm, hoffset⟩ := List.mem_map.1 hmem
  obtain ⟨a, ha, hm⟩ := List.mem_flatMap.1 hm
  obtain ⟨j, hj⟩ := List.mem_iff_getElem?.1 hm
  have hnodup : ((w.ancestors c).flatMap fun a => (w.get a).methods.map (·.offset)).Nodup := by
    rw [← List.map_flatMap]
    exact hperm.nodup_iff.2 (List.nodup_range.map fun _ _ => slotOffset_inj.1)
  have hplace : ∀ {a : ClassId} {j : Nat} {m : Method}, w.methodAt (a, j) = some m →
      m.offset = slotOffset i → ((w.get a).methods.map (·.offset))[j]? = some (slotOffset i) := by
    intro a j m hj hoffset
    rw [List.getElem?_map]
    exact (congrArg _ hj).trans (congrArg some hoffset)
  exact ⟨a, ha, j, m, hj, hoffset, fun a' ha' j' m' hj' hoffset' =>
    place_unique hnodup ha ha' (hplace hj hoffset) (hplace hj' hoffset')⟩

/-- Slots of a class that is made for a host that defines the methods `fresh`: every slot was
introduced by one method on the way up from the parent.  It has the callback of that method if the
method gives way, and otherwise what the parent has. -/
structure Patched (w : World) (parent : ClassId) (fresh : List String)
    (vtable : List (Option Code)) : Prop where
  length_eq : vtable.length = (w.get parent).vtable.length
  slot : ∀ i < vtable.length, ∃ a ∈ w.ancestors parent, ∃ j m,
    w.methodAt (a, j) = some m ∧ m.offset = slotOffset i ∧
    (∀ a' ∈ w.ancestors parent, ∀ j' m', w.methodAt (a', j') = some m' →
      m'.offset = slotOffset i → a' = a ∧ j' = j) ∧
    vtable[i]? = if m.givesWay fresh then some m.callback else (w.get parent).vtable[i]?

/-- The callbacks of methods that give way all have slots, each its own. -/
theorem Tiling.installs (h : Tiling history w) (hparent : parent < w.classes.length)
    (fresh : List String) {d : Descriptor} (hd : d.vtable = (w.get parent).vtable) :
    ∃ vtable, installAll d (w.overridable parent fresh) = .ok { d with vtable := vtable } ∧
      w.Patched parent fresh vtable := by
  have hperm := h.methodsUp_perm hparent
  have hslots : ∀ patch ∈ w.overridable parent fresh,
      ∃ i < d.vtable.length, patch.2 = slotOffset i := by
    intro patch hpatch
    obtain ⟨m, hm, -, -, hoffset⟩ := mem_overridable.1 hpatch
    obtain ⟨i, hi, hslot⟩ := List.mem_map.1 (hperm.mem_iff.1 (List.mem_map_of_mem hm))
    rw [hd]
    exact ⟨i, List.mem_range.1 hi, hoffset.symm.trans hslot.symm⟩
  have hnodup : ((w.overridable parent fresh).map Prod.snd).Nodup := by
    rw [overridable_offsets]
    refine (List.filter_sublist.map _).nodup (hperm.nodup_iff.2 ?_)
    exact List.nodup_range.map fun _ _ => slotOffset_inj.1
  obtain ⟨vtable, hinstall, hlength, hplaced, hother⟩ := installAll_slots hslots hnodup
  rw [hd] at hlength hother
  refine ⟨vtable, hinstall, hlength, fun i hi => ?_⟩
  obtain ⟨a, ha, j, m, hj, hoffset, hunique⟩ := h.introduced hparent (hlength ▸ hi)
  refine ⟨a, ha, j, m, hj, hoffset, hunique, ?_⟩
  have hm : m ∈ w.methodsUp parent := List.mem_flatMap.2 ⟨a, ha, List.mem_of_getElem? hj⟩
  split
  · next hgives =>
    obtain ⟨code, hcode⟩ : ∃ code, m.callback = some code := by
      unfold Method.givesWay at hgives
      simp only [Bool.and_eq_true, Option.isSome_iff_exists] at hgives
      exact hgives.1.1
    rw [hcode]
    exact hplaced i code (mem_overridable.2 ⟨m, hm, hgives, hcode, hoffset⟩)
  · next hkeeps =>
    refine hother i fun hmem => hkeeps ?_
    rw [overridable_offsets] at hmem
    obtain ⟨m', hm', hoffset'⟩ := List.mem_map.1 hmem
    obtain ⟨hm', hgives⟩ := List.mem_filter.1 hm'
    obtain ⟨a', ha', hmem'⟩ := List.mem_flatMap.1 hm'
    obtain ⟨j', hj'⟩ := List.mem_iff_getElem?.1 hmem'
    obtain ⟨rfl, rfl⟩ := hunique a' ha' j' m' hj' hoffset'
    obtain rfl : m' = m := Option.some.inj (hj'.symm.trans hj)
    exact hgives

theorem length_overridable (w : World) (parent : ClassId) (fresh : List String) :
    (w.overridable parent fresh).length =
      (w.methodsUp parent).countP (·.givesWay fresh) := by
  rw [List.countP_eq_length_filter, ← List.length_map (f := Prod.snd), overridable_offsets,
    List.length_map]

/-! ### Making the class -/

section Making

variable {host : Host} {name : String} {candidate d : Descriptor} {v w₁ : World}

/-- A class was made below a parent and is known by its name.  It is patched, and no other vtable is
changed. -/
structure Overridden (w : World) (name : String) (parent : ClassId) (fresh : List String)
    (w' : World) : Prop where
  later : Later w w'
  bound : w'.fetchClass name = some w.classes.length
  inside : w.classes.length < w'.classes.length
  below : (w'.get w.classes.length).parent = some parent
  patched : w.Patched parent fresh (w'.get w.classes.length).vtable
  others : ∀ c : Nat, c < w.classes.length → (w'.get c).vtable = (w.get c).vtable

theorem Overridden.lasts (h : w.Overridden name parent fresh v) (hlater : Later v w') :
    w.Overridden name parent fresh w' := by
  have hself := hlater.lasts _ h.inside
  have hlater' := h.later.trans hlater
  exact {
    later := hlater'
    bound := hlater.names _ _ h.bound
    inside := Nat.lt_of_lt_of_le h.inside hlater.length_le
    below := hself.parent.trans h.below
    patched := hself.vtable ▸ h.patched
    others := fun c hc => (hlater'.lasts c hc).vtable }

/-- How many names are bound. -/
def namesBound (w : World) : Nat := w.registry.elim 0 Registry.size

/-- The host is told of a class that was registered, and an event says how many functions gave
way. -/
def announce (host : Host) (name parentName : String) (c : ClassId) (overrides : Nat) :
    Step World (Except Report ClassId) := do
  host.registered name parentName
  Step.emit (.subclassCreated name parentName overrides)
  return .ok c

theorem announce_gives {parentName : String} {overrides : Nat}
    (h : (host.registered name parentName).Gives v () w') :
    announce host name parentName c overrides v = ⟨w', .ok (.ok c),
      (host.registered name parentName v).events ++
        [.subclassCreated name parentName overrides]⟩ :=
  h.bind_apply _

theorem announce_stop {parentName : String} {overrides : Nat} {stop : Stop}
    (h : (host.registered name parentName v).answer = .error stop) :
    (announce host name parentName c overrides v).answer = .error stop := by
  rcases hv : host.registered name parentName v with ⟨v', r, es⟩
  rw [hv] at h
  obtain rfl : r = .error stop := h
  rw [announce, Step.bind_of_stop _ hv]

/-- A name that is bound is not bound again. -/
theorem Holds.bindName_bound {bound : List (Binding ClassId)} (h : w.Holds bound)
    (hbound : w.fetchClass name = some c) (d : ClassId) :
    ∃ reg, World.bindName name d w = ⟨{ w with registry := some reg }, .ok false, []⟩ ∧
      World.fetchClass { w with registry := some reg } name = some c := by
  have hmem : name ∈ bound.map Binding.key := by
    by_contra hnot
    rw [h.fetchClass_eq_none.2 hnot] at hbound
    cases hbound
  obtain ⟨hrep, -⟩ := h.represents
  rw [bindName_apply]
  rcases hrep.register name d with ⟨-, heq⟩ | ⟨hnot, -⟩ | ⟨hnot, -⟩
  · have hholds : World.Holds { w with
        registry := some (w.registry.getD (.new w.hash defaultCapacity)) } bound := hrep
    rw [heq]
    exact ⟨_, rfl, by rw [hholds.fetchClass_eq, ← h.fetchClass_eq, hbound]⟩
  · exact absurd hmem hnot
  · exact absurd hmem hnot

/-- When the functions have slots it comes down to the name. -/
theorem enterSubclass_of_installs (host : Host) (name : String)
    (h : installAll candidate (w.overridable parent fresh) = .ok d) :
    enterSubclass host name parent candidate fresh w =
      (bindName name w.classes.length >>= fun bound => do
        if bound then
          Step.modify fun w => { w with classes := w.classes ++ [d] }
          announce host name (w.nameOf parent) w.classes.length
            ((w.methodsUp parent).countP (·.givesWay fresh))
        else
          match (← Step.get).fetchClass name with
          | some winner => return .ok winner
          | none => Step.fault (.registryRace name)) w := by
  rw [← length_overridable, ← overridable_of_isEmpty]
  rw [← overridable_of_isEmpty] at h
  unfold enterSubclass
  rw [Step.get_bind, h]
  rfl

theorem Tiled.installs_copy (hw : Tiled history w₁) (hlater : Later w w₁)
    (hparent : parent < w.classes.length) (name : String) (fresh : List String) :
    ∃ vtable, installAll (w.subclassOf parent name) (w₁.overridable parent fresh) =
        .ok { w.subclassOf parent name with vtable := vtable } ∧
      w₁.Patched parent fresh vtable :=
  hw.tiling.installs (Nat.lt_of_lt_of_le hparent hlater.length_le) fresh
    (hlater.lasts parent hparent).vtable.symm

/-- If the name is free and there is room, the class is entered, and then the host is told. -/
theorem Tiled.enterSubclass (hw : Tiled history w₁) (hlater : Later w w₁)
    (hparent : parent < w.classes.length) (hopen : (w.get parent).flags.final = false)
    (hfree : w₁.fetchClass name = none) (hroom : w₁.namesBound < w₁.capacity)
    (host : Host) (fresh : List String) :
    ∃ v, Tiled history v ∧ w₁.Overridden name parent fresh v ∧
      World.enterSubclass host name parent (w.subclassOf parent name) fresh w₁ =
        announce host name (w₁.nameOf parent) w₁.classes.length
          ((w₁.methodsUp parent).countP (·.givesWay fresh)) v := by
  obtain ⟨vtable, hcand, hpatched⟩ := hw.installs_copy hlater hparent name fresh
  obtain ⟨bound, hholds, -⟩ := hw.tiling.bound
  obtain ⟨-, reg, hbind, -⟩ | ⟨hfull, -⟩ := hholds.bindName hfree w₁.classes.length
  · have hgives : (bindName name w₁.classes.length).Gives w₁ true
        { w₁ with registry := some reg } := by
      rw [Step.Gives, hbind]
      exact ⟨rfl, rfl⟩
    obtain ⟨v, hv⟩ : ∃ v, v = { w₁ with
        registry := some reg
        classes := w₁.classes ++ [{ w.subclassOf parent name with vtable := vtable }] } := ⟨_, rfl⟩
    obtain ⟨hmade, hw'⟩ := hw.entered hlater hparent hopen hcand hgives hv
    have hoverridden : w₁.Overridden name parent fresh v := {
      later := hmade.toLater
      bound := hmade.fetch
      inside := hmade.length_eq ▸ Nat.lt_succ_self _
      below := by rw [hmade.self]; rfl
      patched := by rw [hmade.self]; exact hpatched
      others := fun c hc => congrArg Descriptor.vtable (hmade.old hc) }
    refine ⟨v, hw', hoverridden, ?_⟩
    rw [enterSubclass_of_installs host name hcand, Step.bind_of_ok _ hbind, hv]
    rfl
  · rw [hholds.length_eq] at hfull
    exact absurd hfull (Nat.ne_of_lt hroom)

/-- If there is no room for the name, there is no class. -/
theorem Tiled.enterSubclass_full (hw : Tiled history w₁) (hlater : Later w w₁)
    (hparent : parent < w.classes.length) (hfree : w₁.fetchClass name = none)
    (hfull : w₁.capacity ≤ w₁.namesBound) (host : Host) (fresh : List String) :
    ∃ reg, World.enterSubclass host name parent (w.subclassOf parent name) fresh w₁ =
      ⟨{ w₁ with registry := some reg }, .error (.fault (.registryFull w₁.capacity)),
        [.faulted (.registryFull w₁.capacity)]⟩ := by
  obtain ⟨vtable, hcand, -⟩ := hw.installs_copy hlater hparent name fresh
  obtain ⟨bound, hholds, -⟩ := hw.tiling.bound
  obtain ⟨reg, ⟨hbind, -⟩ | ⟨-, -, c, hc⟩ | ⟨hbind, -⟩⟩ :=
    hholds.bindName_cases name w₁.classes.length
  · obtain ⟨hroom, -⟩ | ⟨-, hanswer⟩ := hholds.bindName hfree w₁.classes.length
    · rw [hholds.length_eq] at hroom
      exact absurd hroom (Nat.not_lt_of_le hfull)
    · rw [hbind] at hanswer
      cases hanswer
  · rw [hfree] at hc
    cases hc
  · exact ⟨reg, by rw [enterSubclass_of_installs host name hcand, Step.bind_of_stop _ hbind]⟩

theorem Tiled.enterSubclass_bound {c : Nat} (hw : Tiled history w₁) (hlater : Later w w₁)
    (hparent : parent < w.classes.length) (hbound : w₁.fetchClass name = some c)
    (host : Host) (fresh : List String) :
    ∃ reg, World.enterSubclass host name parent (w.subclassOf parent name) fresh w₁ =
      ⟨{ w₁ with registry := some reg }, .ok (.ok c), []⟩ := by
  obtain ⟨vtable, hcand, -⟩ := hw.installs_copy hlater hparent name fresh
  obtain ⟨bound, hholds, -⟩ := hw.tiling.bound
  obtain ⟨reg, hbind, hfetch⟩ := hholds.bindName_bound hbound w₁.classes.length
  refine ⟨reg, ?_⟩
  rw [enterSubclass_of_installs host name hcand, Step.bind_of_ok _ hbind, if_neg Bool.false_ne_true,
    Step.get_bind, hfetch]
  rfl

end Making

/-! ### What becomes of a name -/

section Names

variable {host : Host} {name : String} {w₁ : World}

/-- What becomes of a name below a parent, if the host says in the world `w₁` which methods it
defines: a class that is patched, or the class that was bound to the name meanwhile, or there is no
room for the name. -/
structure Overrides (host : Host) (name : String) (parent : ClassId) (fresh : List String)
    (w w₁ : World) : Prop where
  bound : ∀ c : Nat, w₁.fetchClass name = some c → ∃ w',
    (createSubclass host name parent).Gives w (.ok c) w' ∧ w'.classes = w₁.classes
  full : w₁.fetchClass name = none → w₁.capacity ≤ w₁.namesBound →
    (createSubclass host name parent w).answer = .error (.fault (.registryFull w₁.capacity)) ∧
      (createSubclass host name parent w).state.classes = w₁.classes
  /-- The host, when it is told, may do something on its own, or stop. -/
  made : w₁.fetchClass name = none → w₁.namesBound < w₁.capacity → ∃ v,
    w₁.Overridden name parent fresh v ∧
    (∀ w', (host.registered name (w₁.nameOf parent)).Gives v () w' →
      (createSubclass host name parent).Gives w (.ok w₁.classes.length) w' ∧
      w₁.Overridden name parent fresh w' ∧
      (createSubclass host name parent w).events.getLast? =
        some (.subclassCreated name (w₁.nameOf parent)
          ((w₁.methodsUp parent).countP (·.givesWay fresh)))) ∧
    ∀ stop, (host.registered name (w₁.nameOf parent) v).answer = .error stop →
      (createSubclass host name parent w).answer = .error stop

theorem Tiled.overrides {k : Nat} (hhost : Tiled.kind.Hosts k host) (hw : Tiled history w₁)
    (hk : k ≤ w.classes.length) (hlater : Later w w₁) (hparent : parent < w.classes.length)
    (hopen : (w.get parent).flags.final = false)
    (hfresh : (host.freshMethods name).Gives w fresh w₁) :
    Overrides host name parent fresh w w₁ := by
  have hcall := (createSubclass_open host name hopen).trans (hfresh.bind_apply _)
  constructor
  · intro c hbound
    obtain ⟨reg, henter⟩ := hw.enterSubclass_bound hlater hparent hbound host fresh
    rw [henter] at hcall
    exact ⟨{ w₁ with registry := some reg }, by rw [Step.Gives, hcall]; exact ⟨rfl, rfl⟩, rfl⟩
  · intro hfree hfull
    obtain ⟨reg, henter⟩ := hw.enterSubclass_full hlater hparent hfree hfull host fresh
    rw [hcall, henter]
    exact ⟨rfl, rfl⟩
  · intro hfree hroom
    obtain ⟨v, hv, hmade, henter⟩ :=
      hw.enterSubclass hlater hparent hopen hfree hroom host fresh
    rw [henter] at hcall
    refine ⟨v, hmade, fun w' htold => ?_, fun stop hstop => ?_⟩
    · have hk' := Nat.le_trans hk (hlater.trans hmade.later).length_le
      obtain ⟨hlater', -⟩ := hhost.registered _ _ _ _ _ _ hk' hv htold
      rw [announce_gives htold] at hcall
      refine ⟨by rw [Step.Gives, hcall]; exact ⟨rfl, rfl⟩, hmade.lasts hlater', ?_⟩
      rw [hcall, ← List.append_assoc, List.getLast?_concat]
    · rw [hcall]
      exact announce_stop hstop

/-! ### Marks -/

theorem offsets_ownMethod_bind {f : Nat → Step World Unit} (c : ClassId) (name : String)
    (hf : ∀ i, (f i w).state.offsets = w.offsets) :
    ((ownMethod c name >>= f) w).state.offsets = w.offsets := by
  rw [Step.bind_apply, ownMethod]
  cases (w.get c).methods.findIdx? (·.name == name) with
  | none => rfl
  | some i => exact hf i

theorem Tiled.touched (h : Tiled history w) (ht : Touched w w')
    (hoffsets : w'.offsets = w.offsets) : Tiled history w' := by
  obtain ⟨bound, hholds, hinside⟩ := h.tiling.bound
  refine h.aside ⟨ht.course.toLater, ht.length_eq, ht.slots, hoffsets, bound, ?_, ?_⟩
  · unfold Holds
    rw [ht.registry]
    exact hholds
  · rw [ht.length_eq]
    exact hinside

theorem Tiled.setHostAlias (h : Tiled history w) (c : ClassId) (given name : String) :
    Tiled history (World.setHostAlias c given name w).state :=
  h.touched (setHostAlias_harmless c given name w w.hook w (.refl w)).1
    (offsets_ownMethod_bind c name fun i => by rw [Step.get_bind]; split <;> rfl)

theorem Tiled.excludeMethod (h : Tiled history w) (c : ClassId) (name : String) :
    Tiled history (World.excludeMethod c name w).state :=
  h.touched (excludeMethod_harmless c name w w.hook w (.refl w)).1
    (offsets_ownMethod_bind c name fun _ => rfl)

/-- In a world that came about by calls that complete, a class is asked for by name, of a host that
does no more than what leads to such worlds.  What comes of it is such a world, and so is what comes
of marking methods.  Below a parent that is no final class, the class of a new name has in every slot
the callback of the method that was introduced there, if the method gives way to the host, and
otherwise what the parent has in it.  There is a slot for each callback; the event of the creation
says how many methods gave way, and no other vtable is changed. -/
theorem overrides_patch_slots {k : Nat} (hhost : Tiled.kind.Hosts k host) (hw : Tiled history w)
    (hk : k ≤ w.classes.length) :
    (∀ n name given r w', (∀ p : Nat, given = some p → p < w.classes.length) →
      (singletonWith host n name given).Gives w r w' →
        Later w w' ∧ ∃ more, Tiled (history ++ more) w') ∧
    (∀ c given method, Tiled history (setHostAlias c given method w).state ∧
      Tiled history (World.excludeMethod c method w).state) ∧
    (∀ n name parent, w.fetchClass name = none →
      singletonWith host n name (some parent) w = createSubclass host name parent w) ∧
    (∀ n name c w', w.fetchClass name = none →
      (singletonWith host n name none).Gives w (.ok c) w' →
        ∃ more v parent, Tiled (history ++ more) v ∧ Later w v ∧ parent < v.classes.length ∧
          (createSubclass host name parent).Gives v (.ok c) w') ∧
    ∀ name (parent : Nat) fresh w₁, parent < w.classes.length →
      (w.get parent).flags.final = false → (host.freshMethods name).Gives w fresh w₁ →
        Later w w₁ ∧ (∃ more, Tiled (history ++ more) w₁) ∧
          Overrides host name parent fresh w w₁ := by
  refine ⟨fun n name given r w' hgiven h => ?_, fun c given method => ?_,
    fun n name parent hfree => singletonWith_given host n hfree,
    fun n name c w' hfree h => ?_, fun name parent fresh w₁ hparent hopen hfresh => ?_⟩
  · obtain ⟨hlater, hmore, -⟩ := Kind.singletonWith hhost hk hw hgiven h
    exact ⟨hlater, hmore⟩
  · exact ⟨hw.setHostAlias c given method, hw.excludeMethod c method⟩
  · rcases singletonWith_cases h with ⟨c', hbound, -⟩ | ⟨p, hp, -⟩ | ⟨-, -, hr⟩ |
      ⟨m, parentName, w₁, r₁, w₂, -, -, hask, hup, hlast⟩
    · rw [hfree] at hbound
      cases hbound
    · cases hp
    · cases hr
    · obtain ⟨hlater₁, more₁, hw₁⟩ := hhost.findParent name _ _ _ _ hk hw hask
      obtain ⟨hlater₂, ⟨more₂, hw₂⟩, hinside⟩ :=
        Kind.singletonWith hhost (Nat.le_trans hk hlater₁.length_le) hw₁ (by nofun) hup
      rcases hlast with ⟨report, -, hr, -⟩ | ⟨p, rfl, hmake⟩
      · cases hr
      · exact ⟨more₁ ++ more₂, w₂, p, List.append_assoc _ _ _ ▸ hw₂, hlater₁.trans hlater₂,
          hinside p rfl, hmake⟩
  · obtain ⟨hlater, more, hw₁⟩ := hhost.freshMethods name _ _ _ _ hk hw hfresh
    exact ⟨hlater, ⟨more, hw₁⟩, hw₁.overrides hhost hk hlater hparent hopen hfresh⟩

end Names

end World

namespace Pasture

open World

/-- Animals speak and eat. -/
def animalParcel : ParcelSpec where
  classes := [⟨⟨"Animal"⟩, none, "Animal", headerSize, none, 2, 0, 0, {}⟩]
  novel :=
    [⟨⟨"Animal.Speak", "Speak", .text⟩, .custom (.tag 0), some (.custom (.tag 1))⟩,
      ⟨⟨"Animal.Eat", "Eat", .text⟩, .custom (.tag 2), some (.custom (.tag 3))⟩]

/-- Cows speak once more on their own account.  They graze and rest. -/
def cowParcel : ParcelSpec where
  classes := [⟨⟨"Cow"⟩, some ⟨"Animal"⟩, "Cow", 0, none, 3, 1, 0, {}⟩]
  novel :=
    [⟨⟨"Cow.Speak", "Speak", .text⟩, .custom (.tag 4), some (.custom (.tag 5))⟩,
      ⟨⟨"Cow.Graze", "Graze", .text⟩, .custom (.tag 6), some (.custom (.tag 7))⟩,
      ⟨⟨"Cow.Rest", "Rest", .text⟩, .custom (.tag 8), none⟩]
  overridden := [⟨⟨"Cow.Eat", "Eat", .text⟩, ⟨"Animal.Eat", "Eat", .text⟩, .custom (.tag 9)⟩]

/-- The host defines heifers, which graze in their own way, and calves. -/
def declared : HostTable where
  methods := [("Heifer", ["graze"]), ("Calf", ["speak", "chew", "graze", "rest"])]

/-- The world with animals. -/
def farm : World := (bootstrap animalParcel { host := declared }).state

/-- The world with cows as well. -/
def meadow : World := (bootstrap cowParcel farm).state

/-- There are heifers too. -/
def summer : World := (singletonWith .table 0 "Heifer" (some 1) meadow).state

/-- The host is to say of animals that they chew, and calves are to graze as all do. -/
def autumn : World :=
  (World.excludeMethod 1 "Graze" (World.setHostAlias 0 "chew" "Eat" summer).state).state

theorem tiled_meadow : Tiled [animalParcel, cowParcel] meadow := by
  have hfarm : Tiled [animalParcel] farm :=
    .bootstrap (.start declared) (n := 1) ⟨by decide +kernel, rfl⟩ (fun hook h => by cases h)
      (by decide) (by decide)
  refine .bootstrap hfarm (n := 2) ⟨by decide +kernel, rfl⟩ (fun hook h => ?_) (by decide)
    (by decide)
  have hnone : farm.hook.isSome = false := by decide +kernel
  rw [h] at hnone
  cases hnone

/-- In autumn a calf speaks for both animals and cows, and chews.  It grazes as heifers do and rests
as cows do, and nothing else is changed. -/
theorem overrides_patch_slots_calf :
    Tiled.kind.Hosts 2 .table ∧ Tiled [animalParcel, cowParcel] meadow ∧
      (∃ history, Tiled history autumn) ∧ (autumn.get 2).name? = some "Heifer" ∧
      ∃ w', (singletonWith .table 0 "Calf" (some 2)).Gives autumn (.ok 3) w' ∧
        autumn.Overridden "Calf" 2 ["speak", "chew", "graze", "rest"] w' ∧
        (createSubclass .table "Calf" 2 autumn).events.getLast? =
          some (.subclassCreated "Calf" "Heifer" 3) ∧
        (w'.get 3).vtable = [some (.custom (.tag 1)), some (.custom (.tag 3)),
          some (.custom (.tag 5)), some (.custom (.tag 7)), some (.custom (.tag 8))] := by
  have hhost : Tiled.kind.Hosts 2 .table := Kind.hosts_table Tiled.kind 2
  have hmeadow : 2 ≤ meadow.classes.length := by decide +kernel
  have hsummer : (singletonWith .table 0 "Heifer" (some 1)).Gives meadow (.ok 2) summer :=
    ⟨by decide +kernel, rfl⟩
  have hparent : ∀ p : Nat, some 1 = some p → p < meadow.classes.length := fun p hp =>
    Option.some.inj hp ▸ hmeadow
  obtain ⟨-, more, htiled⟩ := (overrides_patch_slots hhost tiled_meadow hmeadow).1 0 "Heifer"
    (some 1) _ summer hparent hsummer
  have halias := ((overrides_patch_slots hhost htiled (by decide +kernel)).2.1 0 "chew" "Eat").1
  have hautumn : Tiled _ autumn :=
    ((overrides_patch_slots hhost halias (by decide +kernel)).2.1 1 "" "Graze").2
  obtain ⟨-, -, hgiven, -, hmake⟩ :=
    overrides_patch_slots hhost hautumn (by decide +kernel)
  have hfree : autumn.fetchClass "Calf" = none := by decide +kernel
  have hlength : autumn.classes.length = 3 := by decide +kernel
  have hname : autumn.nameOf 2 = "Heifer" := by decide +kernel
  obtain ⟨-, -, -, -, hmade⟩ := hmake "Calf" 2 ["speak", "chew", "graze", "rest"] autumn
    (by decide +kernel) (by decide +kernel) ⟨by decide +kernel, rfl⟩
  obtain ⟨v, -, htold, -⟩ := hmade hfree (by decide +kernel)
  obtain ⟨hgives, hoverridden, hlast⟩ := htold _ ⟨rfl, rfl⟩
  have hcount : (autumn.methodsUp 2).countP
      (·.givesWay ["speak", "chew", "graze", "rest"]) = 3 := by decide +kernel
  rw [hname, hcount] at hlast
  rw [hlength] at hgives
  refine ⟨hhost, tiled_meadow, ⟨_, hautumn⟩, by decide +kernel, _, ?_, hoverridden, hlast, ?_⟩
  · rw [Step.Gives, hgiven 0 "Calf" 2 hfree]
    exact hgives
  · rw [← hgives.2]
    decide +kernel

end Pasture

end ObjectSystem
