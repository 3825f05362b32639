import ObjectSystem.Proofs.Class.Dispatch
import ObjectSystem.Proofs.Class.Refusal

/-! # Classes that are made

When the chain of declared parents leads to a class that can have subclasses, and there is room for
the names, a class is made for every name of the chain, from the end down to the name that was asked
for (`singleton_makes`).  The classes stand in a `Line`, and from then on their names lead to them,
whoever asks.

What can come in the way is a callback whose slot the class does not have (`Bears.fits`).  That does
not happen in worlds that well-formed parcels lead to (`Reached.bears`), but it does when a parcel
names one reference twice (`shared_reference_stops`): the offset is then that of the last class to
name it, and the vtables further up are too short for it. -/

namespace ObjectSystem

namespace World

variable {w w' w₁ : World} {bound : List (Binding ClassId)} {name next top : String}
  {path names : List String} {parent K n : Nat} {given : Option ClassId} {c : ClassId}

/-- Where the subclass that is asked for goes: below the class that its chain leads to, or below the
given one.  The path has the names for which there is no class yet. -/
inductive Descends (w : World) (name : String) : Option ClassId → List String → ClassId → Prop
  | declared {path : List String} {top : String} {K : ClassId} (leads : w.Leads name path top)
      (bound : w.fetchClass top = some K) : Descends w name none path K
  | given (K : ClassId) : Descends w name (some K) [name] K

/-- A class can have subclasses of some names: it is a class of the world, as are its ancestors, and
it has the slots of all methods that give way to the host. -/
structure Bears (w : World) (K : ClassId) (names : List String) : Prop where
  inside : K < w.classes.length
  above : ∀ a ∈ w.ancestors K, a < w.classes.length
  fits : ∀ n ∈ names, ∀ patch ∈ w.overridable K (w.host.methodsOf n),
    (slotIndex? (w.get K).vtable.length patch.2).isSome

/-- In a world that was reached every class can have subclasses of any names. -/
theorem Reached.bears {L : Ledger} (hw : Reached L w) (hK : K < w.classes.length)
    (names : List String) : w.Bears K names := by
  have hs := hw.standing
  rw [hs.length_eq] at hK
  have hsettled := hs.sound.settled K hK
  refine ⟨hs.length_eq.symm ▸ hK, fun a ha => ?_, fun n _ patch hpatch => ?_⟩
  · rw [hs.sound.ancestors_eq hK] at ha
    rw [hs.length_eq]
    exact (Ledger.lt_of_mem_lineage ha).1
  · rw [hs.overridable_eq hK] at hpatch
    obtain ⟨i, hi, rfl⟩ := List.mem_map.1 hpatch
    obtain ⟨k, hk, hget⟩ := List.getElem_of_mem (Ledger.mem_layout_of_mem_callbacks hi)
    have hplaced := hsettled.placed k i.1 ((List.getElem?_eq_getElem hk).trans (congrArg some hget))
    have hlength : k < (w.get K).vtable.length := by
      rw [hsettled.vtable, List.length_map]
      exact hk
    rw [hplaced, slotIndex?_slotOffset hlength]
    rfl

/-! ### One more class -/

theorem ancestorsUpTo_congr (h : ∀ a ∈ w.ancestorsUpTo n c, w'.get a = w.get a) :
    w'.ancestorsUpTo n c = w.ancestorsUpTo n c := by
  induction n generalizing c with
  | zero => rfl
  | succ n ih =>
    have hself : w'.get c = w.get c := h c List.mem_cons_self
    unfold ancestorsUpTo at h ⊢
    rw [hself]
    cases hparent : (w.get c).parent with
    | none => rfl
    | some p =>
      rw [hparent] at h
      exact congrArg (c :: ·) (ih fun a ha => h a (List.mem_cons_of_mem _ ha))

/-- What the classes of a line do not have comes from the ancestors of the first parent. -/
theorem Line.flatMap_ancestors {β : Type} (h : Line w bound K names w')
    (habove : ∀ a ∈ w.ancestors K, a < w.classes.length) (f : ClassId → List β)
    (hf : ∀ i : Nat, i < names.length → f (w.classes.length + i) = []) :
    (w'.ancestors (w.lastMade K names.length)).flatMap f = (w.ancestors K).flatMap f := by
  have hupTo : ∀ i : Nat, i ≤ names.length →
      (w'.ancestorsUpTo (w.classes.length + i) (w.lastMade K i)).flatMap f =
        (w.ancestors K).flatMap f := by
    intro i hi
    induction i with
    | zero => exact congrArg _ (ancestorsUpTo_congr fun a ha => h.old a (habove a ha))
    | succ i ih =>
      obtain ⟨vtable, -, hget⟩ := h.new i _ (List.getElem?_eq_getElem hi)
      have hparent : (w'.get (w.lastMade K (i + 1))).parent = some (w.lastMade K i) :=
        congrArg Descriptor.parent hget
      rw [← Nat.add_assoc, ancestorsUpTo, hparent, List.flatMap_cons]
      exact (congrArg (· ++ _) (hf i hi)).trans (ih (Nat.le_of_succ_le hi))
  unfold ancestors
  rw [h.length_eq]
  exact hupTo _ (Nat.le_refl _)

theorem Line.overridable_eq (h : Line w bound K names w')
    (habove : ∀ a ∈ w.ancestors K, a < w.classes.length) (fresh : List String) :
    w'.overridable (w.lastMade K names.length) fresh = w.overridable K fresh := by
  unfold overridable
  rw [h.flatMap_ancestors habove]
  · refine List.flatMap_congr fun a ha => ?_
    rw [h.old a (habove a ha)]
  · intro i hi
    obtain ⟨vtable, -, hget⟩ := h.new i _ (List.getElem?_eq_getElem hi)
    rw [hget]
    rfl

/-- A line can be made longer as long as there is room for names. -/
theorem Line.grow (h : Line w bound K names w₁) (hname : w₁.fetchClass name = none)
    (hfinal : (w.get K).flags.final = false) (hroom : bound.length + names.length < w.capacity)
    (hbears : w.Bears K [name]) :
    ∃ w', (createSubclass .table name (w.lastMade K names.length)).Gives w₁
        (.ok (w.lastMade K (names.length + 1))) w' ∧
      Line w bound K (names ++ [name]) w' := by
  have hfinal₁ : (w₁.get (w.lastMade K names.length)).flags.final = false := by
    rw [h.last_flags, hfinal]
  obtain ⟨candidate, hcand⟩ : ∃ candidate,
      installAll (w₁.subclassOf (w.lastMade K names.length) name)
        (w₁.overridable (w.lastMade K names.length) (w₁.host.methodsOf name)) = .ok candidate := by
    refine installAll_isOk_iff.2 fun patch hpatch => ?_
    have hmethods : w₁.host.methodsOf name = w.host.methodsOf name := by
      unfold HostTable.methodsOf
      rw [h.host_eq.2]
    rw [h.overridable_eq hbears.above, hmethods] at hpatch
    have hlength : (w₁.subclassOf (w.lastMade K names.length) name).vtable.length =
        (w.get K).vtable.length := h.last.1
    rw [hlength]
    exact hbears.fits name (by simp) patch hpatch
  rcases h.holds.bindName hname w₁.classes.length with ⟨-, r, hbind, -, -⟩ | ⟨hfull, -⟩
  · have hmake := (gives_createSubclass .table name hfinal₁).2
      ⟨_, w₁, candidate, true, _, ⟨rfl, rfl⟩, hcand, ⟨by rw [hbind], rfl⟩, ⟨rfl, rfl⟩, rfl⟩
    obtain ⟨hr, hline⟩ := h.snoc hname hfinal hmake
    rw [hr] at hmake
    exact ⟨_, hmake, hline⟩
  · rw [List.length_append, List.length_mapIdx, h.capacity] at hfull
    omega

/-! ### Names that lead to classes -/

theorem Holds.fetchClass_after {r : Registry ClassId} {calls : List (Registry.Call ClassId)}
    (h : w.Holds bound) (hr : w.registry = some r) (hr' : w'.registry = some (r.after calls))
    (hfetch : w.fetchClass name = some c) : w'.fetchClass name = some c := by
  have hrep : r.Represents bound := by
    unfold Holds at h
    rwa [hr] at h
  have hafter : w'.Holds (bound ++ r.accepted calls) := by
    unfold Holds
    rw [hr']
    exact (hrep.after calls).1
  rw [h.fetchClass_eq, Option.map_eq_some_iff] at hfetch
  obtain ⟨b, hfind, rfl⟩ := hfetch
  rw [hafter.fetchClass_eq, List.find?_append, hfind]
  rfl

theorem Line.fetchClass_new {i : Nat} (h : Line w bound K names w') (hn : names[i]? = some name) :
    w'.fetchClass name = some (w.classes.length + i) := by
  refine h.holds.fetchClass_of_mem (b := ⟨name, w.classes.length + i⟩) ?_
  obtain ⟨hi, rfl⟩ := List.getElem?_eq_some_iff.1 hn
  exact List.mem_append_right _ (List.mem_mapIdx.2 ⟨i, hi, rfl⟩)

theorem Line.fetchClass_other (h : Line w bound K names w') (hw : w.Holds bound)
    (hname : name ∉ names) : w'.fetchClass name = w.fetchClass name := by
  have hnew : (names.mapIdx fun i n => (⟨n, w.classes.length + i⟩ : Binding ClassId)).find?
      (·.key = name) = none := by
    rw [List.find?_eq_none]
    intro b hb
    obtain ⟨i, hi, rfl⟩ := List.mem_mapIdx.1 hb
    exact fun hkey => hname (of_decide_eq_true hkey ▸ List.getElem_mem hi)
  rw [h.holds.fetchClass_eq, hw.fetchClass_eq, List.find?_append, hnew, Option.or_none]

/-! ### A class for every name -/

theorem Bears.mono {names' : List String} (h : w.Bears K names) (hsub : names' ⊆ names) :
    w.Bears K names' :=
  ⟨h.inside, h.above, fun n hn => h.fits n (hsub hn)⟩

/-- Along a chain that leads to a class a line of classes is made. -/
theorem Leads.makes (h : w.Leads name path top) (hw : w.Holds bound)
    (htop : w.fetchClass top = some K) (hfinal : (w.get K).flags.final = false)
    (hroom : bound.length + path.length ≤ w.capacity) (hbears : w.Bears K path)
    (hn : path.length ≤ n) :
    ∃ w', (singletonWith .table n name none).Gives w (.ok (w.lastMade K path.length)) w' ∧
      Line w bound K path.reverse w' := by
  induction h generalizing n with
  | here name =>
    have hfound := singletonWith_bound .table n none htop
    exact ⟨w, ⟨by rw [hfound]; rfl, by rw [hfound]⟩, .refl hw K⟩
  | @up name next top path hname hnext rest ih =>
    rw [List.length_cons] at hroom hn
    obtain ⟨n, rfl⟩ : ∃ k, n = k + 1 := Nat.exists_eq_add_one.2 (by omega)
    obtain ⟨w₁, hparent, hline⟩ := ih htop (by omega)
      (hbears.mono (List.subset_cons_self _ _)) (Nat.le_of_succ_le_succ hn)
    have hname₁ : w₁.fetchClass name = none := by
      rw [hline.fetchClass_eq_none hw, List.mem_reverse]
      exact ⟨hname, rest.not_mem (.of_bound htop) hname hnext⟩
    obtain ⟨w', hmake, hline'⟩ := hline.grow hname₁ hfinal
      (by rw [List.length_reverse]; omega) (hbears.mono (by simp))
    rw [List.length_reverse] at hmake
    rw [List.reverse_cons]
    refine ⟨w', ?_, hline'⟩
    unfold Step.Gives
    rw [singletonWith_declared n hname hnext]
    exact (Step.gives_bind _ _ _ _ _).2 ⟨_, w₁, hparent, hmake⟩

/-- Every class of a world that was reached can have subclasses of any names.

When a class can have subclasses of the names on the way to it, is not final, and there is room for
the names, asking for the first of them makes a line of classes below it, one for each name: the
last one is the answer and goes by the name that was asked for.  No other name is bound, and nothing
but the registry, the classes and what the host was told is changed.  Later on the names lead to
these classes, whatever else was bound in the meantime, and whichever host and parent come with
them; then nothing is made. -/
theorem singleton_makes :
    (∀ (L : Ledger) (w : World), Reached L w → ∀ K : Nat, K < w.classes.length →
      ∀ names, w.Bears K names) ∧
    ∀ (w : World) (bound : List (Binding ClassId)) (name : String) (given : Option ClassId)
      (path : List String) (K : Nat), w.Holds bound → w.fetchClass name = none →
      w.Descends name given path K → (w.get K).flags.final = false →
      bound.length + path.length ≤ w.capacity → w.Bears K path →
        ∃ w', (singleton .table name given).Gives w (.ok (w.lastMade K path.length)) w' ∧
          w'.fetchClass name = some (w.lastMade K path.length) ∧
          Line w bound K path.reverse w' ∧
          (∀ n, n ∉ path → w'.fetchClass n = w.fetchClass n) ∧
          ∀ (i : Nat) n, path.reverse[i]? = some n →
            w'.fetchClass n = some (w.classes.length + i) ∧
            ∀ (later : World) r calls, w'.registry = some r →
              later.registry = some (r.after calls) →
              ∀ (host : Host) (allowance : Nat) (given' : Option ClassId),
                singletonWith host allowance n given' later =
                  ⟨later, .ok (.ok (w.classes.length + i)), []⟩ := by
  refine ⟨fun L w hw K hK names => hw.bears hK names, ?_⟩
  intro w bound name given path K hw hname hd hfinal hroom hbears
  obtain ⟨older, hpath⟩ : ∃ older, path = name :: older := by
    cases hd with
    | declared leads htop =>
      cases leads with
      | here =>
        rw [hname] at htop
        cases htop
      | up _ _ _ => exact ⟨_, rfl⟩
    | given => exact ⟨[], rfl⟩
  obtain ⟨w', hmake, hline⟩ : ∃ w',
      (singleton .table name given).Gives w (.ok (w.lastMade K path.length)) w' ∧
        Line w bound K path.reverse w' := by
    cases hd with
    | declared leads htop =>
      exact leads.makes hw htop hfinal hroom hbears (leads.length_le (.of_bound htop))
    | given =>
      obtain ⟨w', hmake, hline⟩ := (Line.refl hw K).grow hname hfinal hroom hbears
      refine ⟨w', ?_, hline⟩
      unfold Step.Gives singleton
      rw [singletonWith_given _ _ hname]
      exact hmake
  have hnew : ∀ (i : Nat) n, path.reverse[i]? = some n →
      w'.fetchClass n = some (w.classes.length + i) := fun i n hn => hline.fetchClass_new hn
  refine ⟨w', hmake, ?_, hline, fun n hn => ?_, fun i n hn => ⟨hnew i n hn, ?_⟩⟩
  · rw [hnew older.length name (by simp [hpath]), hpath]
    rfl
  · exact hline.fetchClass_other hw fun hmem => hn (List.mem_reverse.1 hmem)
  · intro later r calls hr hlater host allowance given'
    exact singletonWith_bound host allowance given'
      (hline.holds.fetchClass_after hr hlater (hnew i n hn))

end World

namespace Kennel

open World

/-- The world with dogs, and a host that has declared a puppy. -/
def yard : World :=
  { dogs with
    host := {
      parents := [("Rex", "Puppy"), ("Puppy", "Dog")]
      methods := [("Puppy", ["speak"])] } }

/-- Rex is made below the puppies, which are made below the dogs. -/
theorem rex_is_made :
    ∃ w', (singleton .table "Rex" none).Gives yard (.ok 3) w' ∧
      w'.fetchClass "Puppy" = some 2 ∧ w'.fetchClass "Rex" = some 3 ∧
      (w'.get 3).parent = some 2 ∧ (w'.get 2).parent = some 1 ∧
      w'.host.registered = [("Puppy", "Dog"), ("Rex", "Puppy")] := by
  obtain ⟨bound, hholds⟩ : ∃ bound, yard.Holds bound :=
    (bootstrap_keeps .holds parcel {} ⟨[], rfl⟩).1
  obtain ⟨L, -, hreached⟩ := Step.Faithful.modifyHost [] (fun _ => yard.host) pedigree dogs () yard
    List.nil_suffix reached_dogs ⟨rfl, rfl⟩
  have hunbound : yard.fetchClass "Rex" = none := by decide +kernel
  have hleads : yard.Leads "Rex" ["Rex", "Puppy"] "Dog" :=
    .up hunbound rfl (.up (by decide +kernel) rfl (.here _))
  have hroom : bound.length + 2 ≤ yard.capacity := by
    rw [hholds.length_eq]
    decide +kernel
  have hlength : yard.classes.length = 2 := by decide +kernel
  obtain ⟨w', hmake, -, hline, -, hnew⟩ := singleton_makes.2 yard bound "Rex" none
    ["Rex", "Puppy"] 1 hholds hunbound (.declared hleads (by decide +kernel)) (by decide +kernel)
    hroom (singleton_makes.1 L yard hreached 1 (by decide +kernel) _)
  obtain ⟨_, -, hpuppy⟩ := hline.new 0 "Puppy" rfl
  obtain ⟨_, -, hrex⟩ := hline.new 1 "Rex" rfl
  have hlast : yard.lastMade 1 2 = 3 := congrArg (· + 1) hlength
  rw [hlength] at hpuppy hrex
  refine ⟨w', hlast ▸ hmake, ?_, ?_, ?_, ?_, ?_⟩
  · rw [(hnew 0 "Puppy" rfl).1, hlength]
  · rw [(hnew 1 "Rex" rfl).1, hlength]
  · rw [hrex]
    exact congrArg some hlength
  · rw [hpuppy]
    rfl
  · have hdog : yard.nameOf 1 = "Dog" := by decide +kernel
    rw [hline.told, hdog]
    rfl

end Kennel

namespace Muddle

open World

/-- A method that two classes list as their own. -/
def speak : MethodRef := ⟨"Speak", "Speak", .text⟩

/-- Two classes, one below the other. -/
def parcel : ParcelSpec where
  classes :=
    [⟨⟨"Animal"⟩, none, "Animal", headerSize, none, 1, 0, 0, {}⟩,
      ⟨⟨"Dog"⟩, some ⟨"Animal"⟩, "Dog", 0, none, 1, 0, 0, {}⟩]
  novel :=
    [⟨speak, .custom (.tag 0), some (.custom (.tag 2))⟩,
      ⟨speak, .custom (.tag 1), some (.custom (.tag 3))⟩]
  overridden := []
  inherited := []

/-- A world in which the host has declared what kittens do. -/
def kitchen : World := { host := { methods := [("Kitten", ["speak"])] } }

/-- The world with the parcel. -/
def animals : World := (bootstrap parcel kitchen).state

/-- There are animals, of which there can be subclasses, there is room for a name, and there are no
kittens; but kittens cannot be made. -/
theorem shared_reference_stops :
    (bootstrap parcel).Gives kitchen 1 animals ∧
      (∃ bound, animals.Holds bound ∧ bound.length + 1 ≤ animals.capacity) ∧
      animals.fetchClass "Kitten" = none ∧
      animals.Descends "Kitten" (some 0) ["Kitten"] 0 ∧
      (animals.get 0).flags.final = false ∧
      (singleton .table "Kitten" (some 0) animals).answer =
        .error (.fault (.slotOutOfRange "Kitten" 112)) := by
  obtain ⟨bound, hholds⟩ : ∃ bound, animals.Holds bound :=
    (bootstrap_keeps .holds parcel kitchen ⟨[], rfl⟩).1
  refine ⟨⟨by decide +kernel, rfl⟩, ⟨bound, hholds, ?_⟩, by decide +kernel, .given 0,
    by decide +kernel, by decide +kernel⟩
  rw [hholds.length_eq]
  decide +kernel

end Muddle

end ObjectSystem
