import ObjectSystem.Proofs.Class.Subclassing

/-! # Dispatch

`Reached L w` says that the world `w` came about by bootstrapping parcels that are well formed and
by making subclasses on demand, with the ledger `L` of what went into the classes.  Whatever a host
does when it is asked, the worlds stay among those reached, as long as the host itself does no more
than that (`Host.Faithful`).

In a world that was reached a class has a function for every method that it or an ancestor names,
and it is the one that the nearest class on the way up has put into the slot of the method. -/

namespace ObjectSystem

namespace World

/-- Nothing that counts for dispatch, or for the subclasses still to be made, differs between two
worlds, but for the names that the host uses and the methods that are kept from it. -/
structure Alike (w w' : World) : Prop where
  length_eq : w'.classes.length = w.classes.length
  parent : ∀ c : Nat, (w'.get c).parent = (w.get c).parent
  final : ∀ c : Nat, (w'.get c).flags.final = (w.get c).flags.final
  vtable : ∀ c : Nat, (w'.get c).vtable = (w.get c).vtable
  classSize : ∀ c : Nat, (w'.get c).classSize = (w.get c).classSize
  methods : ∀ c : Nat,
    (w'.get c).methods.map Method.patch = (w.get c).methods.map Method.patch
  slots : w'.slots = w.slots
  offsets : w'.offsets = w.offsets
  names : NamesInside w'

variable {L L₀ L₁ : Ledger} {w w' w₁ : World} {parent : Nat} {host : Host} {name : String}
  {r : Except Report ClassId}

theorem Alike.preserves (h : Alike w w') (L : Ledger) : Preserves L w w' where
  length_le := Nat.le_of_eq h.length_eq.symm
  parent c _ := h.parent c
  final c _ := h.final c
  vtable c _ := h.vtable c
  classSize c _ := h.classSize c
  offsets m _ := congrFun h.offsets m

theorem Standing.start : Standing [] {} where
  sound := {
    wellFormed := ⟨List.nodup_nil, trivial, trivial⟩
    settled := fun _ hc => by cases hc
    linked := fun _ hm => by cases hm }
  length_eq := rfl
  slots := fun _ _ ht => by cases ht
  names := fun _ hr => by cases hr
  listed := fun _ hc => by cases hc

theorem Standing.alike (hs : Standing L w) (h : Alike w w') : Standing L w' where
  sound := hs.sound.preserved (h.preserves L)
  length_eq := h.length_eq.trans hs.length_eq
  slots t c ht := by
    rw [h.slots] at ht
    rw [h.length_eq]
    exact hs.slots t c ht
  names := h.names
  listed c hc := by
    have hlisted := hs.listed c hc
    unfold Listed at hlisted ⊢
    rw [h.methods, hlisted, h.offsets]

/-! ### Worlds that are reached -/

/-- The worlds that come about by bootstrapping well-formed parcels and making subclasses. -/
inductive Reached : Ledger → World → Prop
  | start : Reached [] {}
  /-- A parcel with enough new methods is bootstrapped.  No reference is named twice in all, and
  what is overridden or kept was named by a proper ancestor.  A hook, if there is one, does no more
  than put functions into vtables. -/
  | bootstrap {L : Ledger} {w w' : World} {p : ParcelSpec} {n : Nat} (before : Reached L w)
    (call : (World.bootstrap p).Gives w n w')
    (hook : ∀ hook, w.hook = some hook → hook.OnlyFills)
    (enough : (p.classes.map (·.numNovel)).sum ≤ p.novel.length)
    (once : (L.withParcel w p).refs.Nodup)
    (anchored : (L.withParcel w p).Anchored) : Reached (L.withParcel w p) w'
  /-- A subclass is made for a host that defines the methods `fresh`. -/
  | subclass {L : Ledger} {w w' : World} {fresh : List String} {name : String} {parent : Nat}
    (before : Reached L w) (inside : parent < w.classes.length)
    (call : (createSubclass (.answering fresh) name parent).Gives w (.ok w.classes.length) w') :
    Reached (L.made w parent fresh :: L) w'
  /-- Something is done that has nothing to do with dispatch. -/
  | alike {L : Ledger} {w w' : World} (before : Reached L w) (same : Alike w w') : Reached L w'

theorem Reached.standing (h : Reached L w) : Standing L w := by
  induction h with
  | start => exact .start
  | bootstrap _ call hook enough once anchored ih =>
    exact bootstrap_standing ih call hook enough once anchored
  | subclass _ inside call ih =>
    exact createSubclass_standing ih (ih.length_eq ▸ inside) call
  | alike _ same ih => exact ih.alike same

end World

/-! ### What a host does -/

/-- Whatever the step answers, it leads from a reached world to a reached world.  The ledger has
the classes of `L₀` before and can only grow. -/
def Step.Faithful {α : Type} (L₀ : Ledger) (x : Step World α) : Prop :=
  ∀ L w a w', L₀ <:+ L → World.Reached L w → x.Gives w a w' →
    ∃ L', L <:+ L' ∧ World.Reached L' w'

/-- A host that does no more than what leads to reached worlds. -/
structure Host.Faithful (L₀ : Ledger) (host : Host) : Prop where
  findParent : ∀ name, Step.Faithful L₀ (host.findParent name)
  freshMethods : ∀ name, Step.Faithful L₀ (host.freshMethods name)
  registered : ∀ name parent, Step.Faithful L₀ (host.registered name parent)

namespace World

variable {L L₀ L₁ : Ledger} {w w' w₁ : World} {parent : Nat} {host : Host} {name : String}
  {r : Except Report ClassId}

theorem Alike.of_registry {r : Registry ClassId} (h : w' = { w with registry := some r })
    (hr : ∀ v ∈ r.bindings, v.value < w.classes.length) : Alike w w' := by
  subst h
  refine ⟨rfl, fun _ => rfl, fun _ => rfl, fun _ => rfl, fun _ => rfl, fun _ => rfl, rfl, rfl, ?_⟩
  intro r' hr' v hv
  obtain rfl := Option.some.inj hr'
  exact hr v hv

/-- The last class is made in another way. -/
theorem Alike.of_last {d d' : Descriptor} (hparent : d'.parent = d.parent)
    (hfinal : d'.flags.final = d.flags.final) (hvtable : d'.vtable = d.vtable)
    (hsize : d'.classSize = d.classSize) (hmethods : d'.methods = d.methods)
    (hnames : NamesInside { w with classes := w.classes ++ [d] }) :
    Alike { w with classes := w.classes ++ [d] } { w with classes := w.classes ++ [d'] } := by
  have hlength : (w.classes ++ [d']).length = (w.classes ++ [d]).length := by
    rw [List.length_append, List.length_append]
    rfl
  have hsame : ∀ {β : Type} (f : Descriptor → β), f d' = f d → ∀ c : Nat,
      f (({ w with classes := w.classes ++ [d'] } : World).get c) =
        f (({ w with classes := w.classes ++ [d] } : World).get c) := by
    intro β f hf c
    rw [get_append w d' w.slots, get_append w d w.slots]
    split
    · exact hf
    · rfl
  exact ⟨hlength, hsame _ hparent, hsame (·.flags.final) hfinal, hsame _ hvtable, hsame _ hsize,
    hsame (·.methods.map Method.patch) (congrArg _ hmethods), rfl, rfl,
    fun r hr v hv => hlength ▸ hnames r hr v hv⟩

/-- A subclass is made by a host that is faithful: the answer is a class that there was when the
host had answered, or the next one, which has the callbacks of the methods that the host named. -/
theorem createSubclass_made {c : Nat} (hhost : host.Faithful L₀) (hL : L₀ <:+ L)
    (hw : Reached L w) (hparent : parent < L.length)
    (h : (createSubclass host name parent).Gives w (.ok c) w') :
    ∃ fresh w₁ L₁ L', (host.freshMethods name).Gives w fresh w₁ ∧ L <:+ L₁ ∧ Reached L₁ w₁ ∧
      Reached L' w' ∧
      (c < L₁.length ∧ L' = L₁ ∨ c = L₁.length ∧ Ledger.made L₁ w₁ parent fresh :: L₁ <:+ L') := by
  cases hfinal : (w.get parent).flags.final with
  | true => cases ((gives_createSubclass_final _ _ hfinal).1 h).1
  | false =>
    obtain ⟨fresh, w₁, candidate, b, w₂, h₁, hcand, h₂, h₃⟩ :=
      (gives_createSubclass _ _ hfinal).1 h
    obtain ⟨L₁, hL₁, hw₁⟩ := hhost.freshMethods name L w fresh w₁ hL hw h₁
    have hs₁ := hw₁.standing
    have hparent₁ := Nat.lt_of_lt_of_le hparent hL₁.length_le
    obtain ⟨hvtable, hsize, hfinal₁⟩ := hw.standing.sound.agree hs₁.sound hL₁ hparent
    cases b with
    | false =>
      obtain ⟨c', hfetch, hc, rfl⟩ := h₃
      obtain rfl := Except.ok.inj hc
      obtain ⟨t, rfl, hnames⟩ := hs₁.names.refused h₂
      exact ⟨fresh, w₁, L₁, L₁, h₁, hL₁, hw₁, hw₁.alike (.of_registry rfl (hnames t rfl)),
        .inl ⟨hs₁.length_eq ▸ hnames.lt_of_fetch hfetch, rfl⟩⟩
    | true =>
      have hcopy : (w.subclassOf parent name).vtable = (w₁.get parent).vtable := hvtable.symm
      have hcopy₁ : (w₁.subclassOf parent name).vtable = (w₁.get parent).vtable := rfl
      rw [hs₁.installAll_overridable hparent₁ fresh hcopy] at hcand
      have hcand₁ := hs₁.installAll_overridable hparent₁ fresh hcopy₁
      have hmade := Reached.subclass hw₁ (hs₁.length_eq ▸ hparent₁)
        ((gives_createSubclass (.answering fresh) name (hfinal₁.trans hfinal)).2
          ⟨fresh, w₁, _, true, w₂, ⟨rfl, rfl⟩, hcand₁, h₂, ⟨rfl, rfl⟩, rfl⟩)
      have hcandidate := (Except.ok.inj hcand).symm
      have hsame : Reached (Ledger.made L₁ w₁ parent fresh :: L₁)
          { w₂ with classes := w₂.classes ++ [candidate] } := by
        refine hmade.alike (.of_last ?_ ?_ ?_ ?_ ?_ hmade.standing.names)
        · rw [hcandidate]
          rfl
        · rw [hcandidate]
          exact hfinal₁.symm
        · rw [hcandidate]
        · rw [hcandidate]
          exact hsize.symm
        · rw [hcandidate]
          rfl
      obtain ⟨hregistered, hc⟩ := h₃
      obtain ⟨L', hL', hw'⟩ :=
        hhost.registered _ _ _ _ _ _ (hL.trans (hL₁.trans (List.suffix_cons _ _))) hsame hregistered
      refine ⟨fresh, w₁, L₁, L', h₁, hL₁, hw₁, hw', .inr ⟨?_, hL'⟩⟩
      rw [Except.ok.inj hc, hs₁.length_eq]

theorem createSubclass_reaches (hhost : host.Faithful L₀) (hL : L₀ <:+ L) (hw : Reached L w)
    (hparent : parent < L.length) (h : (createSubclass host name parent).Gives w r w') :
    ∃ L', L <:+ L' ∧ Reached L' w' ∧ ∀ c : Nat, r = .ok c → c < L'.length := by
  cases r with
  | error report =>
    obtain ⟨-, -, rfl⟩ := createSubclass_refused h
    exact ⟨L, List.suffix_rfl, hw, fun c hc => by cases hc⟩
  | ok c =>
    obtain ⟨fresh, w₁, L₁, L', -, hL₁, -, hw', ⟨hc, rfl⟩ | ⟨hc, hL'⟩⟩ :=
      createSubclass_made hhost hL hw hparent h
    · exact ⟨L', hL₁, hw', fun c' hc' => Except.ok.inj hc' ▸ hc⟩
    · refine ⟨L', hL₁.trans ((List.suffix_cons _ _).trans hL'), hw', fun c' hc' => ?_⟩
      rw [← Except.ok.inj hc', hc]
      exact hL'.length_le

/-- The ledger of a reached world keeps track of it. -/
def Ledger.track (L₀ : Ledger) : Track Ledger where
  knows L w := L₀ <:+ L ∧ Reached L w
  grows L L' := L <:+ L'
  size := List.length
  refl _ := List.suffix_rfl
  trans := List.IsSuffix.trans
  bound hw hfetch := hw.2.standing.length_eq ▸ hw.2.standing.names.lt_of_fetch hfetch

theorem singletonWith_reaches {n : Nat} {given : Option ClassId} (hhost : host.Faithful L₀)
    (hL : L₀ <:+ L) (hw : Reached L w) (hgiven : ∀ p : Nat, given = some p → p < L.length)
    (h : (singletonWith host n name given).Gives w r w') :
    ∃ L', L <:+ L' ∧ Reached L' w' ∧ ∀ c : Nat, r = .ok c → c < L'.length := by
  have hfind : ∀ name L,
      (Ledger.track L₀).Along (host.findParent name) (fun _ _ => True) L := by
    intro name L w a w' hw hask
    obtain ⟨L', hL', hw'⟩ := hhost.findParent name L w a w' hw.1 hw.2 hask
    exact ⟨L', hL', ⟨hw.1.trans hL', hw'⟩, trivial⟩
  obtain ⟨L', hL', ⟨-, hw'⟩, hinside⟩ := (Ledger.track L₀).singletonWith hfind
    (fun name L p hp w r w' hw hmake => by
      obtain ⟨L', hL', hw', hinside⟩ := createSubclass_reaches hhost hw.1 hw.2 hp hmake
      exact ⟨L', hL', ⟨hw.1.trans hL', hw'⟩, hinside⟩) n name hgiven w r w' ⟨hL, hw⟩ h
  exact ⟨L', hL', hw', hinside⟩

end World

/-! ### Hosts -/

section Hosts

variable {α β : Type} {L₀ : Ledger} {root : Nat}

theorem Step.Faithful.bind {x : Step World α} {f : α → Step World β} (hx : x.Faithful L₀)
    (hf : ∀ a, (f a).Faithful L₀) : (x >>= f).Faithful L₀ := by
  intro L w b w' hL hw h
  obtain ⟨a, w₁, h₁, h₂⟩ := (Step.gives_bind _ _ _ _ _).1 h
  obtain ⟨L₁, hL₁, hw₁⟩ := hx L w a w₁ hL hw h₁
  obtain ⟨L₂, hL₂, hw₂⟩ := hf a L₁ w₁ b w' (hL.trans hL₁) hw₁ h₂
  exact ⟨L₂, hL₁.trans hL₂, hw₂⟩

theorem Step.Faithful.gets (L₀ : Ledger) (f : World → α) : (Step.gets f).Faithful L₀ := by
  intro L w a w' _ hw h
  obtain ⟨-, rfl⟩ := (Step.gives_gets _ _ _ _).1 h
  exact ⟨L, List.suffix_rfl, hw⟩

theorem Step.Faithful.modifyHost (L₀ : Ledger) (f : HostTable → HostTable) :
    (Step.modify fun w : World => { w with host := f w.host }).Faithful L₀ := by
  intro L w a w' _ hw h
  rw [Step.gives_modify] at h
  refine ⟨L, List.suffix_rfl, hw.alike ?_⟩
  rw [h]
  exact ⟨rfl, fun _ => rfl, fun _ => rfl, fun _ => rfl, fun _ => rfl, fun _ => rfl, rfl, rfl,
    hw.standing.names⟩

theorem Host.none_faithful (L₀ : Ledger) : Host.none.Faithful L₀ where
  findParent _ := .gets L₀ fun _ => Option.none
  freshMethods _ := .gets L₀ fun _ => []
  registered _ _ := .gets L₀ fun _ => ()

theorem Host.table_faithful (L₀ : Ledger) : Host.table.Faithful L₀ where
  findParent cls := .gets L₀ fun w => w.host.parentOf cls
  freshMethods cls := .gets L₀ fun w => w.host.methodsOf cls
  registered cls parent := .modifyHost L₀ fun t => t.report cls parent

theorem World.singletonWith_faithful {host : Host} (hhost : host.Faithful L₀) (n : Nat)
    (name : String) {given : Option ClassId} (hgiven : ∀ p : Nat, given = some p → p < L₀.length) :
    (World.singletonWith host n name given).Faithful L₀ := by
  intro L w r w' hL hw h
  obtain ⟨L', hL', hw', -⟩ := singletonWith_reaches hhost hL hw
    (fun p hp => Nat.lt_of_lt_of_le (hgiven p hp) hL.length_le) h
  exact ⟨L', hL', hw'⟩

theorem Host.eager_faithful (hroot : root < L₀.length) : (Host.eager root).Faithful L₀ where
  findParent := (Host.table_faithful L₀).findParent
  freshMethods cls := (World.singletonWith_faithful (Host.none_faithful L₀) 0 cls fun _ hp =>
    Option.some.inj hp ▸ hroot).bind fun _ => (Host.table_faithful L₀).freshMethods cls
  registered := (Host.table_faithful L₀).registered

end Hosts

namespace World

/-! ### The nearest function -/

/-- Dispatch picks the nearest function.  Making subclasses on demand leads from reached worlds to
reached ones, and a new subclass has put in the callbacks of what its host named.  In a world that
was reached, a class that is `c` or below it has a function for every method that `c` names, the one
that the nearest class on the way up has put into the slot.  What a method overrides or keeps,
through any number of steps, is answered by the same function. -/
theorem dispatch_nearest :
    (∀ (L₀ : Ledger) (host : Host) (n : Nat) (name : String) (given : Option ClassId),
      host.Faithful L₀ → (∀ p : Nat, given = some p → p < L₀.length) →
        (singletonWith host n name given).Faithful L₀) ∧
    (∀ (L₀ L : Ledger) (host : Host) (w w' : World) (name : String) (parent c : Nat),
      host.Faithful L₀ → L₀ <:+ L → Reached L w → parent < L.length →
      (createSubclass host name parent).Gives w (.ok c) w' →
        ∃ fresh w₁ L₁ L', (host.freshMethods name).Gives w fresh w₁ ∧ L <:+ L₁ ∧ Reached L₁ w₁ ∧
          Reached L' w' ∧
          (c < L₁.length ∧ L' = L₁ ∨
            c = L₁.length ∧ Ledger.made L₁ w₁ parent fresh :: L₁ <:+ L')) ∧
    ∀ (L : Ledger) (w : World), Reached L w →
      ∀ (c d : Nat) (m : MethodRef), m ∈ (L.entry c).own → w.isSubclassOf d c = true →
        (∃ code,
          (w.ancestors d).findSome? (fun a => L.installed (L.entry a).installs (L.origin m)) =
              some code ∧
            w.resolve d m = .ok code) ∧
          ∀ m', Relation.ReflTransGen L.StandsFor m m' → w.resolve d m = w.resolve d m' := by
  refine ⟨?_, ?_, ?_⟩
  · intro L₀ host n name given hhost hgiven
    exact singletonWith_faithful hhost n name hgiven
  · intro L₀ L host w w' name parent c hhost hL hw hparent h
    exact createSubclass_made hhost hL hw hparent h
  · intro L w hw c d m hm hd
    have hs := hw.standing.sound
    have hlength := hw.standing.length_eq
    have hlt := lt_of_isSubclassOf (hlength ▸ Ledger.lt_of_mem_own hm) hd
    rw [hlength] at hlt
    have hancestors := hs.ancestors_eq hlt
    have habove : c ∈ L.lineage d := hancestors ▸ (isSubclassOf_iff w d c).1 hd
    obtain ⟨code, hnearest, hcode⟩ := hs.resolve_eq hm habove
    refine ⟨⟨code, ?_, hcode⟩, fun m' hm' => ?_⟩
    · rw [hancestors]
      exact hnearest
    · have hoffset := (hs.offsets_eq (Ledger.mem_refs_of_mem_own hm) hm').2
      rw [hcode, resolve_congr hoffset hcode]

end World

namespace Kennel

open World

/-- A method with a callback. -/
def speak : MethodRef := ⟨"Animal.Speak", "Speak", .text⟩

/-- A method without one. -/
def legs : MethodRef := ⟨"Animal.Legs", "Legs", .number⟩

/-- What a dog says instead. -/
def bark : MethodRef := ⟨"Dog.Speak", "Speak", .text⟩

/-- What a dog keeps. -/
def paws : MethodRef := ⟨"Dog.Legs", "Legs", .number⟩

/-- Animals, and dogs below them. -/
def parcel : ParcelSpec where
  classes :=
    [⟨⟨"Animal"⟩, none, "Animal", headerSize, none, 2, 0, 0, {}⟩,
      ⟨⟨"Dog"⟩, some ⟨"Animal"⟩, "Dog", 0, none, 0, 1, 1, {}⟩]
  novel :=
    [⟨speak, .custom (.tag 0), some (.custom (.tag 2))⟩, ⟨legs, .custom (.constant 4), none⟩]
  overridden := [⟨bark, speak, .custom (.tag 1)⟩]
  inherited := [⟨paws, legs⟩]

/-- The world with the parcel. -/
def dogs : World := (bootstrap parcel {}).state

/-- The world with puppies, which speak as the host says, below the dogs. -/
def puppies : World := (createSubclass (.answering ["speak"]) "Puppy" 1 dogs).state

/-- The world with kittens instead, which a host asked for that declared nothing. -/
def kittens : World := (createSubclass .table "Kitten" 0 dogs).state

/-- What went into dogs and animals. -/
def pedigree : Ledger := Ledger.withParcel [] {} parcel

theorem reached_dogs : Reached pedigree dogs := by
  have hcall : (bootstrap parcel).Gives {} 1 dogs := ⟨by decide +kernel, rfl⟩
  exact .bootstrap .start hcall (fun hook h => by cases h) (by decide) (by decide) (by decide)

theorem reached_puppies : Reached (pedigree.made dogs 1 ["speak"] :: pedigree) puppies := by
  have hlength : dogs.classes.length = 2 := by decide +kernel
  have hcall : (createSubclass (.answering ["speak"]) "Puppy" 1).Gives dogs (.ok 2) puppies :=
    ⟨by decide +kernel, rfl⟩
  exact .subclass reached_dogs (by decide +kernel) (hlength.symm ▸ hcall)

/-- A puppy speaks as the host says, whichever way it is told to, and has the legs of an animal;
kittens can be made as well, also by a host that makes classes before it answers. -/
theorem dispatch_nearest_puppy :
    puppies.resolve 2 bark = .ok (.custom (.tag 2)) ∧
      puppies.resolve 2 bark = puppies.resolve 2 speak ∧
      puppies.resolve 2 paws = puppies.resolve 2 legs ∧
      (∃ L, Reached L kittens) ∧
      (singletonWith (.eager 1) 0 "Kitten" (some 0)).Faithful pedigree := by
  have hbark : Ledger.StandsFor (pedigree.made dogs 1 ["speak"] :: pedigree) bark speak :=
    ⟨1, by decide +kernel⟩
  have hpaws : Ledger.StandsFor (pedigree.made dogs 1 ["speak"] :: pedigree) paws legs :=
    ⟨1, by decide +kernel⟩
  obtain ⟨⟨code, hnearest, hcode⟩, hspeak⟩ := dispatch_nearest.2.2 _ _ reached_puppies 1 2 bark
    (by decide +kernel) (by decide +kernel)
  obtain ⟨-, hlegs⟩ := dispatch_nearest.2.2 _ _ reached_puppies 1 2 paws
    (by decide +kernel) (by decide +kernel)
  have hcallback : (puppies.ancestors 2).findSome? (fun a =>
      Ledger.installed (pedigree.made dogs 1 ["speak"] :: pedigree)
        (Ledger.entry (pedigree.made dogs 1 ["speak"] :: pedigree) a).installs
        (Ledger.origin (pedigree.made dogs 1 ["speak"] :: pedigree) bark)) =
      some (.custom (.tag 2)) := by decide +kernel
  obtain rfl := Option.some.inj (hnearest.symm.trans hcallback)
  have hkittens : (createSubclass .table "Kitten" 0).Gives dogs (.ok 2) kittens :=
    ⟨by decide +kernel, rfl⟩
  obtain ⟨_, _, _, L, -, -, -, hreached, -⟩ := dispatch_nearest.2.1 pedigree pedigree .table dogs
    kittens "Kitten" 0 2 (Host.table_faithful pedigree) List.suffix_rfl reached_dogs (by decide)
    hkittens
  refine ⟨hcode, hspeak speak (.single hbark), hlegs legs (.single hpaws), ⟨L, hreached⟩, ?_⟩
  exact dispatch_nearest.1 pedigree (.eager 1) 0 "Kitten" (some 0)
    (Host.eager_faithful (by decide)) (by decide)

end Kennel

end ObjectSystem
