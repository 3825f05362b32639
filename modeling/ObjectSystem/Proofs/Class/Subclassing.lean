import ObjectSystem.Class.Subclass
import ObjectSystem.Proofs.Class.Building

/-! # Subclasses in a ledger

A subclass made on demand has the slots of its parent and no method of its own.  Its entry
(`Entry.made`) tells which functions of its ancestors gave way to the host: each callback stands in
the slot of the method that it came with. -/

namespace ObjectSystem

namespace Ledger

/-- The callbacks that take the place of methods of a class and its ancestors, each with the
reference of its method. -/
def callbacks (L : Ledger) (w : World) (parent : ClassId) (fresh : List String) :
    List (MethodRef × Code) :=
  (L.lineage parent).flatMap fun a =>
    ((L.entry a).novel.zip (w.get a).methods).filterMap fun (s, m) =>
      match m.callback with
      | none => none
      | some code =>
        if m.excluded || !fresh.contains m.hostName then none else some (s.method, code)

/-- What goes into a subclass of a host that defines some methods. -/
def made (L : Ledger) (w : World) (parent : ClassId) (fresh : List String) : Entry :=
  { parent := some parent, callbacks := L.callbacks w parent fresh }

variable {L : Ledger} {w : World} {parent : Nat} {fresh : List String}

theorem mem_layout_of_mem_callbacks {i : MethodRef × Code}
    (hi : i ∈ L.callbacks w parent fresh) : i.1 ∈ L.layout parent := by
  obtain ⟨a, ha, hi⟩ := List.mem_flatMap.1 hi
  obtain ⟨⟨s, m⟩, hsm, hi⟩ := List.mem_filterMap.1 hi
  have hs : s ∈ (L.entry a).novel := (List.of_mem_zip hsm).1
  have hmethod : i.1 = s.method := by
    cases hcode : m.callback with
    | none => simp [hcode] at hi
    | some code =>
      simp only [hcode] at hi
      split at hi
      · cases hi
      · rw [← Option.some.inj hi]
  rw [hmethod]
  exact (layout_initial ha).subset (method_mem_layout hs)

theorem layout_made : layout (L.made w parent fresh :: L) L.length = L.layout parent := by
  rw [layout_self]
  exact List.append_nil _

/-- A subclass does not break what is asked of ledgers. -/
theorem WellFormed.made (h : L.WellFormed) (w : World) (hparent : parent < L.length)
    (fresh : List String) :
    WellFormed (L.made w parent fresh :: L) where
  once := h.once
  anchored := ⟨h.anchored, fun l hl => by cases hl⟩
  grounded := by
    refine ⟨h.grounded, fun p hp => ?_, fun i hi => mem_layout_of_mem_callbacks hi⟩
    obtain rfl : parent = p := Option.some.inj hp
    exact hparent

end Ledger

/-- A host that says that a class defines some methods, and nothing else. -/
def Host.answering (fresh : List String) : Host :=
  ⟨fun _ => pure Option.none, fun _ => pure fresh, fun _ _ => pure ()⟩

namespace World

variable {L : Ledger} {w w' : World} {parent : Nat} {fresh : List String}

/-- What gives way to the host are the methods that the ledger tells, at their offsets. -/
theorem Standing.overridable_eq (hs : Standing L w) (hparent : parent < L.length) :
    w.overridable parent fresh =
      (L.callbacks w parent fresh).map fun i => (i.2, w.offsets i.1) := by
  rw [overridable, hs.sound.ancestors_eq hparent, Ledger.callbacks, List.map_flatMap]
  refine List.flatMap_congr fun a ha => ?_
  have hlisted := hs.listed a (Ledger.lt_of_mem_lineage ha).1
  unfold Listed at hlisted
  generalize (L.entry a).novel = novel at hlisted
  generalize (w.get a).methods = methods at hlisted
  induction novel generalizing methods with
  | nil =>
    rw [List.map_nil, List.map_eq_nil_iff] at hlisted
    rw [hlisted]
    rfl
  | cons s novel ih =>
    obtain ⟨m, methods, rfl, hm, hrest⟩ := List.map_eq_cons_iff.1 hlisted
    replace ih := ih methods hrest
    have hoffset : m.offset = w.offsets s.method := congrArg Prod.snd hm
    rw [List.zip_cons_cons]
    cases hcode : m.callback with
    | none =>
      simp only [List.filterMap_cons, hcode]
      exact ih
    | some code =>
      by_cases hout : (m.excluded || !fresh.contains m.hostName) = true
      · simp only [List.filterMap_cons, hcode, if_pos hout]
        exact ih
      · simp only [List.filterMap_cons, hcode, if_neg hout, List.map_cons, hoffset]
        exact congrArg (_ :: ·) ih

/-- Callbacks put into a vtable, each into the slot of its method. -/
theorem installAll_eq {R : List MethodRef} (hR : R.Nodup) {f : MethodRef → Nat}
    {g : MethodRef → Option Code} {is : List (MethodRef × Code)} {d : Descriptor}
    (hv : d.vtable = R.map g)
    (hplaced : ∀ i ∈ is, ∃ k, R[k]? = some (L.origin i.1) ∧ f i.1 = slotOffset k) :
    installAll d (is.map fun i => (i.2, f i.1)) =
      .ok { d with vtable := R.map fun o => (L.installed is o).or (g o) } := by
  induction is generalizing d g with
  | nil =>
    have hsame : d.vtable = R.map fun o => (L.installed [] o).or (g o) := hv
    rw [List.map_nil, installAll, ← hsame]
  | cons i rest ih =>
    obtain ⟨k, hk, hoffset⟩ := hplaced i List.mem_cons_self
    have hinstall := Descriptor.install_layout (G := []) (by rwa [List.append_nil]) hR hk i.2
    rw [List.append_nil] at hinstall
    rw [List.map_cons, installAll, hoffset, hinstall]
    let painted : MethodRef → Option Code := fun q => if q = L.origin i.1 then some i.2 else g q
    have hrest := ih (d := { d with vtable := R.map painted }) rfl fun j hj =>
      hplaced j (List.mem_cons_of_mem _ hj)
    simp only [Ledger.installed_cons_or]
    exact hrest

/-- The functions of a subclass: those of its parent, with callbacks over them. -/
theorem Standing.installAll_overridable (hs : Standing L w) (hparent : parent < L.length)
    (fresh : List String) {d : Descriptor} (hd : d.vtable = (w.get parent).vtable) :
    installAll d (w.overridable parent fresh) =
      .ok { d with
        vtable := (Ledger.layout (L.made w parent fresh :: L) L.length).map
          (Ledger.dispatch (L.made w parent fresh :: L) L.length) } := by
  have hwf := hs.sound.wellFormed.made w hparent fresh
  have hsettled := hs.sound.settled parent hparent
  have hplaced : ∀ i ∈ L.callbacks w parent fresh, ∃ k : Nat,
      (L.layout parent)[k]? = some (Ledger.origin (L.made w parent fresh :: L) i.1) ∧
        w.offsets i.1 = slotOffset k := by
    intro i hi
    have hmem := Ledger.mem_layout_of_mem_callbacks hi
    obtain ⟨k, hk, hget⟩ := List.getElem_of_mem hmem
    have hget' := (List.getElem?_eq_getElem hk).trans (congrArg some hget)
    refine ⟨k, ?_, hsettled.placed k _ hget'⟩
    rw [hwf.origin_of_mem_layout (Ledger.layout_made ▸ hmem), hget']
  rw [hs.overridable_eq hparent,
    installAll_eq (hs.sound.wellFormed.layout_nodup parent) (hd.trans hsettled.vtable) hplaced,
    Ledger.layout_made]
  congr 2
  refine List.map_congr_left fun o _ => ?_
  rw [hwf.dispatch_self]
  rfl

theorem overridable_of_isEmpty (w : World) (parent : ClassId) (fresh : List String) :
    (if fresh.isEmpty then [] else w.overridable parent fresh) = w.overridable parent fresh := by
  cases fresh with
  | nil =>
    simp only [overridable, List.isEmpty_nil, if_true, List.contains_nil, Bool.not_false,
      Bool.or_true]
    rw [eq_comm, List.flatMap_eq_nil_iff]
    intro a _
    rw [List.filterMap_eq_nil_iff]
    intro m _
    cases m.callback <;> rfl
  | cons m rest => rfl

/-- How a subclass is made below a parent that can have one. -/
theorem gives_createSubclass (host : Host) (name : String) {r : Except Report ClassId}
    (hfinal : (w.get parent).flags.final = false) :
    (createSubclass host name parent).Gives w r w' ↔
      ∃ fresh w₁ candidate b w₂, (host.freshMethods name).Gives w fresh w₁ ∧
        installAll (w.subclassOf parent name) (w₁.overridable parent fresh) = .ok candidate ∧
        (bindName name w₁.classes.length).Gives w₁ b w₂ ∧
        if b then
          (host.registered name (w₁.nameOf parent)).Gives
            { w₂ with classes := w₂.classes ++ [candidate] } () w' ∧ r = .ok w₁.classes.length
        else ∃ c, w₂.fetchClass name = some c ∧ r = .ok c ∧ w' = w₂ := by
  unfold createSubclass
  simp only [Step.gives_bind, Step.gives_get]
  constructor
  · rintro ⟨_, _, ⟨rfl, rfl⟩, h⟩
    simp only [hfinal, Bool.false_eq_true, if_false, Step.gives_bind, Step.gives_get,
      overridable_of_isEmpty, Step.gives_ofExcept] at h
    obtain ⟨fresh, w₁, h₁, _, _, ⟨rfl, rfl⟩, candidate, _, ⟨hcand, rfl⟩, b, w₂, h₂, h₃⟩ := h
    refine ⟨fresh, _, candidate, b, w₂, h₁, hcand, h₂, ?_⟩
    cases b with
    | false =>
      simp only [Bool.false_eq_true, if_false, Step.gives_bind, Step.gives_get] at h₃ ⊢
      obtain ⟨_, _, ⟨rfl, rfl⟩, h₃⟩ := h₃
      cases hfetch : World.fetchClass _ name with
      | none => simp [hfetch] at h₃
      | some c =>
        simp only [hfetch, Step.gives_pure] at h₃
        exact ⟨c, rfl, h₃⟩
    | true =>
      simp only [if_true, Step.gives_bind, Step.gives_modify, Step.gives_emit,
        Step.gives_pure] at h₃ ⊢
      obtain ⟨_, _, rfl, _, _, h₃, _, _, rfl, rfl, rfl⟩ := h₃
      exact ⟨h₃, rfl⟩
  · rintro ⟨fresh, w₁, candidate, b, w₂, h₁, hcand, h₂, h₃⟩
    refine ⟨w, w, ⟨rfl, rfl⟩, ?_⟩
    simp only [hfinal, Bool.false_eq_true, if_false, Step.gives_bind, Step.gives_get,
      overridable_of_isEmpty, Step.gives_ofExcept]
    refine ⟨fresh, w₁, h₁, w₁, w₁, ⟨rfl, rfl⟩, candidate, w₁, ⟨hcand, rfl⟩, b, w₂, h₂, ?_⟩
    cases b with
    | false =>
      obtain ⟨c, hfetch, rfl, rfl⟩ := h₃
      simp [hfetch]
    | true =>
      obtain ⟨h₃, rfl⟩ := h₃
      simp only [if_true, Step.gives_bind, Step.gives_modify, Step.gives_emit, Step.gives_pure]
      exact ⟨(), _, rfl, (), _, h₃, (), _, rfl, trivial, rfl⟩

theorem gives_createSubclass_final (host : Host) (name : String) {r : Except Report ClassId}
    (hfinal : (w.get parent).flags.final = true) :
    (createSubclass host name parent).Gives w r w' ↔
      r = .error (.ofComplaint (.finalParent name (w.nameOf parent))) ∧ w' = w := by
  unfold createSubclass
  simp only [Step.gives_bind, Step.gives_get]
  constructor
  · rintro ⟨_, _, ⟨rfl, rfl⟩, h⟩
    simpa only [hfinal, if_true, Step.gives_pure] using h
  · intro h
    refine ⟨w, w, ⟨rfl, rfl⟩, ?_⟩
    simpa only [hfinal, if_true, Step.gives_pure] using h

theorem createSubclass_refused {host : Host} {name : String} {report : Report}
    (h : (createSubclass host name parent).Gives w (.error report) w') :
    (w.get parent).flags.final = true ∧
      report = .ofComplaint (.finalParent name (w.nameOf parent)) ∧ w' = w := by
  cases hfinal : (w.get parent).flags.final with
  | true =>
    obtain ⟨hr, hw'⟩ := (gives_createSubclass_final _ _ hfinal).1 h
    exact ⟨rfl, Except.error.inj hr, hw'⟩
  | false =>
    obtain ⟨_, _, _, b, _, -, -, -, h₃⟩ := (gives_createSubclass _ _ hfinal).1 h
    cases b with
    | false =>
      obtain ⟨c, -, hc, -⟩ := h₃
      cases hc
    | true => cases h₃.2

/-- A world with one more class, a subclass of another one. -/
theorem Standing.made {candidate : Descriptor} (hs : Standing L w) (hparent : parent < L.length)
    (hclasses : w'.classes = w.classes ++ [candidate]) (hslots : w'.slots = w.slots)
    (hoffsets : w'.offsets = w.offsets) (hnames : NamesInside w')
    (hpar : candidate.parent = some parent) (hfinal : candidate.flags.final = false)
    (hsize : candidate.classSize = (w.get parent).classSize) (hmethods : candidate.methods = [])
    (hvtable : candidate.vtable = (Ledger.layout (L.made w parent fresh :: L) L.length).map
      (Ledger.dispatch (L.made w parent fresh :: L) L.length)) :
    Standing (L.made w parent fresh :: L) w' := by
  have hwf := hs.sound.wellFormed.made w hparent fresh
  have hlength : w'.classes.length = w.classes.length + 1 := by
    rw [hclasses, List.length_append, List.length_singleton]
  have hold : ∀ c : Nat, c < L.length → w'.get c = w.get c := by
    intro c hc
    unfold World.get
    rw [hclasses, List.getElem?_append_left (by rw [hs.length_eq]; exact hc)]
  have hself : w'.get L.length = candidate := by
    unfold World.get
    rw [hclasses, ← hs.length_eq, List.getElem?_concat_length, Option.getD_some]
  have hpres : Preserves L w w' := .of_get (by omega) hold fun m _ => congrFun hoffsets m
  have hsettled := hs.sound.settled parent hparent
  refine ⟨hs.sound.cons hwf hpres ?_ fun m hm => (by cases hm), ?_, ?_, hnames, fun c hc => ?_⟩
  · constructor
    · rw [hlength, hs.length_eq]
      exact Nat.lt_succ_self _
    · rw [hself, Ledger.entry_self, hpar]
      rfl
    · rw [hself, Ledger.entry_self, hfinal]
      rfl
    · rw [hself, hvtable]
    · rw [hself, hsize, hsettled.classSize, Ledger.layout_made]
    · rw [Ledger.layout_made, hoffsets]
      exact hsettled.placed
  · rw [hlength, hs.length_eq, List.length_cons]
  · intro t c ht
    rw [hslots] at ht
    have := hs.slots t c ht
    omega
  · by_cases hc' : c = L.length
    · rw [hc']
      unfold Listed
      rw [Ledger.entry_self, hself, hmethods]
      rfl
    · rw [List.length_cons] at hc
      have hlt : c < L.length := by omega
      have hkept := (hs.listed c hlt).preserved hpres (congrArg Descriptor.methods (hold c hlt))
      unfold Listed
      rw [Ledger.entry_cons hc']
      exact hkept

/-- After a subclass is made, the world bears out the ledger with the subclass. -/
theorem createSubclass_standing {name : String} (hs : Standing L w) (hparent : parent < L.length)
    (h : (createSubclass (.answering fresh) name parent).Gives w (.ok w.classes.length) w') :
    Standing (L.made w parent fresh :: L) w' := by
  cases hfinal : (w.get parent).flags.final with
  | true => cases ((gives_createSubclass_final _ _ hfinal).1 h).1
  | false =>
    obtain ⟨fresh', w₁, candidate, b, w₂, h₁, hcand, h₂, h₃⟩ :=
      (gives_createSubclass _ _ hfinal).1 h
    obtain ⟨rfl, rfl⟩ := (Step.gives_pure _ _ _ _).1 h₁
    obtain ⟨r, hw₂, hr⟩ := bindName_gives h₂ hs.names
    have hvtable : (w₁.subclassOf parent name).vtable = (w₁.get parent).vtable := rfl
    rw [hs.installAll_overridable hparent fresh' hvtable] at hcand
    have hcand' := (Except.ok.inj hcand).symm
    cases b with
    | false =>
      obtain ⟨c, hfetch, hc, -⟩ := h₃
      obtain rfl := Except.ok.inj hc
      obtain ⟨_, rfl, hn₂⟩ := hs.names.refused h₂
      exact absurd (hn₂.lt_of_fetch hfetch) (Nat.lt_irrefl _)
    | true =>
      obtain ⟨-, hw'⟩ := (Step.gives_pure _ _ _ _).1 h₃.1
      have hclasses : w'.classes = w₁.classes ++ [candidate] := by rw [hw', hw₂]
      refine hs.made hparent hclasses (by rw [hw', hw₂]) (by rw [hw', hw₂]) ?_ ?_ ?_ ?_ ?_ ?_
      · intro r' hr' v hv
        rw [hw', hw₂] at hr'
        obtain rfl := Option.some.inj hr'
        rw [hclasses, List.length_append, List.length_singleton]
        rcases hr v hv with hlt | ⟨-, heq⟩
        · exact Nat.lt_succ_of_lt hlt
        · rw [heq]
          exact Nat.lt_succ_self _
      · rw [hcand']
        rfl
      · rw [hcand']
        exact hfinal
      · rw [hcand']
        rfl
      · rw [hcand']
        rfl
      · rw [hcand']

/-- A class is found by its name, or made below the given parent or the one that the host names;
or there is no such parent. -/
theorem singletonWith_cases {host : Host} {n : Nat} {name : String} {given : Option ClassId}
    {r : Except Report ClassId} (h : (singletonWith host n name given).Gives w r w') :
    (∃ c, w.fetchClass name = some c ∧ r = .ok c ∧ w' = w) ∨
      (∃ p, given = some p ∧ (createSubclass host name p).Gives w r w') ∨
      (given = none ∧ (host.findParent name).Gives w none w' ∧
        r = .error (.ofComplaint (.noParentClass name))) ∨
      ∃ k parentName w₁ r₁ w₂, n = k + 1 ∧ given = none ∧
        (host.findParent name).Gives w (some parentName) w₁ ∧
        (singletonWith host k parentName none).Gives w₁ r₁ w₂ ∧
        ((∃ report, r₁ = .error report ∧
            r = .error (report.withContext ("resolving parent of " ++ name)) ∧ w' = w₂) ∨
          ∃ p, r₁ = .ok p ∧ (createSubclass host name p).Gives w₂ r w') := by
  unfold singletonWith at h
  simp only [Step.gives_bind, Step.gives_get] at h
  obtain ⟨_, _, ⟨rfl, rfl⟩, h⟩ := h
  cases hfetch : World.fetchClass _ name with
  | some c =>
    simp only [hfetch, Step.gives_pure] at h
    exact .inl ⟨c, rfl, h⟩
  | none =>
    cases given with
    | some p =>
      simp only [hfetch] at h
      exact .inr (.inl ⟨p, rfl, h⟩)
    | none =>
      simp only [hfetch, Step.gives_bind] at h
      obtain ⟨answer, w₁, h₁, h⟩ := h
      cases answer with
      | none =>
        obtain ⟨hr, rfl⟩ := (Step.gives_pure _ _ _ _).1 h
        exact .inr (.inr (.inl ⟨rfl, h₁, hr⟩))
      | some parentName =>
        cases n with
        | zero => simp at h
        | succ k =>
          simp only [Step.gives_bind] at h
          obtain ⟨r₁, w₂, h₂, h⟩ := h
          refine .inr (.inr (.inr ⟨k, parentName, w₁, r₁, w₂, rfl, rfl, h₁, h₂, ?_⟩))
          cases r₁ with
          | error report =>
            obtain ⟨hr, rfl⟩ := (Step.gives_pure _ _ _ _).1 h
            exact .inl ⟨report, rfl, hr, rfl⟩
            | ok p => exact .inr ⟨p, rfl, h⟩

/-- A way to keep track of a world from call to call: what is known of it, what it is to know no
less, and how many of its classes are known. -/
structure Track (κ : Type) where
  knows : κ → World → Prop
  grows : κ → κ → Prop
  size : κ → Nat
  refl : ∀ k, grows k k
  trans : ∀ {i j k}, grows i j → grows j k → grows i k
  bound : ∀ {k w name c}, knows k w → w.fetchClass name = some c → c < size k

/-- The step loses track of no world; what it answers is as `Q` says. -/
def Track.Along {κ α : Type} (T : Track κ) (x : Step World α) (Q : κ → α → Prop) (k : κ) : Prop :=
  ∀ w a w', T.knows k w → x.Gives w a w' → ∃ k', T.grows k k' ∧ T.knows k' w' ∧ Q k' a

/-- Keeping track of a world when a class is asked for by name comes down to keeping track of it
when the host is asked for a parent and when a subclass is made. -/
theorem Track.singletonWith {κ : Type} (T : Track κ) {host : Host}
    (hfind : ∀ name k, T.Along (host.findParent name) (fun _ _ => True) k)
    (hmake : ∀ name k (p : Nat), p < T.size k → T.Along (createSubclass host name p)
      (fun k' r => ∀ c : Nat, r = .ok c → c < T.size k') k)
    (n : Nat) (name : String) {given : Option ClassId} {k : κ}
    (hgiven : ∀ p : Nat, given = some p → p < T.size k) :
    T.Along (World.singletonWith host n name given)
      (fun k' r => ∀ c : Nat, r = .ok c → c < T.size k') k := by
  induction n using Nat.strongRecOn generalizing name given k with
  | ind n ih =>
    intro w r w' hw h
    rcases singletonWith_cases h with ⟨c, hfetch, rfl, rfl⟩ | ⟨p, hp, hcreate⟩ |
      ⟨-, hask, rfl⟩ | ⟨m, parentName, w₁, r₁, w₂, rfl, -, hask, hparent, hlast⟩
    · refine ⟨k, T.refl k, hw, fun c' hc => ?_⟩
      obtain rfl := Except.ok.inj hc
      exact T.bound hw hfetch
    · exact hmake name k p (hgiven p hp) w r w' hw hcreate
    · obtain ⟨k', hgrows, hw', -⟩ := hfind name k w _ w' hw hask
      exact ⟨k', hgrows, hw', fun c hc => by cases hc⟩
    · obtain ⟨k₁, hgrows₁, hw₁, -⟩ := hfind name k w _ w₁ hw hask
      obtain ⟨k₂, hgrows₂, hw₂, hinside⟩ :=
        ih m (Nat.lt_succ_self m) parentName (fun p hp => by cases hp) w₁ r₁ w₂ hw₁ hparent
      have hgrows := T.trans hgrows₁ hgrows₂
      rcases hlast with ⟨report, -, rfl, rfl⟩ | ⟨p, hp, hcreate⟩
      · exact ⟨k₂, hgrows, hw₂, fun c hc => by cases hc⟩
      · obtain ⟨k₃, hgrows₃, hw₃, hinside₃⟩ := hmake name k₂ p (hinside p hp) w₂ r w' hw₂ hcreate
        exact ⟨k₃, T.trans hgrows hgrows₃, hw₃, hinside₃⟩

end World

end ObjectSystem
