import ObjectSystem.Proofs.Class.Subclassing

/-! # Kinds of worlds

What is shown of the worlds that some calls lead to is shown of a `Kind`: worlds with the parcels
that were bootstrapped on the way, and what is known of two of them if one comes after the other.
The fields of a kind are what there is to show of it, namely that a name can be bound and a class
entered under it.

A host may do anything that leads from worlds of the kind to such worlds (`Kind.Hosts`).  Then so
does asking it for a class by name (`Kind.keeps_singletonWith`). -/

namespace ObjectSystem

open World

/-- A kind of worlds, each with a history of parcels, and how one that comes later differs. -/
structure Kind where
  of : List ParcelSpec → World → Prop
  onward : World → World → Prop
  refl : ∀ w, onward w w
  trans : ∀ {w w' w''}, onward w w' → onward w' w'' → onward w w''
  length_le : ∀ {w w'}, onward w w' → w.classes.length ≤ w'.classes.length
  inside : ∀ {history w name} {c : Nat}, of history w → w.fetchClass name = some c →
    c < w.classes.length
  /-- The host declares something. -/
  declared : ∀ {history w} (f : HostTable → HostTable), of history w →
    onward w { w with host := f w.host } ∧ of history { w with host := f w.host }
  /-- A name is not bound, as it was bound before. -/
  refused : ∀ {history w w' name c}, of history w → (bindName name c).Gives w false w' →
    onward w w' ∧ of history w'
  /-- A class is entered that was made of a parent as it was before the host had answered. -/
  entered : ∀ {history w w₁ w₂ name fresh candidate} {parent : Nat}, of history w₁ →
    onward w w₁ → parent < w.classes.length → (w.get parent).flags.final = false →
    installAll (w.subclassOf parent name) (w₁.overridable parent fresh) = .ok candidate →
    (bindName name w₁.classes.length).Gives w₁ true w₂ →
    onward w₁ { w₂ with classes := w₂.classes ++ [candidate] } ∧
      of history { w₂ with classes := w₂.classes ++ [candidate] }

namespace Kind

variable {K : Kind} {α β : Type} {k n root parent : Nat} {host : Host} {w w' : World}
  {history : List ParcelSpec} {name : String} {r : Except Report ClassId} {given : Option ClassId}

/-- Begun in a world of the kind with at least `k` classes, the step leaves one that is onward. -/
def Keeps (K : Kind) (k : Nat) (x : Step World α) : Prop :=
  ∀ history w a w', k ≤ w.classes.length → K.of history w → x.Gives w a w' →
    K.onward w w' ∧ ∃ more, K.of (history ++ more) w'

/-- A host that does no more than what leads to worlds of the kind. -/
structure Hosts (K : Kind) (k : Nat) (host : Host) : Prop where
  findParent : ∀ name, K.Keeps k (host.findParent name)
  freshMethods : ∀ name, K.Keeps k (host.freshMethods name)
  registered : ∀ name parent, K.Keeps k (host.registered name parent)

/-! ### Making classes -/

/-- A subclass is made, or not, by a host that does no more than what leads to such worlds. -/
theorem createSubclass (hhost : K.Hosts k host) (hk : k ≤ w.classes.length) (hw : K.of history w)
    (hparent : parent < w.classes.length)
    (h : (World.createSubclass host name parent).Gives w r w') :
    K.onward w w' ∧ (∃ more, K.of (history ++ more) w') ∧
      ∀ c : Nat, r = .ok c → c < w'.classes.length := by
  cases r with
  | error report =>
    obtain ⟨-, -, rfl⟩ := createSubclass_refused h
    exact ⟨K.refl _, ⟨[], (List.append_nil history).symm ▸ hw⟩, nofun⟩
  | ok c =>
    cases hfinal : (w.get parent).flags.final with
    | true => cases ((gives_createSubclass_final _ _ hfinal).1 h).1
    | false =>
      obtain ⟨fresh, w₁, candidate, b, w₂, h₁, hcand, h₂, h₃⟩ :=
        (gives_createSubclass _ _ hfinal).1 h
      obtain ⟨he₁, more, hw₁⟩ := hhost.freshMethods name _ _ _ _ hk hw h₁
      cases b with
      | false =>
        obtain ⟨c', hfetch, hc, rfl⟩ := h₃
        obtain ⟨he₂, hw₂⟩ := K.refused hw₁ h₂
        refine ⟨K.trans he₁ he₂, ⟨more, hw₂⟩, fun d hd => ?_⟩
        obtain rfl : d = c' := Except.ok.inj (hd.symm.trans hc)
        exact K.inside hw₂ hfetch
      | true =>
        obtain ⟨he₂, hw₂⟩ := K.entered hw₁ he₁ hparent hfinal hcand h₂
        obtain ⟨hregistered, hc⟩ := h₃
        have he := K.trans he₁ he₂
        obtain ⟨he₃, more', hw'⟩ :=
          hhost.registered _ _ _ _ _ _ (Nat.le_trans hk (K.length_le he)) hw₂ hregistered
        refine ⟨K.trans he he₃, ⟨more ++ more', List.append_assoc _ _ _ ▸ hw'⟩, fun d hd => ?_⟩
        obtain rfl : d = _ := Except.ok.inj (hd.symm.trans hc)
        obtain ⟨reg, rfl⟩ := bindName_registry h₂
        refine Nat.lt_of_lt_of_le ?_ (K.length_le he₃)
        rw [List.length_append]
        exact Nat.lt_succ_self _

/-- The worlds of a kind are known by their histories. -/
def track (K : Kind) (k : Nat) : Track (List ParcelSpec × World) where
  knows i w := w = i.2 ∧ k ≤ w.classes.length ∧ K.of i.1 w
  grows i j := K.onward i.2 j.2 ∧ ∃ more, j.1 = i.1 ++ more
  size i := i.2.classes.length
  refl i := ⟨K.refl i.2, [], (List.append_nil i.1).symm⟩
  trans := by
    rintro i j l ⟨he, more, hmore⟩ ⟨he', more', hmore'⟩
    exact ⟨K.trans he he', more ++ more', by rw [hmore', hmore, List.append_assoc]⟩
  bound := by
    rintro ⟨history, _⟩ w name c ⟨rfl, -, hw⟩ hfetch
    exact K.inside hw hfetch

/-- A class is asked for by name, of a host that does no more than what leads to such worlds. -/
theorem singletonWith (hhost : K.Hosts k host) (hk : k ≤ w.classes.length) (hw : K.of history w)
    (hgiven : ∀ p : Nat, given = some p → p < w.classes.length)
    (h : (World.singletonWith host n name given).Gives w r w') :
    K.onward w w' ∧ (∃ more, K.of (history ++ more) w') ∧
      ∀ c : Nat, r = .ok c → c < w'.classes.length := by
  have hfind : ∀ name i, (K.track k).Along (host.findParent name) (fun _ _ => True) i := by
    rintro name ⟨history, _⟩ w a w' ⟨rfl, hk, hw⟩ hask
    obtain ⟨he, more, hw'⟩ := hhost.findParent name _ _ _ _ hk hw hask
    exact ⟨(_, w'), ⟨he, more, rfl⟩, ⟨rfl, Nat.le_trans hk (K.length_le he), hw'⟩, trivial⟩
  have hmake : ∀ name i (p : Nat), p < (K.track k).size i →
      (K.track k).Along (World.createSubclass host name p)
        (fun j r => ∀ c : Nat, r = .ok c → c < (K.track k).size j) i := by
    rintro name ⟨history, _⟩ p hp w r w' ⟨rfl, hk, hw⟩ hcreate
    obtain ⟨he, ⟨more, hw'⟩, hinside⟩ := createSubclass hhost hk hw hp hcreate
    exact ⟨(_, w'), ⟨he, more, rfl⟩, ⟨rfl, Nat.le_trans hk (K.length_le he), hw'⟩, hinside⟩
  have hknown : (K.track k).knows (history, w) w := ⟨rfl, hk, hw⟩
  obtain ⟨⟨_, _⟩, ⟨he, more, rfl⟩, ⟨rfl, -, hw'⟩, hinside⟩ :=
    (K.track k).singletonWith hfind hmake n name hgiven w r w' hknown h
  exact ⟨he, ⟨more, hw'⟩, hinside⟩

theorem keeps_singletonWith (hhost : K.Hosts k host) (n : Nat) (name : String)
    (hgiven : ∀ p : Nat, given = some p → p < k) :
    K.Keeps k (World.singletonWith host n name given) := by
  intro history w r w' hk hw h
  obtain ⟨he, hmore, -⟩ :=
    singletonWith hhost hk hw (fun p hp => Nat.lt_of_lt_of_le (hgiven p hp) hk) h
  exact ⟨he, hmore⟩

/-! ### Hosts -/

theorem keeps_bind {x : Step World α} {f : α → Step World β} (hx : K.Keeps k x)
    (hf : ∀ a, K.Keeps k (f a)) : K.Keeps k (x >>= f) := by
  intro history w b w' hk hw h
  obtain ⟨a, w₁, h₁, h₂⟩ := (Step.gives_bind _ _ _ _ _).1 h
  obtain ⟨he₁, more₁, hw₁⟩ := hx history w a w₁ hk hw h₁
  obtain ⟨he₂, more₂, hw₂⟩ := hf a _ w₁ b w' (Nat.le_trans hk (K.length_le he₁)) hw₁ h₂
  rw [List.append_assoc] at hw₂
  exact ⟨K.trans he₁ he₂, _, hw₂⟩

variable (K k)

theorem keeps_gets (f : World → α) : K.Keeps k (Step.gets f) := by
  intro history w a w' _ hw h
  obtain ⟨-, rfl⟩ := (Step.gives_gets _ _ _ _).1 h
  exact ⟨K.refl _, [], (List.append_nil history).symm ▸ hw⟩

theorem keeps_declare (f : HostTable → HostTable) :
    K.Keeps k (Step.modify fun w : World => { w with host := f w.host }) := by
  intro history w a w' _ hw h
  rw [Step.gives_modify] at h
  subst h
  obtain ⟨he, hw'⟩ := K.declared f hw
  exact ⟨he, [], (List.append_nil history).symm ▸ hw'⟩

theorem hosts_none : K.Hosts k .none where
  findParent _ := K.keeps_gets k fun _ => Option.none
  freshMethods _ := K.keeps_gets k fun _ => []
  registered _ _ := K.keeps_gets k fun _ => ()

theorem hosts_table : K.Hosts k .table where
  findParent cls := K.keeps_gets k fun w => w.host.parentOf cls
  freshMethods cls := K.keeps_gets k fun w => w.host.methodsOf cls
  registered cls parent := K.keeps_declare k fun t => t.report cls parent

variable {k}

theorem hosts_eager (hroot : root < k) : K.Hosts k (.eager root) where
  findParent := (K.hosts_table k).findParent
  freshMethods cls := keeps_bind (keeps_singletonWith (K.hosts_none k) 0 cls fun _ hp =>
    Option.some.inj hp ▸ hroot) fun _ => (K.hosts_table k).freshMethods cls
  registered := (K.hosts_table k).registered

end Kind

end ObjectSystem
