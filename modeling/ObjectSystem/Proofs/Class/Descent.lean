import Mathlib.Data.List.Perm.Subperm
import ObjectSystem.Proofs.Class.Apart
import ObjectSystem.Proofs.Class.Marks

/-! # Chains of declared parents

A host declares the parents of its classes by name.  `w.Leads name path top` says that from `name`
the declarations lead over the names of `path`, none of which is bound, to `top`.  A chain that
ends passes through no name twice, so it is never longer than the list of declarations.

The classes that are made along a chain stand in a line: each is a copy of the class at the end of
the chain, below the one that was made before it (`Line`).  Whenever a class is asked for by name
and found to be made, it is the last one of such a line (`singletonWith_line`). -/

namespace ObjectSystem

/-- A copy of a class under another name, below some class, with no methods of its own. -/
def Descriptor.copyBelow (d : Descriptor) (parent : ClassId) (name : String)
    (vtable : List (Option Code)) : Descriptor :=
  { d with
    handles := 1
    parent := some parent
    name? := some name
    methods? := some []
    vtable := vtable }

namespace World

variable {w w' w₁ w₂ : World} {bound : List (Binding ClassId)} {name next top : String}
  {path names : List String} {K parent : Nat} {c : ClassId} {r : Except Report ClassId}

/-! ### Chains -/

/-- From a name the declared parents lead over the names of a path, none of them bound, to another
name. -/
inductive Leads (w : World) : String → List String → String → Prop
  | here (name : String) : Leads w name [] name
  | up {name next top : String} {path : List String} (unbound : w.fetchClass name = none)
    (declared : w.host.parentOf name = some next) (rest : Leads w next path top) :
    Leads w name (name :: path) top

/-- No chain goes on from a name: it is bound, or there is no parent declared for it. -/
def Ends (w : World) (top : String) : Prop :=
  w.fetchClass top ≠ none ∨ w.host.parentOf top = none

theorem Ends.of_bound (h : w.fetchClass top = some c) : w.Ends top :=
  .inl fun hnone => by rw [h] at hnone; cases hnone

theorem Ends.not_up (hend : w.Ends name) (unbound : w.fetchClass name = none)
    (declared : w.host.parentOf name = some next) : False := by
  rcases hend with hbound | hlast
  · exact hbound unbound
  · rw [hlast] at declared
    cases declared

theorem Leads.unique {path' : List String} {top' : String} (h : w.Leads name path top)
    (h' : w.Leads name path' top') (hend : w.Ends top) (hend' : w.Ends top') : path = path' := by
  induction h generalizing path' with
  | here =>
    cases h' with
    | here => rfl
    | up unbound declared => exact (hend.not_up unbound declared).elim
  | up unbound declared _ ih =>
    cases h' with
    | here => exact (hend'.not_up unbound declared).elim
    | up _ declared' rest' =>
      obtain rfl := Option.some.inj (declared.symm.trans declared')
      rw [ih rest' hend]

theorem Leads.from_mem {n : String} (h : w.Leads name path top) (hn : n ∈ path) :
    ∃ rest, w.Leads n rest top ∧ rest.length ≤ path.length := by
  induction h with
  | here => cases hn
  | @up name next top path unbound declared rest ih =>
    rcases List.mem_cons.1 hn with rfl | hn
    · exact ⟨_, .up unbound declared rest, Nat.le_refl _⟩
    · obtain ⟨rest', hleads, hle⟩ := ih hn
      exact ⟨rest', hleads, Nat.le_succ_of_le hle⟩

theorem Leads.mem {n : String} (h : w.Leads name path top) (hn : n ∈ path) :
    w.fetchClass n = none ∧ ∃ next, w.host.parentOf n = some next := by
  induction h with
  | here => cases hn
  | up unbound declared _ ih =>
    rcases List.mem_cons.1 hn with rfl | hn
    · exact ⟨unbound, _, declared⟩
    · exact ih hn

theorem Leads.not_mem (h : w.Leads next path top) (hend : w.Ends top)
    (unbound : w.fetchClass name = none) (declared : w.host.parentOf name = some next) :
    name ∉ path := by
  intro hmem
  obtain ⟨rest, hleads, hle⟩ := h.from_mem hmem
  have hlength := congrArg List.length ((Leads.up unbound declared h).unique hleads hend hend)
  rw [List.length_cons] at hlength
  omega

theorem Leads.nodup (h : w.Leads name path top) (hend : w.Ends top) : path.Nodup := by
  induction h with
  | here => exact List.nodup_nil
  | up unbound declared rest ih =>
    exact List.nodup_cons.2 ⟨rest.not_mem hend unbound declared, ih hend⟩

theorem mem_of_lookup {β : Type} {l : List (String × β)} {key : String} {v : β}
    (h : l.lookup key = some v) : key ∈ l.map Prod.fst := by
  induction l with
  | nil => cases h
  | cons entry l ih =>
    obtain ⟨k, v'⟩ := entry
    rw [List.map_cons, List.mem_cons]
    by_cases hk : key = k
    · exact .inl hk
    · rw [List.lookup_cons, beq_eq_false_iff_ne.2 hk] at h
      exact .inr (ih h)

theorem Leads.length_le_of_nodup (h : w.Leads name path top) (hnodup : path.Nodup) :
    path.length ≤ w.host.parents.length := by
  have hdeclared : path ⊆ w.host.parents.map Prod.fst := by
    intro n hn
    obtain ⟨-, next, hnext⟩ := h.mem hn
    exact mem_of_lookup hnext
  have hle := (List.subperm_of_subset hnodup hdeclared).length_le
  rwa [List.length_map] at hle

theorem Leads.length_le (h : w.Leads name path top) (hend : w.Ends top) :
    path.length ≤ w.host.parents.length :=
  h.length_le_of_nodup (h.nodup hend)

/-! ### What is bound in a world -/

/-- The names that are bound in a world are those of a list of bindings, in the order in which they
came in.  That is what registries are like after any calls (`Registry.Represents.after`). -/
def Holds (w : World) (bound : List (Binding ClassId)) : Prop :=
  w.registry.elim (bound = []) (·.Represents bound)

/-- How many names there can be. -/
def capacity (w : World) : Nat :=
  w.registry.elim (Registry.capacityFor defaultCapacity) Registry.capacity

theorem Holds.of_calls {hash : String → Nat} {requested : Nat}
    {calls : List (Registry.Call ClassId)}
    (h : w.registry = some ((Registry.new hash requested).after calls)) :
    w.Holds ((Registry.new hash requested).accepted calls) := by
  unfold Holds
  rw [h]
  exact ((Registry.Represents.new hash requested).after calls).1

theorem Holds.fetchClass_eq (h : w.Holds bound) (name : String) :
    w.fetchClass name = (bound.find? (·.key = name)).map Binding.value := by
  unfold Holds at h
  unfold fetchClass
  cases hr : w.registry with
  | none =>
    rw [hr] at h
    obtain rfl : bound = [] := h
    rfl
  | some r =>
    rw [hr] at h
    exact Registry.Represents.fetch_eq h name

theorem Holds.fetchClass_eq_none (h : w.Holds bound) :
    w.fetchClass name = none ↔ name ∉ bound.map Binding.key := by
  rw [h.fetchClass_eq, Option.map_eq_none_iff, List.find?_eq_none]
  simp

theorem Holds.fetchClass_of_mem {b : Binding ClassId} (h : w.Holds bound) (hb : b ∈ bound) :
    w.fetchClass b.key = some b.value := by
  unfold Holds at h
  unfold fetchClass
  cases hr : w.registry with
  | none =>
    rw [hr] at h
    obtain rfl : bound = [] := h
    cases hb
  | some r =>
    rw [hr] at h
    have hfound := h.probe_bound hb
    change r.fetch b.key = some b.value
    unfold Registry.fetch
    rw [hfound]

theorem Holds.represents (h : w.Holds bound) :
    (w.registry.getD (.new w.hash defaultCapacity)).Represents bound ∧
      (w.registry.getD (.new w.hash defaultCapacity)).capacity = w.capacity := by
  unfold Holds at h
  unfold capacity
  cases hr : w.registry with
  | none =>
    rw [hr] at h
    obtain rfl : bound = [] := h
    exact ⟨Registry.Represents.new _ _, Registry.capacity_new _ _⟩
  | some r =>
    rw [hr] at h
    exact ⟨h, rfl⟩

theorem Holds.bindName (h : w.Holds bound) (hname : w.fetchClass name = none) (c : ClassId) :
    (bound.length < w.capacity ∧
      ∃ r, World.bindName name c w = ⟨{ w with registry := some r }, .ok true, []⟩ ∧
        r.Represents (bound ++ [⟨name, c⟩]) ∧ r.capacity = w.capacity) ∨
    (bound.length = w.capacity ∧
      (World.bindName name c w).answer = .error (.fault (.registryFull w.capacity))) := by
  obtain ⟨hrep, hcapacity⟩ := h.represents
  have hnot := h.fetchClass_eq_none.1 hname
  rw [bindName_apply]
  rcases hrep.register name c with ⟨hmem, -⟩ | ⟨-, hroom, r, heq, hcap, hrep'⟩ | ⟨-, hfull, heq⟩
  · exact absurd hmem hnot
  · rw [heq]
    exact .inl ⟨hcapacity ▸ hroom, r, rfl, hrep', hcap.trans hcapacity⟩
  · rw [heq]
    exact .inr ⟨hfull.trans hcapacity, by rw [← hcapacity]; rfl⟩

theorem Holds.length_eq (h : w.Holds bound) : bound.length = w.registry.elim 0 Registry.size := by
  unfold Holds at h
  cases hr : w.registry with
  | none =>
    rw [hr] at h
    obtain rfl : bound = [] := h
    rfl
  | some r =>
    rw [hr] at h
    exact h.size_eq.symm

/-- Bootstrapping knows of names no more than how to bind them. -/
theorem Apart.holds : Apart fun w => ∃ bound, w.Holds bound where
  of_same _ hregistry := by
    rintro ⟨bound, h⟩
    exact ⟨bound, by rwa [Holds, hregistry]⟩
  register c w := by
    rintro ⟨bound, h⟩
    obtain ⟨hrep, -⟩ := h.represents
    unfold World.register
    rw [bindName_apply]
    rcases hrep.register (w.nameOf c) c with ⟨-, heq⟩ | ⟨-, -, r, heq, -, hrep'⟩ | ⟨-, -, heq⟩
    · rw [heq]
      exact ⟨bound, hrep⟩
    · rw [heq]
      exact ⟨_, hrep'⟩
    · rw [heq]
      exact ⟨bound, hrep⟩

/-! ### A line of classes -/

/-- The class that was made last after a number of new ones: at first one that was there. -/
def lastMade (w : World) (K : ClassId) : Nat → ClassId
  | 0 => K
  | i + 1 => w.classes.length + i

/-- Classes were made for some names, in order, each below the one before it and the first below
`K`.  They are copies of `K` under their own names, without methods, and the host was told of each
when it was made.  Nothing else is changed. -/
structure Line (w : World) (bound : List (Binding ClassId)) (K : ClassId) (names : List String)
    (w' : World) : Prop where
  frame : w' = { w with
    registry := w'.registry
    classes := w'.classes
    host := { w.host with registered := w'.host.registered } }
  length_eq : w'.classes.length = w.classes.length + names.length
  old : ∀ c : Nat, c < w.classes.length → w'.get c = w.get c
  new : ∀ (i : Nat) n, names[i]? = some n → ∃ vtable : List (Option Code),
    vtable.length = (w.get K).vtable.length ∧
      w'.get (w.classes.length + i) = (w.get K).copyBelow (w.lastMade K i) n vtable
  told : w'.host.registered = w.host.registered ++ names.zip (w.nameOf K :: names)
  holds : w'.Holds (bound ++ names.mapIdx fun i n => ⟨n, w.classes.length + i⟩)
  capacity : w'.capacity = w.capacity

theorem Line.refl (h : w.Holds bound) (K : ClassId) : Line w bound K [] w where
  frame := rfl
  length_eq := rfl
  old _ _ := rfl
  new i n hn := by simp at hn
  told := (List.append_nil _).symm
  holds := by
    rw [List.mapIdx_nil, List.append_nil]
    exact h
  capacity := rfl

theorem Line.host_eq (h : Line w bound K names w') :
    w'.host.parents = w.host.parents ∧ w'.host.methods = w.host.methods := by
  rw [h.frame]
  exact ⟨rfl, rfl⟩

/-- The last class of a line is a copy of the first parent as well, and it has the last name. -/
theorem Line.last (h : Line w bound K names w') :
    (w'.get (w.lastMade K names.length)).vtable.length = (w.get K).vtable.length ∧
    w'.nameOf (w.lastMade K names.length) =
      (w.nameOf K :: names).getLast (List.cons_ne_nil _ _) ∧
    (w'.get (w.lastMade K names.length)).copyBelow = (w.get K).copyBelow := by
  rcases List.eq_nil_or_concat names with rfl | ⟨older, n, rfl⟩
  · have hget : w'.get K = w.get K := by
      by_cases hK : K < w.classes.length
      · exact h.old K hK
      · have hlength : w'.classes.length = w.classes.length := h.length_eq
        rw [get_of_length_le (Nat.le_of_not_lt hK), get_of_length_le (by omega)]
    exact ⟨congrArg (·.vtable.length) hget, congrArg Descriptor.name hget,
      congrArg Descriptor.copyBelow hget⟩
  · rw [List.concat_eq_append] at *
    obtain ⟨vtable, hlength, hget⟩ := h.new older.length n (by simp)
    have hlast : w.lastMade K (older ++ [n]).length = w.classes.length + older.length := by
      rw [List.length_append]
      rfl
    unfold nameOf
    rw [hlast, hget]
    exact ⟨hlength, by simp [Descriptor.name, Descriptor.copyBelow], rfl⟩

theorem Line.last_flags (h : Line w bound K names w') :
    (w'.get (w.lastMade K names.length)).flags = (w.get K).flags :=
  congrArg (fun copy => (copy 0 "" []).flags) h.last.2.2

/-- Of a class that can have subclasses a subclass is made under a name that is not bound: a copy of
it, registered, of which the host is told. -/
theorem Holds.createSubclass (h : w.Holds bound) (hname : w.fetchClass name = none)
    (hfinal : (w.get parent).flags.final = false)
    (hmake : (World.createSubclass .table name parent).Gives w r w') :
    r = .ok w.classes.length ∧ ∃ reg, ∃ vtable : List (Option Code),
      vtable.length = (w.get parent).vtable.length ∧
      reg.Represents (bound ++ [⟨name, w.classes.length⟩]) ∧ reg.capacity = w.capacity ∧
      w' = { w with
        registry := some reg
        classes := w.classes ++ [(w.get parent).copyBelow parent name vtable]
        host := w.host.report name (w.nameOf parent) } := by
  obtain ⟨fresh, w₁, candidate, b, w₂, hfresh, hcand, hbind, hlast⟩ :=
    (gives_createSubclass _ _ hfinal).1 hmake
  obtain ⟨rfl, rfl⟩ := (Step.gives_gets _ _ _ _).1 hfresh
  obtain ⟨vtable, hlength, rfl⟩ := installAll_vtable hcand
  obtain ⟨hb, hw₂⟩ := hbind
  rcases h.bindName hname w₁.classes.length with ⟨-, reg, heq, hrep, hcap⟩ | ⟨-, hfull⟩
  · rw [heq] at hb hw₂
    obtain rfl : true = b := Except.ok.inj hb
    obtain ⟨hregistered, hr⟩ := hlast
    replace hregistered := (Step.gives_modify _ _ _ _).1 hregistered
    refine ⟨hr, reg, vtable, hlength, hrep, hcap, ?_⟩
    rw [hregistered, ← hw₂]
    rfl
  · rw [hb] at hfull
    cases hfull

theorem zip_cons_concat (l : List String) (x a : String) :
    (l ++ [a]).zip (x :: (l ++ [a])) =
      l.zip (x :: l) ++ [(a, (x :: l).getLast (List.cons_ne_nil _ _))] := by
  induction l generalizing x with
  | nil => rfl
  | cons b l ih =>
    rw [List.cons_append, List.zip_cons_cons, ih b, List.zip_cons_cons, List.cons_append,
      List.getLast_cons (List.cons_ne_nil _ _)]

/-- A class below the last one of a line, under a name that is not bound, makes the line longer. -/
theorem Line.snoc (h : Line w bound K names w₁) (hname : w₁.fetchClass name = none)
    (hfinal : (w.get K).flags.final = false)
    (hmake : (World.createSubclass .table name (w.lastMade K names.length)).Gives w₁ r w') :
    r = .ok (w.lastMade K (names.length + 1)) ∧ Line w bound K (names ++ [name]) w' := by
  obtain ⟨hlength, hnameOf, hcopy⟩ := h.last
  have hfinal₁ : (w₁.get (w.lastMade K names.length)).flags.final = false := by
    rw [h.last_flags, hfinal]
  obtain ⟨hr, reg, vtable, hlength', hrep, hcap, hw'⟩ :=
    h.holds.createSubclass hname hfinal₁ hmake
  rw [h.length_eq] at hr
  rw [hcopy] at hw'
  have hclasses := congrArg World.classes hw'
  have hregistry := congrArg World.registry hw'
  have hhost := congrArg World.host hw'
  have hget : ∀ d : Nat, w'.get d = if d = w₁.classes.length then
      (w.get K).copyBelow (w.lastMade K names.length) name vtable else w₁.get d := by
    intro d
    rw [← get_append w₁ _ w₁.slots]
    exact congrArg (fun l : List Descriptor => l[d]?.getD (.blank 0)) hclasses
  refine ⟨hr, ?_, ?_, ?_, ?_, ?_, ?_, ?_⟩
  · rw [hclasses, hregistry, hhost, hw', h.frame]
    rfl
  · rw [hclasses, List.length_append, List.length_append, List.length_singleton, h.length_eq]
    exact Nat.add_assoc _ _ _
  · intro d hd
    have hle := h.length_eq
    rw [hget, if_neg (by omega), h.old d hd]
  · intro i n hn
    rw [hget, h.length_eq]
    by_cases hi : i = names.length
    · subst hi
      obtain rfl : name = n := by simpa using hn
      exact ⟨vtable, hlength'.trans hlength, if_pos rfl⟩
    · have hlt := (List.getElem?_eq_some_iff.1 hn).1
      rw [List.length_append, List.length_singleton] at hlt
      rw [List.getElem?_append_left (by omega)] at hn
      rw [if_neg (by omega)]
      exact h.new i n hn
  · rw [hhost, zip_cons_concat, ← List.append_assoc, ← h.told, ← hnameOf]
    rfl
  · unfold Holds
    rw [List.mapIdx_concat, ← List.append_assoc, ← h.length_eq, hregistry]
    exact hrep
  · unfold World.capacity
    rw [hregistry]
    exact hcap.trans h.capacity

theorem Line.fetchClass_eq_none (h : Line w bound K names w') (hw : w.Holds bound) :
    w'.fetchClass name = none ↔ w.fetchClass name = none ∧ name ∉ names := by
  have hkeys : (names.mapIdx fun i n => (⟨n, w.classes.length + i⟩ : Binding ClassId)).map
      Binding.key = names := by
    refine List.ext_getElem (by simp) fun i hi hi' => ?_
    simp
  rw [h.holds.fetchClass_eq_none, hw.fetchClass_eq_none, List.map_append, List.mem_append, hkeys,
    not_or]

/-! ### Asking for a class -/

theorem singletonWith_bound (host : Host) (n : Nat) (given : Option ClassId)
    (h : w.fetchClass name = some c) :
    singletonWith host n name given w = ⟨w, .ok (.ok c), []⟩ := by
  unfold singletonWith
  rw [Step.bind_of_ok _ (rfl : Step.get w = ⟨w, .ok w, []⟩)]
  simp only [h]
  rfl

/-- A class that is made for a name is the last of a line of classes, one for each name on the chain
of declared parents up to the first that is bound. -/
theorem singletonWith_line {n : Nat} (hw : w.Holds bound) (hname : w.fetchClass name = none)
    (h : (singletonWith .table n name none).Gives w (.ok c) w') :
    ∃ path top, ∃ K : Nat, w.Leads name path top ∧ w.fetchClass top = some K ∧
      (w.get K).flags.final = false ∧ Line w bound K path.reverse w' ∧
      c = w.lastMade K path.length := by
  induction n using Nat.strong_induction_on generalizing name c w' with
  | _ n ih =>
    rcases singletonWith_cases h with ⟨c, hfetch, -, -⟩ | ⟨p, hp, -⟩ | ⟨-, -, hr⟩ |
      ⟨k, next, w₁, r₁, w₂, rfl, -, hparent, hrest, hmade⟩
    · rw [hname] at hfetch
      cases hfetch
    · cases hp
    · cases hr
    · obtain ⟨hdeclared, rfl⟩ := (Step.gives_gets _ _ _ _).1 hparent
      replace hmade :
          ∃ p, r₁ = .ok p ∧ (World.createSubclass .table name p).Gives w₂ (.ok c) w' := by
        rcases hmade with ⟨report, -, hr, -⟩ | hmade
        · cases hr
        · exact hmade
      obtain ⟨p, rfl, hmade⟩ := hmade
      obtain ⟨path, top, K, hleads, htop, hfinal, hline, rfl⟩ : ∃ path top, ∃ K : Nat,
          w₁.Leads next path top ∧ w₁.fetchClass top = some K ∧ (w₁.get K).flags.final = false ∧
            Line w₁ bound K path.reverse w₂ ∧ p = w₁.lastMade K path.length := by
        cases hnext : w₁.fetchClass next with
        | none => exact ih k (Nat.lt_succ_self k) hnext hrest
        | some K =>
          obtain ⟨hanswer, hstate⟩ := hrest
          rw [singletonWith_bound .table k none hnext] at hanswer hstate
          obtain rfl : w₁ = w₂ := hstate
          obtain rfl : K = p := Except.ok.inj (Except.ok.inj hanswer)
          refine ⟨[], next, K, .here next, hnext, ?_, .refl hw K, rfl⟩
          cases hfinal : (w₁.get K).flags.final with
          | false => rfl
          | true => cases ((gives_createSubclass_final _ _ hfinal).1 hmade).1
      have hnot := hleads.not_mem (.of_bound htop) hname hdeclared.symm
      rw [← List.length_reverse] at hmade
      obtain ⟨hc, hline'⟩ := hline.snoc
        ((hline.fetchClass_eq_none hw).2 ⟨hname, fun hmem => hnot (List.mem_reverse.1 hmem)⟩)
        hfinal hmade
      rw [List.length_reverse] at hc
      refine ⟨name :: path, top, K, .up hname hdeclared.symm hleads, htop, hfinal, ?_,
        Except.ok.inj hc⟩
      rw [List.reverse_cons]
      exact hline'

end World

end ObjectSystem
