import ObjectSystem.Proofs.Class.Programs

/-! # Whether the resolution of a name ends

Nothing keeps a host from declaring parents in a circle: a class below itself, or two classes below
one another.  A chain that runs into a circle of names that are not bound (`Circles`) is followed for
ever, since nothing is made, and so no name on it is bound, before the end of the chain is found
(`Circles.unfinished`).

There is no other way not to end.  A chain without a circle meets no name twice
(`Leads.nodup_or_circles`), so it comes to an end before the declarations are used up, and with an
allowance for its links the call ends as well: with a class, with a refusal, or because the registry
is full or a class has no slot for a method that gives way to the host
(`resolution_ends_unless_circular`). -/

namespace ObjectSystem

namespace World

variable {w w' w₁ : World} {bound : List (Binding ClassId)} {name next top again : String}
  {path rest names : List String} {K parent n m : Nat}

/-! ### Chains without an end -/

/-- The chain of a name leads to one that leads back to itself. -/
def Circles (w : World) (name : String) : Prop :=
  ∃ path again round, w.Leads name path again ∧ w.Leads again (again :: round) again

theorem Leads.append (h : w.Leads name path again) (h' : w.Leads again rest top) :
    w.Leads name (path ++ rest) top := by
  induction h with
  | here => exact h'
  | up unbound declared _ ih => exact .up unbound declared (ih h')

theorem Leads.to_mem (h : w.Leads name path top) (hmem : again ∈ path) :
    ∃ part, w.Leads name part again := by
  induction h with
  | here => cases hmem
  | up unbound declared _ ih =>
    rcases List.mem_cons.1 hmem with rfl | hmem
    · exact ⟨[], .here _⟩
    · obtain ⟨part, hpart⟩ := ih hmem
      exact ⟨_, .up unbound declared hpart⟩

theorem Circles.up (unbound : w.fetchClass name = none)
    (declared : w.host.parentOf name = some next) (h : w.Circles next) : w.Circles name := by
  obtain ⟨path, again, round, hpath, hround⟩ := h
  exact ⟨name :: path, again, round, .up unbound declared hpath, hround⟩

/-- A chain that meets a name twice runs in a circle. -/
theorem Leads.nodup_or_circles (h : w.Leads name path top) : path.Nodup ∨ w.Circles name := by
  induction h with
  | here => exact .inl List.nodup_nil
  | @up name next top path unbound declared rest ih =>
    by_cases hmem : name ∈ path
    · obtain ⟨round, hback⟩ := rest.to_mem hmem
      exact .inr ⟨[], name, round, .here name, .up unbound declared hback⟩
    · exact ih.imp (fun hnodup => List.nodup_cons.2 ⟨hmem, hnodup⟩) (Circles.up unbound declared)

theorem ends_or_leads (w : World) (name : String) (n : Nat) :
    (∃ path top, w.Leads name path top ∧ w.Ends top) ∨
      ∃ path top, w.Leads name path top ∧ path.length = n := by
  induction n with
  | zero => exact .inr ⟨[], name, .here name, rfl⟩
  | succ n ih =>
    rcases ih with hend | ⟨path, top, hleads, rfl⟩
    · exact .inl hend
    · cases hbound : w.fetchClass top with
      | some c => exact .inl ⟨path, top, hleads, .of_bound hbound⟩
      | none =>
        cases hnext : w.host.parentOf top with
        | none => exact .inl ⟨path, top, hleads, .inr hnext⟩
        | some next =>
          exact .inr ⟨path ++ [top], next, hleads.append (.up hbound hnext (.here next)), by simp⟩

theorem Leads.length_le_of_ends {path' : List String} {top' : String} (h : w.Leads name path top)
    (hend : w.Ends top) (h' : w.Leads name path' top') : path'.length ≤ path.length := by
  induction h' generalizing path with
  | here => exact Nat.zero_le _
  | up unbound declared _ ih =>
    cases h with
    | here => exact (hend.not_up unbound declared).elim
    | up _ declared' rest =>
      obtain rfl := Option.some.inj (declared.symm.trans declared')
      exact Nat.succ_le_succ (ih rest)

theorem ends_or_circles (w : World) (name : String) :
    (∃ path top, w.Leads name path top ∧ w.Ends top) ∨ w.Circles name := by
  rcases w.ends_or_leads name (w.host.parents.length + 1) with hend | ⟨path, top, hleads, hlength⟩
  · exact .inl hend
  · refine .inr (hleads.nodup_or_circles.resolve_left fun hnodup => ?_)
    have hle := hleads.length_le_of_nodup hnodup
    omega

/-! ### Links that are not allowed for -/

theorem singletonWith_spent (hname : w.fetchClass name = none)
    (hnext : w.host.parentOf name = some next) :
    singletonWith .table 0 name none w = ⟨w, .error .unfinished, []⟩ := by
  have hfind : Host.table.findParent name w = ⟨w, .ok (some next), []⟩ := by
    rw [← hnext]
    rfl
  rw [singletonWith, Step.get_bind]
  simp only [hname]
  exact Step.bind_of_ok _ hfind

/-- Nothing is done before a chain is followed to its end. -/
theorem Leads.unfinished (h : w.Leads name path top) (hn : n < path.length) :
    singletonWith .table n name none w = ⟨w, .error .unfinished, []⟩ := by
  induction h generalizing n with
  | here => cases hn
  | up hname hnext _ ih =>
    cases n with
    | zero => exact singletonWith_spent hname hnext
    | succ n =>
      rw [singletonWith_declared n hname hnext]
      exact Step.bind_of_stop _ (ih (Nat.lt_of_succ_lt_succ hn))

theorem Circles.long (h : w.Circles name) (n : Nat) :
    ∃ path top, w.Leads name path top ∧ n < path.length := by
  obtain ⟨path, again, round, hpath, hround⟩ := h
  have hrounds : ∃ rounds, w.Leads again rounds again ∧ n < rounds.length := by
    induction n with
    | zero => exact ⟨_, hround, Nat.succ_pos _⟩
    | succ n ih =>
      obtain ⟨rounds, hrounds, hn⟩ := ih
      exact ⟨_, hround.append hrounds, by simp; omega⟩
  obtain ⟨rounds, hrounds, hn⟩ := hrounds
  exact ⟨_, _, hpath.append hrounds, by rw [List.length_append]; omega⟩

theorem Leads.not_circles (h : w.Leads name path top) (hend : w.Ends top) : ¬ w.Circles name := by
  intro hcircles
  obtain ⟨path', top', hleads, hlong⟩ := hcircles.long path.length
  exact Nat.not_lt_of_le (h.length_le_of_ends hend hleads) hlong

/-- No allowance is enough for a chain that runs in a circle. -/
theorem Circles.unfinished (h : w.Circles name) (n : Nat) :
    singletonWith .table n name none w = ⟨w, .error .unfinished, []⟩ := by
  obtain ⟨path, top, hleads, hn⟩ := h.long n
  exact hleads.unfinished hn

/-! ### Links that are allowed for -/

/-- An allowance for all links of a chain that ends is as good as any other. -/
theorem Leads.enough (h : w.Leads name path top) (hend : w.Ends top) (hn : path.length ≤ n)
    (hm : path.length ≤ m) :
    singletonWith .table n name none w = singletonWith .table m name none w := by
  induction h generalizing n m with
  | here name =>
    cases hbound : w.fetchClass name with
    | some c => rw [singletonWith_bound .table n none hbound, singletonWith_bound .table m none hbound]
    | none =>
      have hlast := hend.resolve_left (· hbound)
      rw [singletonWith_undeclared n hbound hlast, singletonWith_undeclared m hbound hlast]
  | up hname hnext _ ih =>
    obtain ⟨n, rfl⟩ : ∃ k, n = k + 1 := Nat.exists_eq_add_one.2 (Nat.lt_of_lt_of_le (by simp) hn)
    obtain ⟨m, rfl⟩ : ∃ k, m = k + 1 := Nat.exists_eq_add_one.2 (Nat.lt_of_lt_of_le (by simp) hm)
    rw [singletonWith_declared n hname hnext, singletonWith_declared m hname hnext,
      Step.bind_apply, ih hend (Nat.le_of_succ_le_succ hn) (Nat.le_of_succ_le_succ hm)]
    rfl

/-- The limits at which the making of a class stops: the registry is full, or the class has no slot
for a method that gives way to the host. -/
inductive Limit (w : World) : Fault → Prop
  | full : Limit w (.registryFull w.capacity)
  | noSlot (cls : String) (offset : Nat) : Limit w (.slotOutOfRange cls offset)

/-- A call ends with a class or a refusal, or at a limit. -/
def Concludes (w : World) (answer : Except Stop (Except Report ClassId)) : Prop :=
  ∀ stop, answer = .error stop → ∃ f, stop = .fault f ∧ w.Limit f

/-- A subclass under a name that is not bound is entered, or the call stops at a limit. -/
theorem Holds.enterSubclass_meets (h : w.Holds bound) (hname : w.fetchClass name = none)
    (candidate : Descriptor) (fresh : List String) :
    (enterSubclass .table name parent candidate fresh).Meets (fun _ _ => True)
      (fun stop _ => ∃ f, stop = .fault f ∧ w.Limit f) w := by
  unfold enterSubclass
  refine .of_eq (Step.get_bind _ _) ?_
  cases hcand : installAll candidate
      (if fresh.isEmpty then [] else w.overridable parent fresh) with
  | error f =>
    obtain ⟨cls, offset, rfl⟩ := installAll_fault hcand
    exact .of_stop (Step.bind_of_stop _ rfl) ⟨_, rfl, .noSlot cls offset⟩
  | ok d =>
    refine .of_eq (Step.bind_of_ok _ rfl) ?_
    rcases h.bindName hname w.classes.length with ⟨-, reg, hbind, -, -⟩ | ⟨-, hfull⟩
    · exact .of_ok (Step.bind_of_ok _ hbind) trivial
    · rcases hbind : World.bindName name w.classes.length w with ⟨s, answer, es⟩
      rw [hbind] at hfull
      obtain rfl : answer = .error (.fault (.registryFull w.capacity)) := hfull
      exact .of_stop (Step.bind_of_stop _ hbind) ⟨_, rfl, .full⟩

theorem Line.createSubclass_meets (h : Line w bound K names w₁) (hname : w₁.fetchClass name = none)
    (hfinal : (w.get K).flags.final = false) :
    (createSubclass .table name (w.lastMade K names.length)).Meets
      (fun r w' => r = .ok (w.lastMade K (names.length + 1)) ∧ Line w bound K (names ++ [name]) w')
      (fun stop _ => ∃ f, stop = .fault f ∧ w.Limit f) w₁ := by
  refine ⟨fun r hr => h.snoc hname hfinal ⟨hr, rfl⟩, fun stop hstop => ?_⟩
  have hopen : (w₁.get (w.lastMade K names.length)).flags.final = false := by
    rw [h.last_flags, hfinal]
  rw [createSubclass_open .table name hopen] at hstop
  obtain ⟨f, rfl, hlimit⟩ := (h.holds.enterSubclass_meets hname _ _).2 stop hstop
  refine ⟨f, rfl, ?_⟩
  cases hlimit with
  | full => exact h.capacity ▸ .full
  | noSlot cls offset => exact .noSlot cls offset

/-- Along a chain to a class that can have subclasses a line of classes is made, or the call stops at
a limit. -/
theorem Leads.makes_or_stops (h : w.Leads name path top) (hw : w.Holds bound)
    (htop : w.fetchClass top = some K) (hfinal : (w.get K).flags.final = false)
    (hn : path.length ≤ n) :
    (singletonWith .table n name none).Meets
      (fun r w' => r = .ok (w.lastMade K path.length) ∧ Line w bound K path.reverse w')
      (fun stop _ => ∃ f, stop = .fault f ∧ w.Limit f) w := by
  induction h generalizing n with
  | here name => exact .of_ok (singletonWith_bound .table n none htop) ⟨rfl, .refl hw K⟩
  | @up name next top path hname hnext rest ih =>
    obtain ⟨n, rfl⟩ : ∃ k, n = k + 1 := Nat.exists_eq_add_one.2 (Nat.lt_of_lt_of_le (by simp) hn)
    refine .of_eq (singletonWith_declared n hname hnext)
      (.bind (ih htop (Nat.le_of_succ_le_succ hn)) ?_)
    rintro _ w₁ ⟨rfl, hline⟩
    have hname₁ : w₁.fetchClass name = none := by
      rw [hline.fetchClass_eq_none hw, List.mem_reverse]
      exact ⟨hname, rest.not_mem (.of_bound htop) hname hnext⟩
    have hmeets := hline.createSubclass_meets hname₁ hfinal
    rw [List.length_reverse] at hmeets
    rw [List.reverse_cons]
    exact hmeets

/-- A chain that ends is resolved, or the call stops at a limit. -/
theorem Leads.concludes (h : w.Leads name path top) (hend : w.Ends top) (hw : w.Holds bound)
    (hn : path.length ≤ n) : w.Concludes (singletonWith .table n name none w).answer := by
  intro stop hstop
  cases htop : w.fetchClass top with
  | none =>
    rw [h.undeclared hn htop (hend.resolve_left (· htop))] at hstop
    cases hstop
  | some K =>
    cases hfinal : (w.get K).flags.final with
    | false => exact (h.makes_or_stops hw htop hfinal hn).2 stop hstop
    | true =>
      rcases List.eq_nil_or_concat path with rfl | ⟨older, lowest, rfl⟩
      · cases h
        rw [singletonWith_bound .table n none htop] at hstop
        cases hstop
      · rw [h.final (List.concat_eq_append ..) hn htop hfinal] at hstop
        cases hstop

/-- Whether a call for a name ends is a matter of what its host has declared.  If the chain of
declared parents runs in a circle of names that are not bound, no allowance is enough, and nothing is
done.  If not, the chain comes to an end, within as many links as there are declarations; no
allowance short of its links is enough, and any other has the call end in the same way, with a class,
a refusal, or a fault that stands for a limit. -/
theorem resolution_ends_unless_circular (hw : w.Holds bound) (name : String) :
    (w.Circles name → ∀ n,
      singletonWith .table n name none w = ⟨w, .error .unfinished, []⟩) ∧
    (¬ w.Circles name → ∃ path top, w.Leads name path top ∧ w.Ends top ∧
      path.length ≤ w.host.parents.length ∧
      (∀ n < path.length, singletonWith .table n name none w = ⟨w, .error .unfinished, []⟩) ∧
      (∀ n ≥ path.length, singletonWith .table n name none w = singleton .table name none w) ∧
      w.Concludes (singleton .table name none w).answer) := by
  refine ⟨Circles.unfinished, fun hcircles => ?_⟩
  obtain ⟨path, top, hleads, hend⟩ := (w.ends_or_circles name).resolve_right hcircles
  have hlength := hleads.length_le hend
  exact ⟨path, top, hleads, hend, hlength, fun n hn => hleads.unfinished hn,
    fun n hn => hleads.enough hend hn hlength, hleads.concludes hend hw hlength⟩

end World

namespace Coop

open World

/-- There are birds, and a host that knows of sparrows, of a snake that comes from itself, and of
hens and eggs. -/
def coop : World where
  classes := [{ Descriptor.blank vtableOffset with name? := some "Bird" }]
  registry := some ((Registry.new String.length 4).after [.register "Bird" 0])
  host := [("Sparrow", "Bird"), ("Snake", "Snake"), ("Egg", "Hen"), ("Hen", "Egg"),
    ("Chick", "Egg")].foldl (fun t d => t.declareSubclass d.1 d.2) {}

theorem snake_circles : coop.Circles "Snake" :=
  ⟨[], "Snake", [], .here _, .up (by decide +kernel) (by decide +kernel) (.here _)⟩

theorem egg_circles : coop.Circles "Egg" :=
  ⟨[], "Egg", ["Hen"], .here _,
    .up (by decide +kernel) (by decide +kernel)
      (.up (by decide +kernel) (by decide +kernel) (.here _))⟩

/-- Nobody gets to know which came first, but sparrows are birds: the chain of the sparrow has one
link. -/
theorem chick_without_end :
    coop.Holds ((Registry.new String.length 4).accepted [.register "Bird" 0]) ∧
      (∀ n, singletonWith .table n "Chick" none coop = ⟨coop, .error .unfinished, []⟩) ∧
      singletonWith .table 0 "Sparrow" none coop = ⟨coop, .error .unfinished, []⟩ ∧
      (∀ n ≥ 1, singletonWith .table n "Sparrow" none coop =
        singleton .table "Sparrow" none coop) ∧
      coop.Concludes (singleton .table "Sparrow" none coop).answer := by
  have hholds := Holds.of_calls (w := coop) rfl
  have hchick : coop.Circles "Chick" :=
    egg_circles.up (by decide +kernel) (by decide +kernel)
  have hsparrow : coop.Leads "Sparrow" ["Sparrow"] "Bird" :=
    .up (by decide +kernel) (by decide +kernel) (.here "Bird")
  have hbird : coop.Ends "Bird" := .of_bound (c := 0) (by decide +kernel)
  obtain ⟨path, top, hleads, hend, -, hshort, hlong, hconcludes⟩ :=
    (resolution_ends_unless_circular hholds "Sparrow").2 (hsparrow.not_circles hbird)
  obtain rfl := hleads.unique hsparrow hend hbird
  exact ⟨hholds, (resolution_ends_unless_circular hholds "Chick").1 hchick, hshort 0 Nat.one_pos,
    hlong, hconcludes⟩

/-- A class that is declared below itself is asked for in vain, and so is one of two that are
declared below one another. -/
theorem circles_without_end :
    (∀ n, singletonWith .table n "Snake" none coop = ⟨coop, .error .unfinished, []⟩) ∧
      (∀ n, singletonWith .table n "Egg" none coop = ⟨coop, .error .unfinished, []⟩) :=
  ⟨snake_circles.unfinished, egg_circles.unfinished⟩

end Coop

end ObjectSystem
