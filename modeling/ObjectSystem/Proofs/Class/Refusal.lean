import ObjectSystem.Proofs.Class.Descent

/-! # Classes that are refused

Asking a host for a class can end in three kinds of refusal (`Refuses`): the chain of declared
parents ends at a name that is not bound, it leads to a final class, or the parent that was given is
final.  The report names the link of the chain that could not be made.  Every name further down puts
a note in place of the one before, so what is left is the note of the name that was asked for.

The chain is followed to its end before a class is made, and a class that is made is not final.  So
a refusal comes before anything is done (`singleton_refused_iff`). -/

namespace ObjectSystem

/-- What is reported about a name that was asked for when the cause has to do with another one on
its chain, or with the name itself. -/
def Report.noted (name failing : String) (cause : Complaint) : Report where
  kind := .reported cause
  context := if failing = name then none else some ("resolving parent of " ++ name)

namespace World

variable {w w' : World} {bound : List (Binding ClassId)} {name next top lowest : String}
  {path older : List String} {K n : Nat} {given : Option ClassId} {r : Report}

/-- Why there can be no class for a name that is not bound, below a given parent or one that the
host declares. -/
inductive Refuses (w : World) (name : String) : Option ClassId → Report → Prop
  /-- The chain ends at a name that is not bound. -/
  | undeclared {path : List String} {top : String} (leads : w.Leads name path top)
      (unbound : w.fetchClass top = none) (last : w.host.parentOf top = none) :
      Refuses w name none (.noted name top (.noParentClass top))
  /-- The chain leads to a final class, from the name `lowest`. -/
  | final {older : List String} {lowest top : String} {K : ClassId}
      (leads : w.Leads name (older ++ [lowest]) top) (bound : w.fetchClass top = some K)
      (final : (w.get K).flags.final = true) :
      Refuses w name none (.noted name lowest (.finalParent lowest (w.nameOf K)))
  /-- The given parent is final. -/
  | given {K : ClassId} (final : (w.get K).flags.final = true) :
      Refuses w name (some K) (.noted name name (.finalParent name (w.nameOf K)))

theorem noted_self (name : String) (cause : Complaint) :
    Report.noted name name cause = .ofComplaint cause := by
  unfold Report.noted
  rw [if_pos rfl]
  rfl

theorem noted_withContext {failing : String} (h : failing ≠ name) (cause : Complaint) :
    (Report.noted next failing cause).withContext ("resolving parent of " ++ name) =
      .noted name failing cause := by
  unfold Report.noted
  rw [if_neg h]
  rfl

/-! ### The answer to a chain -/

theorem createSubclass_final (host : Host) (name : String) (hfinal : (w.get K).flags.final = true) :
    createSubclass host name K w =
      ⟨w, .ok (.error (.ofComplaint (.finalParent name (w.nameOf K)))), []⟩ := by
  unfold createSubclass
  rw [Step.bind_of_ok _ (rfl : Step.get w = ⟨w, .ok w, []⟩), if_pos hfinal]
  rfl

theorem singletonWith_given (host : Host) (n : Nat) (hname : w.fetchClass name = none) :
    singletonWith host n name (some K) w = createSubclass host name K w := by
  unfold singletonWith
  rw [Step.bind_of_ok _ (rfl : Step.get w = ⟨w, .ok w, []⟩)]
  simp only [hname]

theorem singletonWith_undeclared (n : Nat) (hname : w.fetchClass name = none)
    (hlast : w.host.parentOf name = none) :
    singletonWith .table n name none w =
      ⟨w, .ok (.error (.ofComplaint (.noParentClass name))), []⟩ := by
  have hfind : Host.table.findParent name w = ⟨w, .ok none, []⟩ := by
    rw [← hlast]
    rfl
  unfold singletonWith
  rw [Step.bind_of_ok _ (rfl : Step.get w = ⟨w, .ok w, []⟩)]
  simp only [hname]
  exact Step.bind_of_ok _ hfind

theorem singletonWith_declared (n : Nat) (hname : w.fetchClass name = none)
    (hnext : w.host.parentOf name = some next) :
    singletonWith .table (n + 1) name none w =
      (do match ← singletonWith .table n next none with
          | .error r => return .error (r.withContext ("resolving parent of " ++ name))
          | .ok p => createSubclass .table name p : Step World (Except Report ClassId)) w := by
  have hfind : Host.table.findParent name w = ⟨w, .ok (some next), []⟩ := by
    rw [← hnext]
    rfl
  rw [singletonWith, Step.bind_of_ok _ (rfl : Step.get w = ⟨w, .ok w, []⟩)]
  simp only [hname]
  exact Step.bind_of_ok _ hfind

theorem Leads.undeclared (h : w.Leads name path top) (hn : path.length ≤ n)
    (unbound : w.fetchClass top = none) (last : w.host.parentOf top = none) :
    singletonWith .table n name none w =
      ⟨w, .ok (.error (.noted name top (.noParentClass top))), []⟩ := by
  induction h generalizing n with
  | here name => rw [singletonWith_undeclared n unbound last, noted_self]
  | @up name next top path hname hnext rest ih =>
    obtain ⟨n, rfl⟩ : ∃ k, n = k + 1 := Nat.exists_eq_add_one.2 (Nat.lt_of_lt_of_le (by simp) hn)
    have hne : top ≠ name := by
      rintro rfl
      rw [last] at hnext
      cases hnext
    rw [singletonWith_declared n hname hnext,
      Step.bind_of_ok _ (ih (Nat.le_of_succ_le_succ hn) unbound last), ← noted_withContext hne]
    rfl

/-- A chain that leads to a final class makes no class. -/
theorem Leads.final (h : w.Leads name path top) (hpath : path = older ++ [lowest])
    (hn : path.length ≤ n) (bound : w.fetchClass top = some K)
    (final : (w.get K).flags.final = true) :
    singletonWith .table n name none w =
      ⟨w, .ok (.error (.noted name lowest (.finalParent lowest (w.nameOf K)))), []⟩ := by
  induction h generalizing n older with
  | here name => simp at hpath
  | @up name next top path hname hnext rest ih =>
    obtain ⟨n, rfl⟩ : ∃ k, n = k + 1 := Nat.exists_eq_add_one.2 (Nat.lt_of_lt_of_le (by simp) hn)
    rw [singletonWith_declared n hname hnext]
    cases older with
    | nil =>
      obtain ⟨rfl, rfl⟩ := List.cons.inj hpath
      cases rest
      rw [Step.bind_of_ok _ (singletonWith_bound .table n none bound), noted_self]
      exact createSubclass_final .table name final
    | cons first older =>
      obtain ⟨rfl, rfl⟩ := List.cons.inj hpath
      have hne : lowest ≠ name := by
        rintro rfl
        exact rest.not_mem (.of_bound bound) hname hnext (by simp)
      rw [Step.bind_of_ok _ (ih rfl (Nat.le_of_succ_le_succ hn) bound),
        ← noted_withContext hne]
      rfl

/-! ### Why an answer is a refusal -/

/-- What is refused to the parent of a name is refused to the name. -/
theorem Refuses.up (h : w.Refuses next none r) (hname : w.fetchClass name = none)
    (hnext : w.host.parentOf name = some next) :
    w.Refuses name none (r.withContext ("resolving parent of " ++ name)) := by
  cases h with
  | @undeclared path top leads unbound last =>
    have hne : top ≠ name := by
      rintro rfl
      rw [last] at hnext
      cases hnext
    rw [noted_withContext hne]
    exact .undeclared (.up hname hnext leads) unbound last
  | @final older lowest top K leads bound final =>
    have hne : lowest ≠ name := by
      rintro rfl
      exact leads.not_mem (.of_bound bound) hname hnext (by simp)
    rw [noted_withContext hne]
    have hleads : w.Leads name ((name :: older) ++ [lowest]) top := .up hname hnext leads
    exact .final hleads bound final

/-- An answer that is no class is one of the refusals. -/
theorem singletonWith_refuses (hw : w.Holds bound) (hname : w.fetchClass name = none)
    (h : (singletonWith .table n name given).Gives w (.error r) w') : w.Refuses name given r := by
  induction n using Nat.strong_induction_on generalizing name given r w' with
  | _ n ih =>
    rcases singletonWith_cases h with ⟨c, hfetch, -, -⟩ | ⟨p, rfl, hmake⟩ |
      ⟨rfl, hparent, hr⟩ | ⟨k, next, w₁, r₁, w₂, rfl, rfl, hparent, hrest, hlast⟩
    · rw [hname] at hfetch
      cases hfetch
    · obtain ⟨hfinal, rfl, -⟩ := createSubclass_refused hmake
      rw [← noted_self]
      exact .given hfinal
    · obtain ⟨hlast, rfl⟩ := (Step.gives_gets _ _ _ _).1 hparent
      rw [Except.error.inj hr, ← noted_self]
      exact .undeclared (.here name) hname hlast.symm
    · obtain ⟨hdeclared, rfl⟩ := (Step.gives_gets _ _ _ _).1 hparent
      cases hnext : w₁.fetchClass next with
      | none =>
        rcases hlast with ⟨report, rfl, hr, -⟩ | ⟨p, rfl, hmake⟩
        · rw [Except.error.inj hr]
          exact (ih k (Nat.lt_succ_self k) hnext hrest).up hname hdeclared.symm
        · -- the parent was made as a copy of a class that is not final
          obtain ⟨path, top, K, -, -, hopen, hline, rfl⟩ := singletonWith_line hw hnext hrest
          obtain ⟨hfinal, -, -⟩ := createSubclass_refused hmake
          rw [← List.length_reverse, hline.last_flags, hopen] at hfinal
          cases hfinal
      | some K =>
        obtain ⟨hanswer, hstate⟩ := hrest
        rw [singletonWith_bound .table k none hnext] at hanswer hstate
        obtain rfl : w₁ = w₂ := hstate
        obtain rfl : .ok K = r₁ := Except.ok.inj hanswer
        rcases hlast with ⟨report, hr₁, -⟩ | ⟨p, hp, hmake⟩
        · cases hr₁
        · obtain rfl : K = p := Except.ok.inj hp
          obtain ⟨hfinal, rfl, -⟩ := createSubclass_refused hmake
          rw [← noted_self]
          have hleads : w₁.Leads name ([] ++ [name]) next := .up hname hdeclared.symm (.here next)
          exact .final hleads hnext hfinal

/-- A name that is not bound is refused for one of the reasons there are, and for no other.  Then
no class was made, no name was bound, and the host was not told of any class. -/
theorem singleton_refused_iff (hw : w.Holds bound) (hname : w.fetchClass name = none)
    (given : Option ClassId) (r : Report) :
    ((singleton .table name given w).answer = .ok (.error r) ↔ w.Refuses name given r) ∧
      ((singleton .table name given w).answer = .ok (.error r) →
        singleton .table name given w = ⟨w, .ok (.error r), []⟩) := by
  have hrefuses : (singleton .table name given w).answer = .ok (.error r) →
      w.Refuses name given r := fun h => singletonWith_refuses hw hname ⟨h, rfl⟩
  have hrefused : w.Refuses name given r →
      singleton .table name given w = ⟨w, .ok (.error r), []⟩ := by
    intro h
    unfold singleton
    cases h with
    | undeclared leads unbound last =>
      exact leads.undeclared (leads.length_le (.inr last)) unbound last
    | final leads bound final =>
      exact leads.final rfl (leads.length_le (.of_bound bound)) bound final
    | given final =>
      rw [singletonWith_given _ _ hname, createSubclass_final _ _ final, noted_self]
  refine ⟨⟨hrefuses, fun h => ?_⟩, fun h => hrefused (hrefuses h)⟩
  rw [hrefused h]

end World

namespace Quarry

open World

/-- Rocks, of which there are no kinds, and a host that has declared some. -/
def rocks : World where
  classes := [{ Descriptor.blank vtableOffset with name? := some "Rock", flags.final := true }]
  registry := some ((Registry.new String.length 2).after [.register "Rock" 0])
  host :=
    { parents := [("Gravel", "Pebble"), ("Pebble", "Stone"), ("Stone", "Rock"), ("Sand", "Shell")] }

/-- There are no stones, and so no gravel; there is no sand, as nothing is known of shells; and
there is no kind of rock when a rock is asked for either. -/
theorem gravel_refused :
    singleton .table "Gravel" none rocks =
        ⟨rocks, .ok (.error ⟨.reported (.finalParent "Stone" "Rock"),
          some "resolving parent of Gravel"⟩), []⟩ ∧
      singleton .table "Sand" none rocks =
        ⟨rocks, .ok (.error ⟨.reported (.noParentClass "Shell"),
          some "resolving parent of Sand"⟩), []⟩ ∧
      singleton .table "Flint" (some 0) rocks =
        ⟨rocks, .ok (.error ⟨.reported (.finalParent "Flint" "Rock"), none⟩), []⟩ := by
  have hholds := Holds.of_calls (w := rocks) rfl
  have hrock : rocks.fetchClass "Rock" = some 0 := by decide +kernel
  have hgravel : rocks.fetchClass "Gravel" = none := by decide +kernel
  have hsand : rocks.fetchClass "Sand" = none := by decide +kernel
  have hflint : rocks.fetchClass "Flint" = none := by decide +kernel
  have hchain : rocks.Leads "Gravel" (["Gravel", "Pebble"] ++ ["Stone"]) "Rock" :=
    .up hgravel rfl (.up (by decide +kernel) rfl (.up (by decide +kernel) rfl (.here _)))
  have hshell : rocks.Leads "Sand" ["Sand"] "Shell" := .up hsand rfl (.here _)
  obtain ⟨hiff, hkept⟩ := singleton_refused_iff hholds hgravel none _
  obtain ⟨hiff', hkept'⟩ := singleton_refused_iff hholds hsand none _
  obtain ⟨hiff'', hkept''⟩ := singleton_refused_iff hholds hflint (some 0) _
  exact ⟨hkept (hiff.2 (.final hchain hrock rfl)),
    hkept' (hiff'.2 (.undeclared hshell (by decide +kernel) rfl)), hkept'' (hiff''.2 (.given rfl))⟩

end Quarry

end ObjectSystem
