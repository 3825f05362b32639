import ObjectSystem.Proofs.Class.Registering
import ObjectSystem.Proofs.Parcel.Cycles

/-! # What bootstraps carry along

The bootstrap of a parcel is made of few things: parcels come further, inits are noted, classes are
built, and the core classes are built for all parcels.  What is said of a process and stays true in
each of these (`Carried`) is true after every bootstrap, whether it answers or stops
(`Carried.boot`).

In this way a bootstrap leaves alone what it has nothing to do with.  And it is known what became of
the core classes: they were built if anything was begun with them, and they are ready only when that
came to an end (`CoreFirst`). -/

namespace ObjectSystem

open World

namespace Process

variable {α : Type} {e e' : Process} {id : ParcelId} {n : Nat} {I : Process → Prop}
  {nested : ParcelId → Step Process Unit}

/-- From processes of which `I` is said the operation leads to such processes. -/
abbrev Carries (I : Process → Prop) (x : Step Process α) : Prop :=
  x.Keeps I (fun _ => True) fun _ => True

theorem Carries.of_state {x : Step Process α} (h : ∀ e, I e → I (x e).state) : Carries I x :=
  fun e he => ⟨h e he, fun _ _ => trivial, fun _ _ => trivial⟩

theorem Carries.meets {x : Step Process α} (h : Carries I x) (he : I e) :
    x.Meets (fun _ => I) (fun _ => I) e :=
  ⟨fun _ _ => (h e he).1, fun _ _ => (h e he).1⟩

theorem Carries.of_meets {x : Step Process α}
    (h : ∀ e, I e → x.Meets (fun _ => I) (fun _ => I) e) : Carries I x := by
  refine .of_state fun e he => ?_
  cases hanswer : (x e).answer with
  | ok a => exact (h e he).1 a hanswer
  | error stop => exact (h e he).2 stop hanswer

theorem Carries.inWorld {x : Step World α}
    (h : ∀ e, I e → I { e with world := (x e.world).state }) : Carries I (inWorld x) :=
  .of_state h

/-! ### The core parcel -/

/-- The core parcel is in progress, and its init is run. -/
def begun (e : Process) : Process := (e.mark .core .inProgress).ran .core

/-- What is left to do of a core parcel that is begun. -/
def buildCore : Step Process Unit := do
  inWorld Core.build
  setProgress .core .done

theorem bootBy_core (h : e.progress .core = .notStarted) :
    bootBy ownInit (n + 1) .core e = buildCore e.begun :=
  bootBy_succ (d := corePrerequisites) rfl h

/-- The core parcel is done when it was bootstrapped. -/
theorem core_done_of_gives {u : Unit} (h : (bootBy ownInit n .core).Gives e u e') :
    e'.progress .core = .done := by
  have hd : e.parcel? .core = some corePrerequisites := rfl
  cases hcore : e.progress .core with
  | done =>
    rw [Step.Gives, bootBy_of_done hd hcore] at h
    exact h.2 ▸ hcore
  | inProgress =>
    rw [Step.Gives, bootBy_of_inProgress hd hcore] at h
    cases h.1
  | notStarted =>
    cases n with
    | zero =>
      rw [Step.Gives, bootBy_zero hd hcore] at h
      cases h.1
    | succ n =>
      rw [Step.Gives, bootBy_core hcore] at h
      obtain ⟨_, e₁, -, hlast⟩ := (Step.gives_bind _ _ _ _ _).1 h
      rw [(Step.gives_modify _ _ _ _).1 hlast]
      exact progress_mark_self e₁ .core .done

/-- What is said of a process stays true in all that bootstraps are made of. -/
structure Carried (I : Process → Prop) : Prop where
  mark : ∀ {e id} (p : Progress), id ≠ .core → I e → I (e.mark id p)
  ran : ∀ {e id}, id ≠ .core → I e → I (e.ran id)
  classes : ∀ p, Carries I (buildClasses p)
  core : ∀ {e}, I e → e.progress .core = .notStarted → I (buildCore e.begun).state
  ready : ∀ {e}, I e → e.progress .core = .done → I { e with coreReady := true }

namespace Carried

variable (hI : Carried I)

include hI

theorem ensureCoreBy (hnested : Carries I (nested .core))
    (hdone : ∀ e u e', (nested .core).Gives e u e' → e'.progress .core = .done) :
    Carries I (ensureCoreBy nested) := by
  refine .of_state fun e he => ?_
  by_cases hready : e.coreReady
  · rwa [ensureCoreBy_of_ready nested hready]
  · rw [ensureCoreBy_of_unready nested hready]
    have hbooted := (hnested e he).1
    rcases h : nested .core e with ⟨e', (stop | u), es⟩
    · rw [Step.bind_of_stop _ h]
      rwa [h] at hbooted
    · rw [Step.state_bind_of_ok _ h]
      rw [h] at hbooted
      exact hI.ready hbooted (hdone e u e' ⟨congrArg Outcome.answer h, congrArg Outcome.state h⟩)

theorem runInit (hnested : ∀ id, Carries I (nested id))
    (hcore : Carries I (Process.ensureCoreBy nested)) (steps : List InitStep) :
    Carries I (runInit nested steps) := by
  induction steps with
  | nil => exact .pure ()
  | cons s rest ih =>
    cases s with
    | classes p => exact (hI.classes p).bind fun _ => ih
    | parcel id => exact (hnested id).bind fun _ => ih
    | core => exact hcore.bind fun _ => ih

omit hI in
theorem bootAll (hnested : ∀ id, Carries I (nested id)) (ids : List ParcelId) :
    Carries I (bootAll nested ids) := by
  induction ids with
  | nil => exact .pure ()
  | cons id rest ih => exact (hnested id).bind fun _ => ih

/-- What each part carries along, the whole bootstrap does. -/
theorem bootBy (n : Nat) (id : ParcelId) : Carries I (bootBy ownInit n id) := by
  induction n generalizing id with
  | zero =>
    refine .of_meets fun e he => ?_
    exact bootBy_meets (fun _ => he) (fun _ _ _ => he) (fun _ _ _ => he) fun d hd hid =>
      .of_stop (bootBy_zero hd hid) he
  | succ n ih =>
    have hinit : ∀ d, id ≠ .core → Carries I (ownInit (Process.bootBy ownInit n) id d) := by
      intro d hcore
      unfold ownInit
      rw [if_neg hcore]
      exact hI.runInit ih (hI.ensureCoreBy (ih _) fun _ _ _ => core_done_of_gives) d.init
    refine .of_meets fun e he => ?_
    refine bootBy_meets (fun _ => he) (fun _ _ _ => he) (fun _ _ _ => he) fun d hd hid => ?_
    by_cases hcore : id = .core
    · subst hcore
      have hbuilt := hI.core he hid
      exact .of_eq (bootBy_core hid) ⟨fun _ _ => hbuilt, fun _ _ => hbuilt⟩
    · have hrest : Carries I (do
          Process.bootAll (Process.bootBy ownInit n) d.prerequisites
          Step.modify (·.ran id)
          ownInit (Process.bootBy ownInit n) id d
          setProgress id .done : Step Process Unit) :=
        (bootAll ih _).bind fun _ => Step.Keeps.bind (.modify fun _ => hI.ran hcore) fun _ =>
          (hinit d hcore).bind fun _ => .modify fun _ => hI.mark .done hcore
      exact .of_eq (bootBy_succ hd hid) (hrest.meets (hI.mark .inProgress hcore he))

theorem boot (id : ParcelId) : Carries I (boot id) :=
  .of_state fun e he => by
    rw [boot_eq_bootBy]
    exact (hI.bootBy _ id e he).1

theorem ensureCore : Carries I ensureCore :=
  hI.ensureCoreBy (hI.boot .core) fun e u e' h => by
    rw [Step.Gives, boot_eq_bootBy] at h
    exact core_done_of_gives h

end Carried

/-! ### What is carried along -/

/-- The core classes were built if the core parcel was begun.  If they are ready, it is done. -/
structure CoreFirst (e : Process) : Prop where
  built : e.progress .core ≠ .notStarted → .core ∈ e.initRuns
  done : e.coreReady = true → e.progress .core = .done

theorem state_buildCore (e : Process) : ∃ w, w = (Core.build e.world).state ∧
    ((buildCore e).state = { e with world := w } ∨
      (buildCore e).state = mark { e with world := w } .core .done) := by
  refine ⟨_, rfl, ?_⟩
  unfold buildCore
  rcases h : Core.build e.world with ⟨w, (stop | u), es⟩
  · have hbuild : inWorld Core.build e = ⟨{ e with world := w }, .error stop, es⟩ := by
      rw [inWorld_apply, h]
      rfl
    exact .inl (congrArg Outcome.state (Step.bind_of_stop _ hbuild))
  · have hbuild : inWorld Core.build e = ⟨{ e with world := w }, .ok u, es⟩ := by
      rw [inWorld_apply, h]
      rfl
    exact .inr (Step.state_bind_of_ok _ hbuild)

theorem carried_coreFirst : Carried CoreFirst where
  mark {e _} p hid h := by
    have hsame := progress_mark_of_ne (e := e) hid.symm p
    exact ⟨fun hne => h.built (hsame ▸ hne), fun hready => hsame.trans (h.done hready)⟩
  ran _ h := ⟨fun hne => List.mem_append_left _ (h.built hne), h.done⟩
  classes _ := .inWorld fun _ h => ⟨h.built, h.done⟩
  core {e} h hcore := by
    have hunready : e.coreReady ≠ true := fun hready => by
      rw [h.done hready] at hcore
      cases hcore
    have hran : .core ∈ e.begun.initRuns :=
      List.mem_append_right _ (List.mem_singleton_self ParcelId.core)
    obtain ⟨w, -, heq | heq⟩ := state_buildCore e.begun
    · rw [heq]
      exact ⟨fun _ => hran, fun hready => absurd hready hunready⟩
    · rw [heq]
      exact ⟨fun _ => hran, fun hready => absurd hready hunready⟩
  ready {e} h hdone := ⟨h.built, fun _ => hdone⟩

theorem Carried.of_same (hsame : ∀ {e e' : Process}, e'.settings = e.settings →
    (e.coreReady = true → e'.coreReady = true) → I e → I e') : Carried I where
  mark {e _} _ _ := hsame (e := e) rfl id
  ran {e _} _ := hsame (e := e) rfl id
  classes _ := .inWorld fun e => hsame (e := e) rfl id
  core {e} h _ := by
    obtain ⟨w, -, heq | heq⟩ := state_buildCore e.begun
    · rw [heq]
      exact hsame (e := e) rfl id h
    · rw [heq]
      exact hsame (e := e) rfl id h
  ready {e} h _ := hsame (e := e) rfl (fun _ => rfl) h

theorem carried_settings (s : Option Settings) : Carried (·.settings = s) :=
  .of_same fun hsame _ h => hsame.trans h

theorem carried_coreReady : Carried (·.coreReady = true) :=
  .of_same fun _ hready h => hready h

theorem carried_world {P : World → Prop} (hP : OnNames P) :
    Carried fun e => Whole e.world ∧ P e.world where
  mark _ _ h := h
  ran _ h := h
  classes p := .inWorld fun e h =>
    (Step.Keeps.bind (hP.keepsWhole_of_harmless (settleOwners_harmless p))
      (fun _ => hP.keepsWhole_bootstrap p) e.world h).1
  core {e} h _ := by
    have hbuilt := (hP.keepsWhole_build e.world h).1
    obtain ⟨w, rfl, heq | heq⟩ := state_buildCore e.begun
    · rwa [heq]
    · rwa [heq]
  ready h _ := h

end Process

end ObjectSystem
