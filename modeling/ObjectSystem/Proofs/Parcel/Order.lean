import Mathlib.Logic.Relation
import ObjectSystem.Proofs.Class.Apart
import ObjectSystem.Parcel

/-! # The order in which parcels are bootstrapped

The bootstrap of a parcel walks over its prerequisites, and theirs, with no other bookkeeping than
how far each parcel has come.  What is kept through any number of calls (`Sound`), also by those
that stop half-way, is that inits are run once, that they are run when all prerequisites are done,
and that a parcel is done only after its init was run.

The walk is written once more with the way in which an init is run as a parameter (`bootBy`), so
that something else can be done in place of an init that is run in a wrong state (`guardedInit`).
As no init is, that makes no difference. -/

namespace ObjectSystem

namespace World

/-! ### Operations on the world that come to an end -/

theorem Apart.true : Apart fun _ => True := ⟨fun _ _ h => h, fun _ _ h => h⟩

theorem writeBytes_ends (o : ObjRef) (address : Nat) (bytes : List UInt8) :
    KeepsApart (fun _ => True) (writeBytes o address bytes) := by
  cases o with
  | allocated i => exact .modify fun _ _ => trivial
  | ofClass c => exact .pure ()
  | ofMethod c i => exact .pure ()

theorem newTruth_ends (b : Bool) : KeepsApart (fun _ => True) (newTruth b) := by
  refine (slotClass_keeps _).bind fun c => (Step.Keeps.gets _).bind fun i => ?_
  refine Step.Keeps.bind (.silent (fun _ => rfl) fun _ _ => trivial) fun o => ?_
  exact (Step.Keeps.gets _).bind fun address => (writeBytes_ends o address _).bind fun _ => .pure i

theorem ensureTruths_ends : KeepsApart (fun _ => True) ensureTruths := by
  refine (Step.Keeps.gets _).bind fun truths => ?_
  cases truths with
  | some pair => exact .pure pair
  | none =>
    refine (newTruth_ends false).bind fun no => (newTruth_ends true).bind fun yes => ?_
    exact Step.Keeps.bind (.modify fun _ _ => trivial) fun _ => .pure (no, yes)

end World

namespace Process

variable {e e' e'' : Process} {id p q : ParcelId} {n : Nat}

/-! ### What is known of parcels -/

/-- A parcel names another one as its prerequisite. -/
def Needs (e : Process) (p q : ParcelId) : Prop :=
  ∃ d, e.parcel? p = some d ∧ q ∈ d.prerequisites ∧ (e.parcel? q).isSome

/-- A parcel that there is has been bootstrapped. -/
def Settled (e : Process) (id : ParcelId) : Prop := (e.parcel? id).isSome → e.progress id = .done

/-- Inits were run once each, and when the prerequisites were done; what is done has had its init
run. -/
structure Sound (e : Process) : Prop where
  once : e.initRuns.Nodup
  begun : ∀ id ∈ e.initRuns, e.progress id ≠ .notStarted
  ready : ∀ id ∈ e.initRuns, ∀ q, e.Needs id q → e.progress q = .done
  ran : ∀ id, e.progress id = .done → id ∈ e.initRuns

/-- Parcels that were not started may have come further, and only such parcels had their inits
run. -/
structure Advances (e e' : Process) : Prop where
  declared : e'.declared = e.declared
  progress : ∀ id, e.progress id ≠ .notStarted → e'.progress id = e.progress id
  runs : ∃ new, e'.initRuns = e.initRuns ++ new ∧ ∀ id ∈ new, e.progress id = .notStarted

/-- No parcel has come further. -/
structure Idle (e e' : Process) : Prop where
  declared : e'.declared = e.declared
  progress : e'.progress = e.progress
  initRuns : e'.initRuns = e.initRuns

/-- The process with a parcel that has come so far. -/
def mark (e : Process) (id : ParcelId) (p : Progress) : Process :=
  { e with progress := fun i => if i = id then p else e.progress i }

/-- The process with one more init that was run. -/
def ran (e : Process) (id : ParcelId) : Process := { e with initRuns := e.initRuns ++ [id] }

theorem progress_mark_self (e : Process) (id : ParcelId) (p : Progress) :
    (e.mark id p).progress id = p := if_pos rfl

theorem progress_mark_of_ne (h : q ≠ id) (p : Progress) :
    (e.mark id p).progress q = e.progress q := if_neg h

theorem parcel?_congr (h : e'.declared = e.declared) (id : ParcelId) :
    e'.parcel? id = e.parcel? id := by
  cases id with
  | core => rfl
  | declared i => exact congrArg (·[i]?) h

theorem needs_congr (h : e'.declared = e.declared) : e'.Needs p q ↔ e.Needs p q := by
  unfold Needs
  rw [parcel?_congr h, parcel?_congr h]

/-! ### How processes advance -/

theorem Advances.refl (e : Process) : Advances e e :=
  ⟨rfl, fun _ _ => rfl, [], (List.append_nil _).symm, fun _ h => by cases h⟩

theorem Advances.notStarted (h : Advances e e') (hid : e'.progress id = .notStarted) :
    e.progress id = .notStarted := by
  by_contra hne
  exact hne ((h.progress id hne).symm.trans hid)

theorem Advances.trans (h : Advances e e') (h' : Advances e' e'') : Advances e e'' := by
  obtain ⟨new, hruns, hnew⟩ := h.runs
  obtain ⟨new', hruns', hnew'⟩ := h'.runs
  refine ⟨h'.declared.trans h.declared, fun id hid => ?_, new ++ new', ?_, fun id hid => ?_⟩
  · have hsame := h.progress id hid
    rw [h'.progress id (hsame ▸ hid), hsame]
  · rw [hruns', hruns, List.append_assoc]
  · rcases List.mem_append.1 hid with hid | hid
    · exact hnew id hid
    · exact h.notStarted (hnew' id hid)

theorem Advances.mark (h : Advances e e') (hid : e.progress id = .notStarted) (p : Progress) :
    Advances e (e'.mark id p) where
  declared := h.declared
  progress q hq := by
    have hne : q ≠ id := by
      rintro rfl
      exact hq hid
    rw [progress_mark_of_ne hne, h.progress q hq]
  runs := h.runs

theorem Advances.ran (h : Advances e e') (hid : e.progress id = .notStarted) :
    Advances e (e'.ran id) := by
  obtain ⟨new, hruns, hnew⟩ := h.runs
  refine ⟨h.declared, h.progress, new ++ [id], ?_, fun q hq => ?_⟩
  · show e'.initRuns ++ [id] = _
    rw [hruns, List.append_assoc]
  · rcases List.mem_append.1 hq with hq | hq
    · exact hnew q hq
    · rw [List.mem_singleton.1 hq]
      exact hid

theorem Idle.advances (h : Idle e e') : Advances e e' :=
  ⟨h.declared, fun id _ => congrFun h.progress id, [], by rw [h.initRuns, List.append_nil],
    fun _ hid => by cases hid⟩

theorem Settled.advances (h : e.Settled id) (hadv : Advances e e') : e'.Settled id := by
  intro hsome
  rw [parcel?_congr hadv.declared] at hsome
  have hdone := h hsome
  rw [hadv.progress id (by rw [hdone]; exact nofun), hdone]

/-! ### What stays sound -/

theorem Sound.begin (h : Sound e) (hid : e.progress id = .notStarted) :
    Sound (e.mark id .inProgress) where
  once := h.once
  begun q hq := by
    by_cases hne : q = id
    · rw [hne, progress_mark_self]
      exact nofun
    · rw [progress_mark_of_ne hne]
      exact h.begun q hq
  ready i hi q hq := by
    have hdone := h.ready i hi q hq
    have hne : q ≠ id := by
      rintro rfl
      rw [hid] at hdone
      cases hdone
    rw [progress_mark_of_ne hne, hdone]
  ran q hq := by
    by_cases hne : q = id
    · rw [hne, progress_mark_self] at hq
      cases hq
    · rw [progress_mark_of_ne hne] at hq
      exact h.ran q hq

theorem Sound.run (h : Sound e) (hid : e.progress id = .inProgress) (hnot : id ∉ e.initRuns)
    (hready : ∀ q, e.Needs id q → e.progress q = .done) : Sound (e.ran id) where
  once := List.nodup_append.2 ⟨h.once, List.nodup_singleton id, fun i hi j hj => by
    rw [List.mem_singleton.1 hj]
    rintro rfl
    exact hnot hi⟩
  begun i hi := by
    rcases List.mem_append.1 hi with hi | hi
    · exact h.begun i hi
    · rw [List.mem_singleton.1 hi]
      show e.progress id ≠ _
      rw [hid]
      exact nofun
  ready i hi q hq := by
    rcases List.mem_append.1 hi with hi | hi
    · exact h.ready i hi q hq
    · rw [List.mem_singleton.1 hi] at hq
      exact hready q hq
  ran i hi := List.mem_append_left _ (h.ran i hi)

theorem Sound.finish (h : Sound e) (hid : id ∈ e.initRuns) : Sound (e.mark id .done) where
  once := h.once
  begun q hq := by
    by_cases hne : q = id
    · rw [hne, progress_mark_self]
      exact nofun
    · rw [progress_mark_of_ne hne]
      exact h.begun q hq
  ready i hi q hq := by
    by_cases hne : q = id
    · rw [hne, progress_mark_self]
    · rw [progress_mark_of_ne hne]
      exact h.ready i hi q hq
  ran q hq := by
    by_cases hne : q = id
    · rw [hne]
      exact hid
    · rw [progress_mark_of_ne hne] at hq
      exact h.ran q hq

theorem Sound.idle (h : Sound e) (hidle : Idle e e') : Sound e' where
  once := hidle.initRuns ▸ h.once
  begun id hid := by
    rw [hidle.initRuns] at hid
    rw [hidle.progress]
    exact h.begun id hid
  ready id hid q hq := by
    rw [hidle.initRuns] at hid
    rw [hidle.progress]
    exact h.ready id hid q ((needs_congr hidle.declared).1 hq)
  ran id hid := by
    rw [hidle.progress] at hid
    rw [hidle.initRuns]
    exact h.ran id hid

/-! ### Parcels that were not started -/

/-- The parcels there are. -/
def ids (e : Process) : List ParcelId := .core :: (List.range e.declared.length).map .declared

/-- How many parcels were not started. -/
def unstarted (e : Process) : Nat := e.ids.countP fun id => e.progress id = .notStarted

theorem mem_ids : id ∈ e.ids ↔ (e.parcel? id).isSome := by
  unfold ids parcel?
  cases id with
  | core => simp
  | declared i => simp

theorem unstarted_le (e : Process) : e.unstarted ≤ e.declared.length + 1 := by
  have hlength : e.ids.length = e.declared.length + 1 := by
    unfold ids
    rw [List.length_cons, List.length_map, List.length_range]
  exact hlength ▸ List.countP_le_length

theorem Advances.unstarted_le (h : Advances e e') : e'.unstarted ≤ e.unstarted := by
  have hids : e'.ids = e.ids := by
    unfold ids
    rw [h.declared]
  unfold unstarted
  rw [hids]
  refine List.countP_mono_left fun id _ hid => ?_
  rw [decide_eq_true_iff] at hid ⊢
  exact h.notStarted hid

/-- When a parcel is started there is one less that was not. -/
theorem unstarted_mark_lt (hid : e.progress id = .notStarted) (hsome : (e.parcel? id).isSome) :
    (e.mark id .inProgress).unstarted < e.unstarted := by
  unfold unstarted
  have hids : (e.mark id .inProgress).ids = e.ids := rfl
  rw [hids, List.countP_eq_length_filter, List.countP_eq_length_filter]
  have hfilter : e.ids.filter (fun i => (e.mark id .inProgress).progress i = .notStarted) =
      (e.ids.filter fun i => e.progress i = .notStarted).filter (· ≠ id) := by
    rw [List.filter_filter]
    refine List.filter_congr fun i _ => ?_
    by_cases hne : i = id
    · rw [hne, progress_mark_self]
      simp
    · rw [progress_mark_of_ne hne]
      simp [hne]
  rw [hfilter]
  refine List.length_filter_lt_length_iff_exists.2 ⟨id, ?_, by simp⟩
  exact List.mem_filter.2 ⟨mem_ids.2 hsome, decide_eq_true hid⟩

/-! ### Runs of the walk -/

/-- How a bootstrap stops: nothing unsound is left, and it runs out of an allowance only when there
are more parcels to be started than that. -/
def Halts (n : Nat) (e : Process) (stop : Stop) (e' : Process) : Prop :=
  Sound e' ∧ Advances e e' ∧ (e.unstarted ≤ n → stop ≠ .unfinished)

/-- Bootstraps of parcels, nested at most `n` deep. -/
def Boots (n : Nat) (boot : ParcelId → Step Process Unit) : Prop :=
  ∀ id e, Sound e →
    (boot id).Meets (fun _ e' => Sound e' ∧ Advances e e' ∧ e'.Settled id) (Halts n e) e

theorem Halts.after {stop : Stop} (h : Halts n e' stop e'') (hadv : Advances e e') :
    Halts n e stop e'' :=
  ⟨h.1, hadv.trans h.2.1, fun hle => h.2.2 (hadv.unstarted_le.trans hle)⟩

theorem bootAll_meets {boot : ParcelId → Step Process Unit} (hboot : Boots n boot)
    (ids : List ParcelId) (he : Sound e) :
    (bootAll boot ids).Meets (fun _ e' => Sound e' ∧ Advances e e' ∧ ∀ q ∈ ids, e'.Settled q)
      (Halts n e) e := by
  induction ids generalizing e with
  | nil => exact .of_ok rfl ⟨he, .refl e, fun q hq => by cases hq⟩
  | cons id rest ih =>
    refine (hboot id e he).bind fun _ e₁ h₁ => ?_
    refine (ih h₁.1).mono (fun _ e₂ h₂ => ?_) fun _ _ h₂ => h₂.after h₁.2.1
    refine ⟨h₂.1, h₁.2.1.trans h₂.2.1, fun q hq => ?_⟩
    rcases List.mem_cons.1 hq with rfl | hq
    · exact h₁.2.2.advances h₂.2.1
    · exact h₂.2.2 q hq

theorem inWorld_meets {α : Type} {x : Step World α} (hx : World.KeepsApart (fun _ => True) x)
    (he : Sound e) :
    (inWorld x).Meets (fun _ e' => Sound e' ∧ Advances e e') (Halts n e) e := by
  have hidle : Idle e (inWorld x e).state := ⟨rfl, rfl, rfl⟩
  refine ⟨fun _ _ => ⟨he.idle hidle, hidle.advances⟩, fun stop hstop => ?_⟩
  exact ⟨he.idle hidle, hidle.advances, fun _ => (hx e.world trivial).2.2 stop hstop⟩

theorem buildClasses_meets (p : ParcelSpec) (he : Sound e) :
    (buildClasses p).Meets (fun _ e' => Sound e' ∧ Advances e e') (Halts n e) e :=
  inWorld_meets (Step.Keeps.bind (.modify fun _ _ => trivial) fun _ =>
    World.bootstrap_keeps .true p) he

theorem build_meets (he : Sound e) :
    (inWorld Core.build).Meets (fun _ e' => Sound e' ∧ Advances e e') (Halts n e) e :=
  inWorld_meets ((World.bootstrap_keeps .true _).bind fun _ =>
    World.ensureTruths_ends.bind fun _ => .pure ()) he

theorem ensureCoreBy_of_ready (boot : ParcelId → Step Process Unit) (h : e.coreReady = true) :
    ensureCoreBy boot e = ⟨e, .ok (), []⟩ := by
  unfold ensureCoreBy
  rw [Step.get_bind, if_pos h]
  rfl

theorem ensureCoreBy_of_unready (boot : ParcelId → Step Process Unit) (h : e.coreReady ≠ true) :
    ensureCoreBy boot e = (do
      boot .core
      Step.modify ({ · with coreReady := true }) : Step Process Unit) e := by
  unfold ensureCoreBy
  rw [Step.get_bind, if_neg h]

theorem ensureCoreBy_meets {boot : ParcelId → Step Process Unit} (hboot : Boots n boot)
    (he : Sound e) :
    (ensureCoreBy boot).Meets (fun _ e' => Sound e' ∧ Advances e e') (Halts n e) e := by
  by_cases hready : e.coreReady
  · exact .of_ok (ensureCoreBy_of_ready boot hready) ⟨he, .refl e⟩
  · refine .of_eq (ensureCoreBy_of_unready boot hready) ?_
    refine (hboot .core e he).bind fun _ e₁ h₁ => .of_ok rfl ?_
    have hidle : Idle e₁ { e₁ with coreReady := true } := ⟨rfl, rfl, rfl⟩
    exact ⟨h₁.1.idle hidle, h₁.2.1.trans hidle.advances⟩

theorem runInit_meets {boot : ParcelId → Step Process Unit} (hboot : Boots n boot)
    (steps : List InitStep) (he : Sound e) :
    (runInit boot steps).Meets (fun _ e' => Sound e' ∧ Advances e e') (Halts n e) e := by
  induction steps generalizing e with
  | nil => exact .of_ok rfl ⟨he, .refl e⟩
  | cons s rest ih =>
    have hrest : ∀ e₁, Sound e₁ ∧ Advances e e₁ →
        (runInit boot rest).Meets (fun _ e' => Sound e' ∧ Advances e e') (Halts n e) e₁ :=
      fun e₁ h₁ => (ih h₁.1).mono (fun _ _ h₂ => ⟨h₂.1, h₁.2.trans h₂.2⟩)
        fun _ _ h₂ => h₂.after h₁.2
    cases s with
    | classes p => exact (buildClasses_meets p he).bind fun _ => hrest
    | parcel id => exact (hboot id e he).bind fun _ e₁ h₁ => hrest e₁ ⟨h₁.1, h₁.2.1⟩
    | core => exact (ensureCoreBy_meets hboot he).bind fun _ => hrest

/-! ### The walk and its inits -/

/-- How an init is run, given how to bootstrap a parcel, the parcel and what is declared of it. -/
abbrev InitRunner := (ParcelId → Step Process Unit) → ParcelId → Parcel → Step Process Unit

/-- The inits as they are declared; the core parcel builds the core classes. -/
def ownInit : InitRunner := fun boot id d =>
  if id = .core then inWorld Core.build else runInit boot d.init

/-- The bootstrap of a parcel, with another way to run inits. -/
def bootBy (init : InitRunner) : (allowance : Nat) → ParcelId → Step Process Unit
  | allowance, id => do
    let e ← Step.get
    match e.parcel? id with
    | none => pure ()
    | some d =>
      match e.progress id with
      | .done => pure ()
      | .inProgress => Step.fault (.bootstrapCycle d.name)
      | .notStarted =>
        match allowance with
        | 0 => Step.unfinished
        | allowance + 1 => do
          setProgress id .inProgress
          bootAll (bootBy init allowance) d.prerequisites
          Step.modify (·.ran id)
          init (bootBy init allowance) id d
          setProgress id .done

section bootBy

variable {init : InitRunner} {d : Parcel}

theorem bootParcel_eq_bootBy (n : Nat) : bootParcel n = bootBy ownInit n := by
  induction n with
  | zero =>
    funext id e
    unfold bootParcel bootBy
    rfl
  | succ n ih =>
    funext id e
    rw [bootParcel, bootBy, Step.get_bind, Step.get_bind]
    cases e.parcel? id with
    | none => rfl
    | some d =>
      cases e.progress id with
      | done => rfl
      | inProgress => rfl
      | notStarted =>
        by_cases hcore : id = .core
        · simp only [ih, ownInit, ran, if_pos hcore]
        · simp only [ih, ownInit, ran, if_neg hcore]

theorem bootBy_of_none (h : e.parcel? id = none) : bootBy init n id e = ⟨e, .ok (), []⟩ := by
  unfold bootBy
  rw [Step.get_bind, h]
  rfl

theorem bootBy_of_done (hd : e.parcel? id = some d) (h : e.progress id = .done) :
    bootBy init n id e = ⟨e, .ok (), []⟩ := by
  unfold bootBy
  rw [Step.get_bind, hd]
  simp only [h]
  rfl

theorem bootBy_of_inProgress (hd : e.parcel? id = some d) (h : e.progress id = .inProgress) :
    bootBy init n id e = Step.fault (.bootstrapCycle d.name) e := by
  unfold bootBy
  rw [Step.get_bind, hd]
  simp only [h]

theorem bootBy_zero (hd : e.parcel? id = some d) (h : e.progress id = .notStarted) :
    bootBy init 0 id e = ⟨e, .error .unfinished, []⟩ := by
  unfold bootBy
  rw [Step.get_bind, hd]
  simp only [h]
  rfl

theorem bootBy_succ (hd : e.parcel? id = some d) (h : e.progress id = .notStarted) :
    bootBy init (n + 1) id e = (do
      bootAll (bootBy init n) d.prerequisites
      Step.modify (·.ran id)
      init (bootBy init n) id d
      setProgress id .done : Step Process Unit) (e.mark id .inProgress) := by
  rw [bootBy, Step.get_bind, hd]
  simp only [h]
  exact Step.modify_bind _ _ _

theorem bootBy_meets {Q : Unit → Process → Prop} {F : Stop → Process → Prop}
    (hnone : e.parcel? id = none → Q () e)
    (hdone : ∀ d, e.parcel? id = some d → e.progress id = .done → Q () e)
    (hcycle : ∀ d, e.parcel? id = some d → e.progress id = .inProgress →
      F (.fault (.bootstrapCycle d.name)) e)
    (hstart : ∀ d, e.parcel? id = some d → e.progress id = .notStarted →
      (bootBy init n id).Meets Q F e) : (bootBy init n id).Meets Q F e := by
  cases hd : e.parcel? id with
  | none => exact .of_ok (bootBy_of_none hd) (hnone hd)
  | some d =>
    cases hid : e.progress id with
    | done => exact .of_ok (bootBy_of_done hd hid) (hdone d hd hid)
    | inProgress => exact .of_stop (bootBy_of_inProgress hd hid) (hcycle d hd hid)
    | notStarted => exact hstart d hd hid

end bootBy

/-! ### Every bootstrap is sound -/

section Boots

variable {boot boot' : ParcelId → Step Process Unit} {d : Parcel}

theorem ownInit_meets (hboot : Boots n boot) (he : Sound e) :
    (ownInit boot id d).Meets (fun _ e' => Sound e' ∧ Advances e e') (Halts n e) e := by
  unfold ownInit
  by_cases hcore : id = .core
  · rw [if_pos hcore]
    exact build_meets he
  · rw [if_neg hcore]
    exact runInit_meets hboot d.init he

/-- When the prerequisites are settled the init of a parcel may be run. -/
theorem Sound.enter (he : Sound e) (hd : e.parcel? id = some d) (hid : e.progress id = .notStarted)
    (he' : Sound e') (hadv : Advances (e.mark id .inProgress) e')
    (hsettled : ∀ q ∈ d.prerequisites, e'.Settled q) : Sound (e'.ran id) := by
  have hmark := progress_mark_self e id .inProgress
  have hprogress : e'.progress id = .inProgress := by
    rw [hadv.progress id (by rw [hmark]; exact nofun), hmark]
  refine he'.run hprogress (fun hmem => ?_) fun q hq => ?_
  · obtain ⟨new, hruns, hnew⟩ := hadv.runs
    rw [hruns] at hmem
    rcases List.mem_append.1 hmem with hmem | hmem
    · exact he.begun id hmem hid
    · have hfresh := hnew id hmem
      rw [hmark] at hfresh
      cases hfresh
  · obtain ⟨d', hd', hq, hsome⟩ := hq
    rw [parcel?_congr hadv.declared] at hd'
    obtain rfl : d = d' := Option.some.inj (hd.symm.trans hd')
    exact hsettled q hq hsome

theorem Boots.of_start (hstart : ∀ id d e, Sound e → e.parcel? id = some d →
      e.progress id = .notStarted → (bootBy ownInit n id).Meets
        (fun _ e' => Sound e' ∧ Advances e e' ∧ e'.Settled id) (Halts n e) e) :
    Boots n (bootBy ownInit n) := by
  intro id e he
  refine bootBy_meets (fun hnone => ?_) (fun d _ hdone => ?_) (fun d _ _ => ?_)
    fun d hd hid => hstart id d e he hd hid
  · refine ⟨he, .refl e, fun hsome => ?_⟩
    rw [hnone] at hsome
    cases hsome
  · exact ⟨he, .refl e, fun _ => hdone⟩
  · exact ⟨he, .refl e, fun _ => nofun⟩

/-- All bootstraps are sound, and each nested one begins another parcel. -/
theorem bootBy_boots (n : Nat) : Boots n (bootBy ownInit n) := by
  induction n with
  | zero =>
    refine .of_start fun id d e he hd hid => .of_stop (bootBy_zero hd hid) ?_
    refine ⟨he, .refl e, fun hle => ?_⟩
    have hlt := unstarted_mark_lt hid (Option.isSome_of_eq_some hd)
    omega
  | succ n ih =>
    refine .of_start fun id d e he hd hid => .of_eq (bootBy_succ hd hid) ?_
    have hlt := unstarted_mark_lt hid (Option.isSome_of_eq_some hd)
    have hbegin : Advances e (e.mark id .inProgress) := (Advances.refl e).mark hid _
    have hhalts : ∀ {e₁ stop e₂}, e₁.unstarted ≤ (e.mark id .inProgress).unstarted →
        Advances e e₁ → Halts n e₁ stop e₂ → Halts (n + 1) e stop e₂ :=
      fun hle hadv h => ⟨h.1, hadv.trans h.2.1, fun h' => h.2.2 (by omega)⟩
    refine Step.Meets.bind ((bootAll_meets ih d.prerequisites (he.begin hid)).mono
      (fun _ _ h => h) fun _ _ => hhalts le_rfl hbegin) ?_
    rintro - e₁ ⟨h₁, hadv₁, hsettled⟩
    have hready : Sound (e₁.ran id) := he.enter hd hid h₁ hadv₁ hsettled
    have hadv₂ : Advances e (e₁.ran id) := (hbegin.trans hadv₁).ran hid
    refine .of_eq (Step.modify_bind _ _ _) ?_
    refine Step.Meets.bind ((ownInit_meets ih hready).mono (fun _ _ h => h)
      fun _ _ => hhalts hadv₁.unstarted_le hadv₂) ?_
    rintro - e₃ ⟨h₃, hadv₃⟩
    obtain ⟨new, hruns, -⟩ := hadv₃.runs
    have hmem : id ∈ e₃.initRuns := by
      rw [hruns]
      exact List.mem_append_left _ (List.mem_append_right _ (List.mem_singleton_self id))
    exact .of_ok rfl
      ⟨h₃.finish hmem, (hadv₂.trans hadv₃).mark hid _, fun _ => progress_mark_self e₃ id .done⟩

/-! ### The states in which inits are run -/

/-- The inits as they are declared, with another operation in place of each one that would be run
before a prerequisite is done, or for a second time. -/
def guardedInit (other : Step Process Unit) : InitRunner := fun boot id d e =>
  if (∀ q ∈ d.prerequisites, (e.parcel? q).isSome → e.progress q = .done) ∧
      e.initRuns.count id = 1 then
    ownInit boot id d e
  else other e

theorem bootAll_congr (hboot : Boots n boot) (hsame : ∀ id e, Sound e → boot' id e = boot id e)
    (ids : List ParcelId) (he : Sound e) : bootAll boot' ids e = bootAll boot ids e := by
  induction ids generalizing e with
  | nil => rfl
  | cons id rest ih => exact (hboot id e he).bind_congr (hsame id e he) fun _ _ h => ih h.1

theorem runInit_congr (hboot : Boots n boot) (hsame : ∀ id e, Sound e → boot' id e = boot id e)
    (steps : List InitStep) (he : Sound e) : runInit boot' steps e = runInit boot steps e := by
  induction steps generalizing e with
  | nil => rfl
  | cons s rest ih =>
    cases s with
    | classes p => exact (buildClasses_meets (n := n) p he).bind_congr rfl fun _ _ h => ih h.1
    | parcel id => exact (hboot id e he).bind_congr (hsame id e he) fun _ _ h => ih h.1
    | core =>
      refine (ensureCoreBy_meets hboot he).bind_congr ?_ fun _ _ h => ih h.1
      by_cases hready : e.coreReady
      · rw [ensureCoreBy_of_ready _ hready, ensureCoreBy_of_ready _ hready]
      · rw [ensureCoreBy_of_unready _ hready, ensureCoreBy_of_unready _ hready]
        exact (hboot .core e he).bind_congr (hsame .core e he) fun _ _ _ => rfl

theorem ownInit_congr (hboot : Boots n boot) (hsame : ∀ id e, Sound e → boot' id e = boot id e)
    (he : Sound e) : ownInit boot' id d e = ownInit boot id d e := by
  unfold ownInit
  by_cases hcore : id = .core
  · rw [if_pos hcore, if_pos hcore]
  · rw [if_neg hcore, if_neg hcore]
    exact runInit_congr hboot hsame d.init he

/-- Inits are run only when the prerequisites are done, and for the first time: what would be done
otherwise makes no difference. -/
theorem bootBy_guarded (other : Step Process Unit) (n : Nat) (id : ParcelId) (he : Sound e) :
    bootBy (guardedInit other) n id e = bootBy ownInit n id e := by
  induction n generalizing id e with
  | zero =>
    unfold bootBy
    rfl
  | succ n ih =>
    cases hd : e.parcel? id with
    | none => rw [bootBy_of_none hd, bootBy_of_none hd]
    | some d =>
      cases hid : e.progress id with
      | done => rw [bootBy_of_done hd hid, bootBy_of_done hd hid]
      | inProgress => rw [bootBy_of_inProgress hd hid, bootBy_of_inProgress hd hid]
      | notStarted =>
        rw [bootBy_succ hd hid, bootBy_succ hd hid]
        have hboots := bootBy_boots n
        refine (bootAll_meets hboots d.prerequisites (he.begin hid)).bind_congr
          (bootAll_congr hboots (fun id e he => ih id he) _ (he.begin hid)) ?_
        rintro - e₁ ⟨h₁, hadv₁, hsettled⟩
        have hready : Sound (e₁.ran id) := he.enter hd hid h₁ hadv₁ hsettled
        have hmem : id ∈ (e₁.ran id).initRuns :=
          List.mem_append_right _ (List.mem_singleton_self id)
        have hown : guardedInit other (bootBy (guardedInit other) n) id d (e₁.ran id) =
            ownInit (bootBy ownInit n) id d (e₁.ran id) :=
          (if_pos ⟨hsettled, List.nodup_iff_count_eq_one.1 hready.once id hmem⟩).trans
            (ownInit_congr hboots (fun id e he => ih id he) hready)
        rw [Step.modify_bind, Step.modify_bind]
        exact (ownInit_meets hboots hready).bind_congr hown fun _ _ _ => rfl

end Boots

/-! ### Sequences of calls -/

/-- What calls lead to from a state in which no parcel was started, those that stopped half-way
among them. -/
inductive Called : Process → Prop
  | start {e : Process} : (∀ id, e.progress id = .notStarted) → e.initRuns = [] → Called e
  | call {e : Process} (id : ParcelId) : Called e → Called (boot id e).state

/-- The bootstrap of a parcel with its inits guarded. -/
def guardedBoot (other : Step Process Unit) (id : ParcelId) : Step Process Unit := fun e =>
  bootBy (guardedInit other) (e.declared.length + 1) id e

theorem boot_eq_bootBy (id : ParcelId) (e : Process) :
    boot id e = bootBy ownInit (e.declared.length + 1) id e :=
  congrFun (congrFun (bootParcel_eq_bootBy _) id) e

theorem boot_meets (id : ParcelId) (he : Sound e) :
    (boot id).Meets (fun _ e' => Sound e' ∧ e'.Settled id)
      (fun stop e' => Sound e' ∧ stop ≠ .unfinished) e :=
  .of_eq (boot_eq_bootBy id e) ((bootBy_boots _ id e he).mono (fun _ _ h => ⟨h.1, h.2.2⟩)
    fun _ _ h => ⟨h.1, h.2.2 e.unstarted_le⟩)

theorem guardedBoot_eq_boot (other : Step Process Unit) (id : ParcelId) (he : Sound e) :
    guardedBoot other id e = boot id e :=
  (bootBy_guarded other _ id he).trans (boot_eq_bootBy id e).symm

theorem Called.sound (h : Called e) : Sound e := by
  induction h with
  | start hprogress hruns =>
    refine ⟨by rw [hruns]; exact .nil, fun id hid => ?_, fun id hid => ?_, fun id hid => ?_⟩
    · rw [hruns] at hid
      cases hid
    · rw [hruns] at hid
      cases hid
    · rw [hprogress] at hid
      cases hid
  | call id _ ih =>
    have hboot := boot_meets id ih
    cases h : (boot id _).answer with
    | ok _ => exact (hboot.1 _ h).1
    | error stop => exact (hboot.2 stop h).1

theorem Sound.needs_done (h : Sound e) (hp : e.progress p = .done)
    (hneeds : Relation.TransGen e.Needs p q) : e.progress q = .done := by
  induction hneeds with
  | single hq => exact h.ready p (h.ran p hp) _ hq
  | tail _ hq ih => exact h.ready _ (h.ran _ ih) _ hq

end Process

end ObjectSystem
