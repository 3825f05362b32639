import ObjectSystem.Process
import ObjectSystem.Proofs.Parcel.Carrying

/-! # What is settled once

A process has a registry, core classes and settings.  Each of these comes about once, and there are
many ways for it to do so: a process can be started again and again with different settings, the
core parcel is bootstrapped on its own, on request or by parcels that need it, and a registry comes
about with the first name.  Any of these calls can stop half-way, a start as well when its log cannot
be opened or its registry is too small for the core classes, and other calls come behind it.

A `Call` is any of these, and what else happens in the world.  A start that gets that far
(`Request.Opens`) is followed from the process in which the registry is made (`opened`) over the
bootstrap of the core classes (`greet`).  What is
true between any two calls (`Reached`) says which combinations there can be: there are settings only
if the core classes are ready and there is a registry.  From that follows what becomes of each of
the three (`settles_once`). -/

namespace ObjectSystem

open World

namespace Process

/-! ### Calls -/

/-- What a start is asked with: settings, whose registry is of a size that can be rounded up, and how
the log is opened at the time. -/
structure Request where
  settings : Settings := {}
  openLog : LogOpener := fun _ => .ok ()
  fits : settings.capacity ≤ Registry.maxRequest := by decide

/-- Starts with what a request asks for. -/
def Request.start (r : Request) : Step Process Settings := Process.start r.openLog r.settings

/-- The log that a request asks for can be opened, and its registry can be made, if that is still to
be done. -/
structure Request.Opens (r : Request) (e : Process) : Prop where
  log : e.logging = true ∨ r.openLog r.settings.logSettings = .ok ()
  memory : e.world.registry ≠ none ∨
    Registry.capacityFor r.settings.capacity ≤ Registry.maxSlots

/-- A call on a process. -/
inductive Call
  | init (r : Request)
  | ensureCore
  /-- A parcel is bootstrapped, the core parcel or another one. -/
  | boot (id : ParcelId)
  /-- Classes are built without a parcel. -/
  | build (p : ParcelSpec)
  /-- Something is done in the world: classes are asked for by name and names are bound, with hosts
  that do the same before they answer.  It is no request for a registry of some size. -/
  | work (p : Program) (sizeless : p.Only Operation.Sizeless)
  | fetch (name : String)
  | engine (itemCost : ObjRef → Nat)

/-- What a call answers. -/
inductive Reply
  | done
  | settings (s : Settings)
  | found (c : Option ClassId)
  | engine (e : Sorting.Engine ObjRef)

/-- Carries out a call. -/
def Call.run : Call → Step Process Reply
  | init r => do return .settings (← r.start)
  | ensureCore => do
    Process.ensureCore
    return .done
  | boot id => do
    Process.boot id
    return .done
  | build p => do
    let _ ← buildClasses p
    return .done
  | work p _ => do
    let _ ← inWorld p.run
    return .done
  | fetch name => Step.gets fun e => .found (e.world.fetchClass name)
  | engine itemCost => Step.gets fun e => .engine (e.newEngine itemCost)

/-- The size that a call makes the registry for, if there is none. -/
def Call.size : Call → Nat
  | init r => r.settings.capacity
  | _ => defaultCapacity

/-- Nothing outside keeps a call from being carried out. -/
def Call.Opens (e : Process) : Call → Prop
  | init r => r.Opens e
  | _ => True

variable {e e' : Process} {n : Nat} {I : Process → Prop} {s : Settings} {r : Request}

/-- The process after some calls, those that stopped half-way among them. -/
def after (e : Process) (calls : List Call) : Process := calls.foldl (fun e c => (c.run e).state) e

theorem after_cons (e : Process) (c : Call) (rest : List Call) :
    e.after (c :: rest) = (c.run e).state.after rest := rfl

/-! ### Starts -/

/-- A start sets up logging and makes the registry, if there is none. -/
def opened (s : Settings) (e : Process) : Process :=
  { e with logging := true, world := (World.ensureRegistry s.capacity e.world).state }

/-- A start goes on with the core classes; the registry has some size by then. -/
def greet (s : Settings) (actual : Nat) : Step Process Unit := do
  if actual ≠ Registry.capacityFor s.capacity then
    Step.emit (.registryExists s.capacity actual)
  ensureCore
  Step.emit (.systemStarted actual)

theorem setUpLogging_cases (openLog : LogOpener) (log : LogSettings) (e : Process) :
    (e.logging = true ∨ openLog log = .ok ()) ∧
      setUpLogging openLog log e = ⟨{ e with logging := true }, .ok (), []⟩ ∨
    (e.logging = false ∧ ∃ problem, openLog log = .error problem ∧
      setUpLogging openLog log e = ⟨e, .error (.unlogged problem), []⟩) := by
  unfold setUpLogging
  by_cases hlogging : e.logging = true
  · rw [if_pos hlogging]
    exact .inl ⟨.inl hlogging, by rw [← hlogging]⟩
  · rw [if_neg hlogging]
    rcases openLog log with problem | _
    · exact .inr ⟨Bool.not_eq_true _ ▸ hlogging, problem, rfl, rfl⟩
    · exact .inl ⟨.inr rfl, rfl⟩

theorem ensureRegistry_cases (requested : Nat) (e : Process) :
    (e.world.registry ≠ none ∨ Registry.capacityFor requested ≤ Registry.maxSlots) ∧
      (∃ actual, ensureRegistry requested e =
        ⟨{ e with world := (World.ensureRegistry requested e.world).state }, .ok actual, []⟩) ∨
    ((e.world.registry = none ∧ Registry.maxSlots < Registry.capacityFor requested) ∧
      ensureRegistry requested e = ⟨e, .error .unallocated, []⟩) := by
  unfold ensureRegistry
  rw [Step.get_bind]
  split
  · rename_i hshort
    exact .inr ⟨hshort, rfl⟩
  · rename_i hroom
    rw [not_and_or, Nat.not_lt] at hroom
    exact .inl ⟨hroom, _, rfl⟩

theorem start_of_none (h : e.settings = none) (r : Request) :
    r.start e = (do
      setUpLogging r.openLog r.settings.logSettings
      let actual ← ensureRegistry r.settings.capacity
      greet r.settings actual
      Step.modify ({ · with settings := some r.settings })
      pure r.settings : Step Process Settings) e := by
  unfold Request.start start greet
  rw [Step.get_bind, h]
  refine congrFun (bind_congr fun _ => bind_congr fun actual => ?_) e
  split
  · simp only [bind_assoc]
  · simp only [bind_assoc]

/-- The first start that completes settles the settings. -/
theorem start_of_opens (h : e.settings = none) (hopens : r.Opens e) : ∃ actual,
    r.start e = (do
      greet r.settings actual
      Step.modify ({ · with settings := some r.settings })
      pure r.settings : Step Process Settings) (e.opened r.settings) := by
  rw [start_of_none h]
  obtain ⟨-, hlog⟩ | ⟨hlogging, problem, hproblem, -⟩ :=
    setUpLogging_cases r.openLog r.settings.logSettings e
  · obtain ⟨-, actual, hregistry⟩ | ⟨hshort, -⟩ :=
      ensureRegistry_cases r.settings.capacity { e with logging := true }
    · exact ⟨actual, (Step.bind_of_ok _ hlog).trans (Step.bind_of_ok _ hregistry)⟩
    · exact absurd hshort.2 (Nat.not_lt.2 (hopens.memory.resolve_left (not_not.2 hshort.1)))
  · rcases hopens.log with hset | hopen
    · rw [hlogging] at hset
      cases hset
    · rw [hproblem] at hopen
      cases hopen

theorem start_of_closed (h : e.settings = none) (hclosed : ¬ r.Opens e) : ∃ stop logging,
    r.start e = ⟨{ e with logging := logging }, .error stop, []⟩ := by
  rw [start_of_none h]
  obtain ⟨hopen, hlog⟩ | ⟨-, problem, -, hlog⟩ :=
    setUpLogging_cases r.openLog r.settings.logSettings e
  · obtain ⟨hroom, -⟩ | ⟨-, hregistry⟩ :=
      ensureRegistry_cases r.settings.capacity { e with logging := true }
    · exact absurd ⟨hopen, hroom⟩ hclosed
    · exact ⟨_, true, (Step.bind_of_ok _ hlog).trans (Step.bind_of_stop _ hregistry)⟩
  · exact ⟨_, e.logging, Step.bind_of_stop _ hlog⟩

theorem start_of_some (h : e.settings = some s) (r : Request) : r.start e = ⟨e, .ok s, []⟩ := by
  unfold Request.start start
  rw [Step.get_bind, h]
  rfl

/-- A start comes down to the core classes. -/
theorem greet_eq (s : Settings) (actual : Nat) (e : Process) :
    (greet s actual e).state = (ensureCore e).state ∧
      (greet s actual e).answer = (ensureCore e).answer := by
  have hlast : ((do
        ensureCore
        Step.emit (.systemStarted actual) : Step Process Unit) e).state = (ensureCore e).state ∧
      ((do
        ensureCore
        Step.emit (.systemStarted actual) : Step Process Unit) e).answer =
        (ensureCore e).answer := by
    rcases h : ensureCore e with ⟨e', (stop | u), es⟩
    · rw [Step.bind_of_stop _ h]
      exact ⟨rfl, rfl⟩
    · rw [Step.bind_apply, h]
      exact ⟨rfl, rfl⟩
  unfold greet
  split
  · exact hlast
  · exact hlast

/-- How a start ends when there are no settings. -/
theorem start_cases (h : e.settings = none) (r : Request) :
    (¬ r.Opens e ∧ ∃ stop logging, (r.start e).answer = .error stop ∧
      (r.start e).state = { e with logging := logging }) ∨
    (r.Opens e ∧ ∃ stop, (ensureCore (e.opened r.settings)).answer = .error stop ∧
      (r.start e).answer = .error stop ∧
      (r.start e).state = (ensureCore (e.opened r.settings)).state) ∨
    (r.Opens e ∧ (ensureCore (e.opened r.settings)).answer = .ok () ∧
      (r.start e).answer = .ok r.settings ∧ (r.start e).state =
        { (ensureCore (e.opened r.settings)).state with settings := some r.settings }) := by
  by_cases hopens : r.Opens e
  · obtain ⟨actual, hstart⟩ := start_of_opens h hopens
    obtain ⟨hstate, hanswer⟩ := greet_eq r.settings actual (e.opened r.settings)
    rcases hgreet : greet r.settings actual (e.opened r.settings) with ⟨e', (stop | u), es⟩
    · rw [hgreet] at hstate hanswer
      rw [hstart, Step.bind_of_stop _ hgreet]
      exact .inr (.inl ⟨hopens, stop, hanswer.symm, rfl, hstate⟩)
    · rw [hgreet] at hstate hanswer
      rw [hstart, Step.bind_apply, hgreet, ← hstate]
      exact .inr (.inr ⟨hopens, hanswer.symm, rfl, rfl⟩)
  · obtain ⟨stop, logging, hstart⟩ := start_of_closed h hopens
    rw [hstart]
    exact .inl ⟨hopens, stop, logging, rfl, rfl⟩

theorem Call.run_init (r : Request) (e : Process) :
    ((Call.init r).run e).state = (r.start e).state ∧
      ((Call.init r).run e).answer = (r.start e).answer.map Reply.settings := by
  have hrun : (Call.init r).run e = (r.start >>= fun s => pure (Reply.settings s)) e := rfl
  rw [hrun]
  rcases h : r.start e with ⟨e', (stop | s), es⟩
  · rw [Step.bind_of_stop _ h]
    exact ⟨rfl, rfl⟩
  · rw [Step.bind_apply, h]
    exact ⟨rfl, rfl⟩

/-! ### What calls carry along -/

/-- What is said of a process stays true in all that calls are made of, but for what is done by
starts alone. -/
structure Steady (I : Process → Prop) : Prop where
  boot : ∀ id, Carries I (boot id)
  ensureCore : Carries I ensureCore
  build : ∀ p, Carries I (buildClasses p)
  work : ∀ {p : Program}, p.Only Operation.Sizeless → Carries I (inWorld p.run)

theorem Carried.steady (hI : Carried I)
    (hwork : ∀ {p : Program}, p.Only Operation.Sizeless → Carries I (inWorld p.run)) :
    Steady I where
  boot := hI.boot
  ensureCore := hI.ensureCore
  build := hI.classes
  work := hwork

theorem Steady.call (hI : Steady I) {c : Call} (hc : ∀ r, c ≠ .init r) : Carries I c.run := by
  cases c with
  | init r => exact absurd rfl (hc r)
  | ensureCore => exact hI.ensureCore.bind fun _ => .pure _
  | boot id => exact (hI.boot id).bind fun _ => .pure _
  | build p => exact (hI.build p).bind fun _ => .pure _
  | work p sizeless => exact (hI.work sizeless).bind fun _ => .pure _
  | fetch name => exact .gets _
  | engine itemCost => exact .gets _

/-- What is said of a process stays true in all calls. -/
structure Lasting (I : Process → Prop) : Prop extends Steady I where
  logging : ∀ {e} logging, I e → I { e with logging := logging }
  opened : ∀ {e} s, I e → I (e.opened s)
  settings : ∀ {e} s, I e → I { e with settings := s }

theorem Lasting.call (hI : Lasting I) (c : Call) : Carries I c.run := by
  cases c with
  | init r =>
    refine .of_state fun e he => ?_
    rw [(Call.run_init r e).1]
    cases hsettings : e.settings with
    | some s₀ => rwa [start_of_some hsettings]
    | none =>
      have hcore := (hI.ensureCore _ (hI.opened r.settings he)).1
      rcases start_cases hsettings r with
        ⟨-, stop, logging, -, hstate⟩ | ⟨-, stop, -, -, hstate⟩ | ⟨-, -, -, hstate⟩
      · rw [hstate]
        exact hI.logging _ he
      · rwa [hstate]
      · rw [hstate]
        exact hI.settings _ hcore
  | _ => exact hI.toSteady.call nofun

theorem Lasting.after (hI : Lasting I) (he : I e) (calls : List Call) : I (e.after calls) := by
  induction calls generalizing e with
  | nil => exact he
  | cons c rest ih => exact ih ((hI.call c e he).1)

theorem ensureCore_eq (e : Process) :
    ensureCore e = ensureCoreBy (bootBy ownInit (e.declared.length + 1)) e := by
  unfold ensureCore
  by_cases hready : e.coreReady
  · rw [ensureCoreBy_of_ready _ hready, ensureCoreBy_of_ready _ hready]
  · rw [ensureCoreBy_of_unready _ hready, ensureCoreBy_of_unready _ hready, Step.bind_apply,
      Step.bind_apply, boot_eq_bootBy]

theorem Idle.carries {e₀ : Process} (h : Idle e e') (he : Sound e ∧ Advances e₀ e) :
    Sound e' ∧ Advances e₀ e' :=
  ⟨he.1.idle h, he.2.trans h.advances⟩

theorem lasting_sound (e₀ : Process) : Lasting fun e => Sound e ∧ Advances e₀ e where
  boot id := .of_meets fun e he => .of_eq (boot_eq_bootBy id e) <|
    (bootBy_boots _ id e he.1).mono (fun _ _ h => ⟨h.1, he.2.trans h.2.1⟩)
      fun _ _ h => ⟨h.1, he.2.trans h.2.1⟩
  ensureCore := .of_meets fun e he => .of_eq (ensureCore_eq e) <|
    (ensureCoreBy_meets (bootBy_boots _) he.1).mono (fun _ _ h => ⟨h.1, he.2.trans h.2⟩)
      fun _ _ h => ⟨h.1, he.2.trans h.2.1⟩
  build _ := .inWorld fun _ => Idle.carries ⟨rfl, rfl, rfl⟩
  work _ := .inWorld fun _ => Idle.carries ⟨rfl, rfl, rfl⟩
  logging _ := Idle.carries ⟨rfl, rfl, rfl⟩
  opened _ := Idle.carries ⟨rfl, rfl, rfl⟩
  settings _ := Idle.carries ⟨rfl, rfl, rfl⟩

theorem lasting_coreFirst : Lasting CoreFirst where
  toSteady := carried_coreFirst.steady fun _ => .inWorld fun _ h => ⟨h.built, h.done⟩
  logging _ h := ⟨h.built, h.done⟩
  opened _ h := ⟨h.built, h.done⟩
  settings _ h := ⟨h.built, h.done⟩

theorem lasting_coreReady : Lasting (·.coreReady = true) where
  toSteady := carried_coreReady.steady fun _ => .inWorld fun _ h => h
  logging _ h := h
  opened _ h := h
  settings _ h := h

theorem steady_settings (s : Option Settings) : Steady (·.settings = s) :=
  (carried_settings s).steady fun _ => .inWorld fun _ h => h

theorem steady_world {P : World → Prop} (hP : OnNames P) :
    Steady fun e => Whole e.world ∧ P e.world :=
  (carried_world hP).steady fun hp => .inWorld fun e h => (hP.keepsWhole_run hp e.world h).1

theorem lasting_stores (n : Nat) (bound : List (Binding ClassId)) :
    Lasting fun e => Whole e.world ∧ Stores n bound e.world where
  toSteady := steady_world (onNames_stores n bound)
  logging _ h := h
  opened {e} s h := by
    obtain ⟨reg, more, hreg, hrest⟩ := h.2
    unfold Process.opened
    rw [ensureRegistry_of_some s.capacity hreg]
    exact ⟨h.1, reg, more, hreg, hrest⟩
  settings _ h := h

theorem lasting_whole : Lasting fun e => Whole e.world where
  toSteady := by
    have hboth := steady_world (P := fun _ => True) ⟨fun _ _ => trivial, fun _ _ _ _ => trivial⟩
    simpa only [and_true] using hboth
  logging _ h := h
  opened s h := (ensureRegistry_goes h s.capacity).state.1
  settings _ h := h

/-! ### The core classes -/

theorem ensureCore_ready (h : (ensureCore e).answer = .ok ()) :
    (ensureCore e).state.coreReady = true := by
  unfold ensureCore at h ⊢
  by_cases hready : e.coreReady
  · rwa [ensureCoreBy_of_ready boot hready]
  · rw [ensureCoreBy_of_unready boot hready] at h ⊢
    rcases hboot : boot .core e with ⟨e', (stop | u), es⟩
    · rw [Step.bind_of_stop _ hboot] at h
      cases h
    · rw [Step.state_bind_of_ok _ hboot]
      rfl

theorem core_of_done (h : e.progress .core = .done) :
    boot .core e = ⟨e, .ok (), []⟩ ∧
      ensureCore e = ⟨{ e with coreReady := true }, .ok (), []⟩ := by
  have hboot : boot .core e = ⟨e, .ok (), []⟩ :=
    (boot_eq_bootBy _ e).trans (bootBy_of_done (d := corePrerequisites) rfl h)
  refine ⟨hboot, ?_⟩
  unfold ensureCore
  by_cases hready : e.coreReady
  · rw [ensureCoreBy_of_ready boot hready, ← hready]
  · rw [ensureCoreBy_of_unready boot hready, Step.bind_of_ok _ hboot]
    rfl

theorem CoreFirst.ensureCore_eq (hc : CoreFirst e) (h : e.progress .core ≠ .done) :
    ensureCore e = (do
      boot .core
      Step.modify ({ · with coreReady := true }) : Step Process Unit) e :=
  ensureCoreBy_of_unready boot fun hready => h (hc.done hready)

theorem CoreFirst.of_inProgress (hc : CoreFirst e) (h : e.progress .core = .inProgress) :
    boot .core e = Step.fault (.bootstrapCycle "Clownfish") e ∧
      ensureCore e = Step.fault (.bootstrapCycle "Clownfish") e := by
  have hboot : boot .core e = Step.fault (.bootstrapCycle "Clownfish") e :=
    (boot_eq_bootBy _ e).trans (bootBy_of_inProgress (d := corePrerequisites) rfl h)
  have hdone : e.progress .core ≠ .done := by
    rw [h]
    exact nofun
  exact ⟨hboot, (hc.ensureCore_eq hdone).trans (Step.bind_of_stop _ hboot)⟩

/-- The first attempt at the core parcel runs its init. -/
theorem CoreFirst.of_notStarted (hc : CoreFirst e) (h : e.progress .core = .notStarted) :
    .core ∈ (boot .core e).state.initRuns ∧ .core ∈ (ensureCore e).state.initRuns := by
  have hboot : .core ∈ (boot .core e).state.initRuns := by
    have hran : .core ∈ e.begun.initRuns :=
      List.mem_append_right _ (List.mem_singleton_self ParcelId.core)
    rw [boot_eq_bootBy, bootBy_core h]
    obtain ⟨w, -, heq | heq⟩ := state_buildCore e.begun
    · rwa [heq]
    · rwa [heq]
  refine ⟨hboot, ?_⟩
  rw [hc.ensureCore_eq (by rw [h]; exact nofun)]
  rcases heq : boot .core e with ⟨e', (stop | u), es⟩
  · rw [heq] at hboot
    rwa [Step.bind_of_stop _ heq]
  · rw [heq] at hboot
    rwa [Step.state_bind_of_ok _ heq]

/-! ### Between calls -/

/-- Settings come from a start that completes. -/
theorem settings_call (h : e.settings = none) (c : Call) (s : Settings) :
    (c.run e).state.settings = some s ↔
      (∃ r, c = .init r ∧ r.settings = s) ∧ (c.run e).answer = .ok (.settings s) := by
  by_cases hc : ∃ r, c = .init r
  · obtain ⟨r, rfl⟩ := hc
    obtain ⟨hrun, hreply⟩ := Call.run_init r e
    rw [hrun, hreply]
    rcases start_cases h r with
      ⟨-, stop, logging, hanswer, hstate⟩ | ⟨-, stop, -, hanswer, hstate⟩ |
        ⟨-, -, hanswer, hstate⟩
    · rw [hanswer, hstate, h]
      exact ⟨nofun, nofun⟩
    · have hstill := ((steady_settings none).ensureCore (e.opened r.settings) h).1
      rw [hanswer, hstate, hstill]
      exact ⟨nofun, nofun⟩
    · rw [hanswer, hstate]
      refine ⟨fun hs => ?_, fun ⟨_, hs⟩ => ?_⟩
      · obtain rfl := Option.some.inj hs
        exact ⟨⟨r, rfl, rfl⟩, rfl⟩
      · obtain rfl := Reply.settings.inj (Except.ok.inj hs)
        rfl
  · have hstill := ((steady_settings none).call (c := c) (fun r hr => hc ⟨r, hr⟩) e h).1
    rw [hstill]
    exact ⟨nofun, fun ⟨⟨r, hr, _⟩, _⟩ => absurd ⟨r, hr⟩ hc⟩

theorem opened_stores (hw : Whole e.world) (s : Settings) :
    ∃ n bound, Stores n bound (e.opened s).world := by
  cases hreg : e.world.registry with
  | none => exact ⟨_, _, stores_ensureRegistry s.capacity hreg⟩
  | some reg =>
    obtain ⟨bound, -, hstores⟩ := hw.stores hreg
    exact ⟨_, _, ((lasting_stores _ _).opened s ⟨hw, hstores⟩).2⟩

/-- What is true of a process between any two calls. -/
structure Reached (e : Process) : Prop where
  sound : Sound e
  core : CoreFirst e
  whole : Whole e.world
  started : ∀ s, e.settings = some s → e.coreReady = true ∧ e.world.registry ≠ none

theorem Reached.start (hash : String → Nat) (t : HostTable) (parcels : List Parcel) :
    Reached { world := { hash := hash, host := t }, declared := parcels } where
  sound := (Called.start (fun _ => rfl) rfl).sound
  core := ⟨fun h => absurd rfl h, nofun⟩
  whole := .start hash t
  started := nofun

theorem Reached.call (h : Reached e) (c : Call) : Reached (c.run e).state where
  sound := ((lasting_sound e).call c e ⟨h.sound, .refl e⟩).1.1
  core := (lasting_coreFirst.call c e h.core).1
  whole := (lasting_whole.call c e h.whole).1
  started s hs := by
    cases hsettings : e.settings with
    | some s₀ =>
      obtain ⟨hready, hregistry⟩ := h.started s₀ hsettings
      obtain ⟨reg, hreg⟩ := Option.ne_none_iff_exists'.1 hregistry
      obtain ⟨bound, -, hstores⟩ := h.whole.stores hreg
      have hkept := ((lasting_stores _ bound).call c e ⟨h.whole, hstores⟩).1
      exact ⟨(lasting_coreReady.call c e hready).1, hkept.2.registry_ne_none⟩
    | none =>
      obtain ⟨⟨r, rfl, rfl⟩, hanswer⟩ := (settings_call hsettings c s).1 hs
      obtain ⟨hrun, hreply⟩ := Call.run_init r e
      rw [hreply] at hanswer
      rcases start_cases hsettings r with
        ⟨-, stop, logging, hstop, -⟩ | ⟨-, stop, -, hstop, -⟩ | ⟨-, hcore, -, hstate⟩
      · rw [hstop] at hanswer
        cases hanswer
      · rw [hstop] at hanswer
        cases hanswer
      · obtain ⟨n, bound, hstores⟩ := opened_stores h.whole r.settings
        have hkept := ((lasting_stores n bound).ensureCore (e.opened r.settings)
          ⟨lasting_whole.opened r.settings h.whole, hstores⟩).1
        rw [hrun, hstate]
        exact ⟨ensureCore_ready hcore, hkept.2.registry_ne_none⟩

theorem Reached.after (h : Reached e) (calls : List Call) : Reached (e.after calls) := by
  induction calls generalizing e with
  | nil => exact h
  | cons c rest ih => exact ih (h.call c)

/-! ### What is settled -/

/-- The registry is made by the first call that starts the process or binds a name, and then it is
there for good.  A start that does not come to it leaves none. -/
structure RegistrySettles (e : Process) : Prop where
  unmade : e.world.registry = none → ∀ c : Call, c.Opens e →
    (∀ r, c ≠ .init r) ∧ (c.run e).state.world.registry = none ∨
    ∃ reg, (c.run e).state.world.registry = some reg ∧
      reg.capacity = Registry.capacityFor c.size ∧
      ((∃ r, c = .init r) ∨ ∃ name k, reg.fetch name = some k)
  closed : e.world.registry = none → ∀ c : Call, ¬ c.Opens e →
    (c.run e).state.world.registry = none
  made : ∀ reg, e.world.registry = some reg → ∀ calls, ∃ reg',
    (e.after calls).world.registry = some reg' ∧ reg'.capacity = reg.capacity ∧
      ∀ name k, reg.fetch name = some k → reg'.fetch name = some k

/-- There are no settings until a start completes, and those of the start stay in force.  A start
that does not come to the registry changes nothing but that logging may be set up. -/
structure SettingsSettle (e : Process) : Prop where
  unset : e.settings = none → ∀ (c : Call) s, (c.run e).state.settings = some s ↔
    (∃ r, c = .init r ∧ r.settings = s) ∧ (c.run e).answer = .ok (.settings s)
  stopped : ∀ r stop, ((Call.init r).run e).answer = .error stop →
    ((Call.init r).run e).state.settings = none
  closed : e.settings = none → ∀ c : Call, ¬ c.Opens e → ∃ stop logging,
    (c.run e).answer = .error stop ∧ (c.run e).state = { e with logging := logging }
  inForce : ∀ s, e.settings = some s → (∀ calls, (e.after calls).settings = some s) ∧
    ∀ r, (Call.init r).run e = ⟨e, .ok (.settings s), []⟩

/-- The calls that the core classes are bootstrapped by, on their own or with a start. -/
def Call.ForCore (c : Call) : Prop :=
  c = .boot .core ∨ c = .ensureCore ∨ ∃ r, c = .init r

/-- The init of the core parcel is run at most once.  The first call that comes to it runs it.  When
it stopped, all calls that come to it stop; when it is done, nothing is left to do for them. -/
structure CoreSettles (e : Process) : Prop where
  once : e.initRuns.count .core ≤ 1
  onward : ∀ calls, ∃ new, (e.after calls).initRuns = e.initRuns ++ new
  begun : e.progress .core ≠ .notStarted →
    ∀ calls, (e.after calls).progress .core = e.progress .core
  untouched : e.progress .core = .notStarted → .core ∉ e.initRuns ∧ e.settings = none ∧
    ∀ c : Call, c.ForCore → c.Opens e → .core ∈ (c.run e).state.initRuns
  stopped : e.progress .core = .inProgress → .core ∈ e.initRuns ∧ e.settings = none ∧
    ∀ c : Call, c.ForCore → c.Opens e →
      (c.run e).answer = .error (.fault (.bootstrapCycle "Clownfish")) ∧
        (c.run e).state.world.classes = e.world.classes
  built : e.progress .core = .done → .core ∈ e.initRuns ∧
    (Call.boot .core).run e = ⟨e, .ok .done, []⟩ ∧
    Call.ensureCore.run e = ⟨{ e with coreReady := true }, .ok .done, []⟩ ∧
    (e.settings = none → ∀ r : Request, r.Opens e →
      ((Call.init r).run e).answer = .ok (.settings r.settings) ∧
        ((Call.init r).run e).state =
          { e.opened r.settings with coreReady := true, settings := some r.settings })

theorem Call.run_of_closed (h : e.settings = none) {c : Call} (hclosed : ¬ c.Opens e) :
    ∃ stop logging, (c.run e).answer = .error stop ∧
      (c.run e).state = { e with logging := logging } := by
  cases c with
  | init r =>
    obtain ⟨hrun, hreply⟩ := Call.run_init r e
    obtain ⟨stop, logging, hstart⟩ := start_of_closed h hclosed
    rw [hrun, hreply, hstart]
    exact ⟨stop, logging, rfl, rfl⟩
  | _ => exact absurd trivial hclosed

theorem Reached.settings_of_unmade (h : Reached e) (hnone : e.world.registry = none) :
    e.settings = none := by
  by_contra hne
  obtain ⟨s, hs⟩ := Option.ne_none_iff_exists'.1 hne
  exact (h.started s hs).2 hnone

/-- A registry is made for a start, or for the first name. -/
theorem Reached.registrySettles (h : Reached e) : RegistrySettles e where
  unmade hnone c hopens := by
    by_cases hc : ∃ r, c = .init r
    · obtain ⟨r, rfl⟩ := hc
      have hmade := stores_ensureRegistry r.settings.capacity hnone
      obtain ⟨-, reg, more, hreg, hcapacity, -⟩ :=
        ((lasting_stores _ []).ensureCore (e.opened r.settings)
          ⟨lasting_whole.opened r.settings h.whole, hmade⟩).1
      refine .inr ⟨reg, ?_, hcapacity, .inl ⟨r, rfl⟩⟩
      rw [(Call.run_init r e).1]
      rcases start_cases (h.settings_of_unmade hnone) r with
        ⟨hclosed, -⟩ | ⟨-, stop, -, -, hstate⟩ | ⟨-, -, -, hstate⟩
      · exact absurd hopens hclosed
      · rw [hstate, hreg]
      · rw [hstate]
        exact hreg
    · have hinit : ∀ r, c ≠ .init r := fun r hr => hc ⟨r, hr⟩
      have hsize : c.size = defaultCapacity := by
        cases c with
        | init r => exact absurd rfl (hinit r)
        | _ => rfl
      obtain ⟨-, hnone' | ⟨b, reg, more, hreg, hcapacity, hrep⟩⟩ :=
        ((steady_world onNames_unsized).call hinit e ⟨h.whole, .inl hnone⟩).1
      · exact .inl ⟨hinit, hnone'⟩
      · refine .inr ⟨reg, hreg, hsize ▸ hcapacity, .inr ⟨b.key, b.value, ?_⟩⟩
        rw [Registry.fetch, hrep.probe_bound List.mem_cons_self]
  closed hnone c hclosed := by
    obtain ⟨stop, logging, -, hstate⟩ := Call.run_of_closed (h.settings_of_unmade hnone) hclosed
    rwa [hstate]
  made reg hreg calls := by
    obtain ⟨bound, hrep, hstores⟩ := h.whole.stores hreg
    obtain ⟨-, hkept⟩ := (lasting_stores _ bound).after ⟨h.whole, hstores⟩ calls
    obtain ⟨reg', more, hreg', hcapacity, -⟩ := id hkept
    exact ⟨reg', hreg', hcapacity, fun name k hk => hkept.fetch hrep hreg' hk⟩

theorem settings_kept (hs : e.settings = some s) (calls : List Call) :
    (e.after calls).settings = some s := by
  induction calls generalizing e with
  | nil => exact hs
  | cons c rest ih =>
    rw [after_cons]
    refine ih ?_
    cases c with
    | init r =>
      rw [(Call.run_init r e).1, start_of_some hs]
      exact hs
    | _ => exact ((steady_settings _).call (by nofun) e hs).1

theorem settingsSettle (e : Process) : SettingsSettle e where
  unset hnone c s := settings_call hnone c s
  stopped r stop hstop := by
    obtain ⟨hrun, hreply⟩ := Call.run_init r e
    cases hsettings : e.settings with
    | some s₀ =>
      rw [hreply, start_of_some hsettings] at hstop
      cases hstop
    | none =>
      by_contra hne
      obtain ⟨s', hs'⟩ := Option.ne_none_iff_exists'.1 hne
      have hanswer := ((settings_call hsettings _ _).1 hs').2
      rw [hstop] at hanswer
      cases hanswer
  closed hnone c hclosed := Call.run_of_closed hnone hclosed
  inForce s hs := by
    refine ⟨settings_kept hs, fun r => ?_⟩
    exact Step.bind_of_ok _ (start_of_some hs r)

theorem Reached.settings_none (h : Reached e) (hcore : e.progress .core ≠ .done) :
    e.settings = none := by
  by_contra hne
  obtain ⟨s, hs⟩ := Option.ne_none_iff_exists'.1 hne
  exact hcore (h.core.done (h.started s hs).1)

theorem Reached.coreSettles (h : Reached e) : CoreSettles e where
  once := List.nodup_iff_count_le_one.1 h.sound.once .core
  onward calls := by
    obtain ⟨-, hadv⟩ := (lasting_sound e).after ⟨h.sound, .refl e⟩ calls
    obtain ⟨new, hruns, -⟩ := hadv.runs
    exact ⟨new, hruns⟩
  begun hbegun calls :=
    ((lasting_sound e).after ⟨h.sound, .refl e⟩ calls).2.progress .core hbegun
  untouched hcore := by
    have hsettings := h.settings_none (by rw [hcore]; exact nofun)
    refine ⟨fun hmem => h.sound.begun _ hmem hcore, hsettings, fun c hc hopens => ?_⟩
    obtain ⟨hboot, hensure⟩ := h.core.of_notStarted hcore
    rcases hc with rfl | rfl | ⟨r, rfl⟩
    · exact (Step.state_bind_pure (boot .core) (fun _ => Reply.done) e).symm ▸ hboot
    · exact (Step.state_bind_pure ensureCore (fun _ => Reply.done) e).symm ▸ hensure
    · have hopened := ((lasting_coreFirst.opened r.settings h.core).of_notStarted hcore).2
      rw [(Call.run_init r e).1]
      rcases start_cases hsettings r with
        ⟨hclosed, -⟩ | ⟨-, stop, -, -, hstate⟩ | ⟨-, -, -, hstate⟩
      · exact absurd hopens hclosed
      · rwa [hstate]
      · rwa [hstate]
  stopped hcore := by
    have hsettings := h.settings_none (by rw [hcore]; exact nofun)
    refine ⟨h.core.built (by rw [hcore]; exact nofun), hsettings, fun c hc hopens => ?_⟩
    obtain ⟨hboot, hensure⟩ := h.core.of_inProgress hcore
    rcases hc with rfl | rfl | ⟨r, rfl⟩
    · have hrun : (Call.boot .core).run e = _ := Step.bind_of_stop _ hboot
      rw [hrun]
      exact ⟨rfl, rfl⟩
    · have hrun : Call.ensureCore.run e = _ := Step.bind_of_stop _ hensure
      rw [hrun]
      exact ⟨rfl, rfl⟩
    · have hopened := ((lasting_coreFirst.opened r.settings h.core).of_inProgress hcore).2
      obtain ⟨hrun, hreply⟩ := Call.run_init r e
      rcases start_cases hsettings r with
        ⟨hclosed, -⟩ | ⟨-, stop, hstop, hanswer, hstate⟩ | ⟨-, hok, -, -⟩
      · exact absurd hopens hclosed
      · rw [hopened] at hstop hstate
        rw [hrun, hreply, hanswer, hstate]
        exact ⟨congrArg Except.error (Except.error.inj hstop).symm, rfl⟩
      · rw [hopened] at hok
        cases hok
  built hcore := by
    obtain ⟨hboot, hensure⟩ := core_of_done hcore
    refine ⟨h.sound.ran _ hcore, Step.bind_of_ok _ hboot, Step.bind_of_ok _ hensure,
      fun hsettings r hopens => ?_⟩
    have hopened := (core_of_done (e := e.opened r.settings) hcore).2
    obtain ⟨hrun, hreply⟩ := Call.run_init r e
    rcases start_cases hsettings r with
      ⟨hclosed, -⟩ | ⟨-, stop, hstop, -, -⟩ | ⟨-, -, hanswer, hstate⟩
    · exact absurd hopens hclosed
    · rw [hopened] at hstop
      cases hstop
    · rw [hopened] at hstate
      rw [hrun, hreply, hanswer, hstate]
      exact ⟨rfl, rfl⟩

theorem memThresh_eq (e : Process) :
    e.memThresh = e.settings.elim 4294967295 Settings.memThresh := by
  unfold memThresh
  cases e.settings with
  | none => rfl
  | some s => rfl

/-- Whatever calls are made on a process, in whatever order, and whether they answer or stop: the
registry, the settings and the core classes are settled once each, and a new sort engine spills its
buffer at the threshold of the settings in force, or at the default one if there are none.  What
becomes of logs is up to the requests. -/
theorem settles_once (hash : String → Nat) (t : HostTable) (parcels : List Parcel)
    (calls : List Call) :
    let e := ({ world := { hash := hash, host := t }, declared := parcels } : Process).after calls
    RegistrySettles e ∧ SettingsSettle e ∧ CoreSettles e ∧
      ∀ (α : Type) (itemCost : α → Nat), (e.newEngine itemCost).memThresh =
        e.settings.elim 4294967295 Settings.memThresh := by
  have h := (Reached.start hash t parcels).after calls
  exact ⟨h.registrySettles, settingsSettle _, h.coreSettles, fun _ _ => memThresh_eq _⟩

/-- A registry of two slots is too small for the core classes.  It stays, and a second start cannot
build them either. -/
example :
    let e := ({} : Process).after
      [.init { settings := { capacity := 2 } }, .init { settings := { memThresh := 8 } }, .fetch "A"]
    e.world.registry.map Registry.capacity = some 2 ∧ e.settings = none ∧
      e.progress .core = .inProgress ∧ e.memThresh = 4294967295 := by
  decide +kernel

/-- A start whose log cannot be opened leaves nothing, and the next one counts. -/
example :
    let first := ({} : Process).after [.init { openLog := fun _ => .error "no such directory" }]
    let second := first.after [.init { settings := { memThresh := 8 } }]
    first.world.registry.isNone ∧ first.settings = none ∧ first.progress .core = .notStarted ∧
      second.settings = some { memThresh := 8 } ∧ second.initRuns = [.core] := by
  decide +kernel

/-- The core classes can come first.  Then the registry has the default size, and of two starts the
first one counts. -/
example :
    let e := ({} : Process).after
      [.boot .core, .init { settings := { capacity := 9, memThresh := 8 } }, .init {}]
    e.world.registry.map Registry.capacity = some 256 ∧
      e.settings = some { capacity := 9, memThresh := 8 } ∧
      e.initRuns = [.core] ∧ e.memThresh = 8 := by
  decide +kernel

end Process

end ObjectSystem
