import ObjectSystem.Proofs.Parcel.Order

/-! # Cycles of prerequisites

When all inits do what they should, and no earlier call has stopped half-way, the bootstrap of a
parcel succeeds unless a cycle of prerequisites is reached through parcels that are not done; then
it stops at a parcel of such a cycle.

The argument is that of a search in depth.  The parcels in progress are those on the way from the
parcel that was asked for to the one at hand, so meeting one of them again closes a cycle
(`Visits`).  The parcels that became done, in the order in which they did, come after all that they
need, so there is no cycle among them (`Built`). -/

namespace ObjectSystem

namespace Process

open Relation

variable {e e₁ e₂ : Process} {root id p q r : ParcelId} {d : Parcel} {n : Nat}
  {order : List ParcelId} {w w' : World}

/-! ### What waits for what -/

/-- A parcel that is not done needs another one that is not done. -/
def Pending (e : Process) (p q : ParcelId) : Prop :=
  e.Needs p q ∧ e.progress p ≠ .done ∧ e.progress q ≠ .done

/-- From a parcel a cycle through another one is reached. -/
def Loops (e : Process) (root q : ParcelId) : Prop :=
  ReflTransGen e.Pending root q ∧ TransGen e.Pending q q

/-! ### Inits that only build classes -/

/-- The classes that an init builds. -/
def classesOf (steps : List InitStep) : List ParcelSpec :=
  steps.filterMap fun
    | .classes p => some p
    | _ => none

/-- Builds classes in the world; the owners of their teardown functions are settled first. -/
def buildPart (p : ParcelSpec) : Step World Nat := do
  Step.modify (World.settleOwners p.classes p.novel p.overridden)
  World.bootstrap p

/-- Builds classes part by part. -/
def buildAll : List ParcelSpec → Step World Unit
  | [] => pure ()
  | p :: rest => do
    let _ ← buildPart p
    buildAll rest

/-- What an init does to the world when it bootstraps no parcels. -/
def worldInit (id : ParcelId) (d : Parcel) : Step World Unit :=
  if id = .core then Core.build else buildAll (classesOf d.init)

theorem inWorld_apply {α : Type} (x : Step World α) (e : Process) :
    inWorld x e = (x e.world).mapState fun w => { e with world := w } := rfl

theorem inWorld_bind {α β : Type} (x : Step World α) (f : α → Step World β) :
    inWorld (x >>= f) = inWorld x >>= fun a => inWorld (f a) := by
  funext e
  rw [Step.bind_apply, inWorld_apply, inWorld_apply, Step.bind_apply]
  rcases x e.world with ⟨w, (stop | a), es⟩
  · rfl
  · rfl

theorem runInit_eq_inWorld (boot : ParcelId → Step Process Unit) {steps : List InitStep}
    (hsteps : ∀ s ∈ steps, ∃ p, s = .classes p) :
    runInit boot steps = inWorld (buildAll (classesOf steps)) := by
  induction steps with
  | nil => rfl
  | cons s rest ih =>
    obtain ⟨p, rfl⟩ := hsteps s List.mem_cons_self
    have hrest := ih fun s hs => hsteps s (List.mem_cons_of_mem _ hs)
    show (inWorld (buildPart p) >>= fun _ => runInit boot rest) =
      inWorld (buildPart p >>= fun _ => buildAll (classesOf rest))
    rw [inWorld_bind, hrest]

theorem ownInit_eq_inWorld (boot : ParcelId → Step Process Unit)
    (hsteps : ∀ s ∈ d.init, ∃ p, s = .classes p) :
    ownInit boot id d = inWorld (worldInit id d) := by
  unfold ownInit worldInit
  by_cases hcore : id = .core
  · rw [if_pos hcore, if_pos hcore]
  · rw [if_neg hcore, if_neg hcore]
    exact runInit_eq_inWorld boot hsteps

/-! ### Orders in which inits can be run -/

/-- After the inits of some parcels it can be the turn of another one: it is not done, it is reached
from the one that was asked for, and its prerequisites were done or had their turn. -/
structure Due (e : Process) (root : ParcelId) (order : List ParcelId) (id : ParcelId)
    (d : Parcel) : Prop where
  declared : e.parcel? id = some d
  reached : ReflTransGen e.Pending root id
  undone : e.progress id ≠ .done
  fresh : id ∉ order
  ready : ∀ q, e.Needs id q → e.progress q = .done ∨ q ∈ order

/-- The world after the inits of some parcels, each run in its turn. -/
inductive Built (e : Process) (root : ParcelId) : List ParcelId → World → Prop
  | start : Built e root [] e.world
  | next {order : List ParcelId} {w w' : World} {id : ParcelId} {d : Parcel} :
      Built e root order w → Due e root order id d → (worldInit id d).Gives w () w' →
      Built e root (order ++ [id]) w'

/-- The inits of the parcels that are reached bootstrap no parcels themselves, and do not fail in
their turn. -/
structure Obliging (e : Process) (root : ParcelId) : Prop where
  classes : ∀ id d, ReflTransGen e.Pending root id → e.parcel? id = some d →
    ∀ s ∈ d.init, ∃ p, s = .classes p
  succeeds : ∀ order w id d, Built e root order w → Due e root order id d →
    ∃ w', (worldInit id d).Gives w () w'

theorem Built.reaches (h : Built e root order w) (hp : p ∈ order)
    (hreach : ReflTransGen e.Pending p q) : q ∈ order := by
  induction h generalizing p with
  | start => cases hp
  | @next order _ _ id _ _ hdue _ ih =>
    rcases List.mem_append.1 hp with hp | hp
    · exact List.mem_append_left _ (ih hp hreach)
    · obtain rfl := List.mem_singleton.1 hp
      rcases hreach.cases_head with rfl | ⟨r, hr, hreach⟩
      · exact List.mem_append_right _ hp
      · have hr' := (hdue.ready r hr.1).resolve_left hr.2.2
        exact List.mem_append_left _ (ih hr' hreach)

theorem Built.no_cycle (h : Built e root order w) (hp : p ∈ order) : ¬ TransGen e.Pending p p := by
  induction h with
  | start => cases hp
  | @next order _ _ id _ hbuilt hdue _ ih =>
    rcases List.mem_append.1 hp with hp | hp
    · exact ih hp
    · intro hcycle
      rw [List.mem_singleton.1 hp] at hcycle
      obtain ⟨q, hq, hback⟩ := TransGen.head'_iff.1 hcycle
      exact hdue.fresh (hbuilt.reaches ((hdue.ready q hq.1).resolve_left hq.2.2) hback)

/-! ### The search -/

/-- A search from `root` that began in `e` has come to `e'`: the inits of the parcels that became
done were run in turn, and all parcels in progress are reached. -/
structure Searched (e : Process) (root : ParcelId) (e' : Process) : Prop where
  declared : e'.declared = e.declared
  built : ∃ order, Built e root order e'.world ∧
    ∀ q, e'.progress q = .done ↔ e.progress q = .done ∨ q ∈ order
  reached : ∀ a, e'.progress a = .inProgress → ReflTransGen e.Pending root a

/-- A parcel can be visited: if it is not done, there is a way to it from each parcel in
progress. -/
def Visits (e : Process) (root : ParcelId) (e' : Process) (id : ParcelId) : Prop :=
  (e.parcel? id).isSome → e'.progress id ≠ .done →
    ReflTransGen e.Pending root id ∧ ∀ a, e'.progress a = .inProgress → TransGen e.Pending a id

/-- A visit is over: the same parcels are in progress, and what was done is. -/
structure Closes (e e' : Process) : Prop where
  inProgress : ∀ a, e'.progress a = .inProgress ↔ e.progress a = .inProgress
  done : ∀ a, e.progress a = .done → e'.progress a = .done

/-- A search stops at a cycle, or it runs out of an allowance. -/
def Circular (e : Process) (root : ParcelId) (stop : Stop) : Prop :=
  stop = .unfinished ∨
    ∃ q d, e.parcel? q = some d ∧ e.Loops root q ∧ stop = .fault (.bootstrapCycle d.name)

/-- A visit succeeds or it stops at a cycle. -/
def Explores (e : Process) (root : ParcelId) (boot : ParcelId → Step Process Unit) : Prop :=
  ∀ id e₁, Searched e root e₁ → Visits e root e₁ id →
    (boot id).Meets (fun _ e₂ => Searched e root e₂ ∧ Closes e₁ e₂ ∧ e₂.Settled id)
      (fun stop _ => Circular e root stop) e₁

theorem Closes.refl (e : Process) : Closes e e := ⟨fun _ => .rfl, fun _ h => h⟩

theorem Closes.trans (h : Closes e e₁) (h' : Closes e₁ e₂) : Closes e e₂ :=
  ⟨fun a => (h'.inProgress a).trans (h.inProgress a), fun a ha => h'.done a (h.done a ha)⟩

theorem Searched.undone (h : Searched e root e₁) (ha : e₁.progress q ≠ .done) :
    e.progress q ≠ .done := by
  obtain ⟨order, -, hdone⟩ := h.built
  exact fun hq => ha ((hdone q).2 (.inl hq))

theorem Searched.visits (h : Searched e root e₁) (hp : e₁.progress p = .inProgress)
    (hlast : ∀ a, e₁.progress a = .inProgress → ReflTransGen e.Pending a p)
    (hd : e.parcel? p = some d) (hq : q ∈ d.prerequisites) : Visits e root e₁ q := by
  intro hsome hundone
  have hpending : e.Pending p q :=
    ⟨⟨d, hd, hq, hsome⟩, h.undone (by rw [hp]; exact nofun), h.undone hundone⟩
  exact ⟨(h.reached p hp).tail hpending, fun a ha => .tail' (hlast a ha) hpending⟩

theorem bootAll_explores {boot : ParcelId → Step Process Unit} (hboot : Explores e root boot)
    (hd : e.parcel? p = some d) {ids : List ParcelId} (hids : ids ⊆ d.prerequisites)
    (h : Searched e root e₁) (hp : e₁.progress p = .inProgress)
    (hlast : ∀ a, e₁.progress a = .inProgress → ReflTransGen e.Pending a p) :
    (bootAll boot ids).Meets
      (fun _ e₂ => Searched e root e₂ ∧ Closes e₁ e₂ ∧ ∀ q ∈ ids, e₂.Settled q)
      (fun stop _ => Circular e root stop) e₁ := by
  induction ids generalizing e₁ with
  | nil => exact .of_ok rfl ⟨h, .refl e₁, fun q hq => by cases hq⟩
  | cons id rest ih =>
    obtain ⟨hid, hrest⟩ := List.cons_subset.1 hids
    refine (hboot id e₁ h (h.visits hp hlast hd hid)).bind ?_
    rintro - e₂ ⟨h₂, hcloses, hsettled⟩
    refine (ih hrest h₂ ((hcloses.inProgress p).2 hp) fun a ha =>
      hlast a ((hcloses.inProgress a).1 ha)).mono ?_ fun _ _ hstop => hstop
    rintro - e₃ ⟨h₃, hcloses', hall⟩
    refine ⟨h₃, hcloses.trans hcloses', fun q hq => ?_⟩
    rcases List.mem_cons.1 hq with rfl | hq
    · intro hsome
      rw [parcel?_congr (h₃.declared.trans h₂.declared.symm)] at hsome
      exact hcloses'.done q (hsettled hsome)
    · exact hall q hq

/-- A parcel is begun. -/
theorem Searched.begin (h : Searched e root e₁) (hreach : ReflTransGen e.Pending root id)
    (hid : e₁.progress id = .notStarted) : Searched e root (e₁.mark id .inProgress) where
  declared := h.declared
  built := by
    obtain ⟨order, hbuilt, hdone⟩ := h.built
    refine ⟨order, hbuilt, fun q => ?_⟩
    rw [← hdone q]
    by_cases hq : q = id
    · rw [hq, progress_mark_self, hid]
      exact ⟨nofun, nofun⟩
    · rw [progress_mark_of_ne hq]
  reached a ha := by
    by_cases hne : a = id
    · rw [hne]
      exact hreach
    · rw [progress_mark_of_ne hne] at ha
      exact h.reached a ha

/-- A parcel is done after its init was run in its turn. -/
theorem Searched.finish (h : Searched e root e₁) (hd : e.parcel? id = some d)
    (hid : e₁.progress id = .inProgress) (hsettled : ∀ q ∈ d.prerequisites, e₁.Settled q)
    (hobliging : Obliging e root) :
    ∃ w, (worldInit id d).Gives e₁.world () w ∧
      Searched e root ({ e₁.ran id with world := w }.mark id .done) := by
  obtain ⟨order, hbuilt, hdone⟩ := h.built
  have hundone : e₁.progress id ≠ .done := by
    rw [hid]
    exact nofun
  have hdue : Due e root order id d := by
    refine ⟨hd, h.reached id hid, h.undone hundone, fun hmem => hundone ((hdone id).2 (.inr hmem)),
      fun q hq => ?_⟩
    obtain ⟨d', hd', hq, hsome⟩ := hq
    obtain rfl : d = d' := Option.some.inj (hd.symm.trans hd')
    refine (hdone q).1 (hsettled q hq ?_)
    rw [parcel?_congr h.declared]
    exact hsome
  obtain ⟨w, hw⟩ := hobliging.succeeds order _ id d hbuilt hdue
  refine ⟨w, hw, h.declared, ⟨order ++ [id], hbuilt.next hdue hw, fun q => ?_⟩, fun a ha => ?_⟩
  · rw [List.mem_append, List.mem_singleton, ← or_assoc, ← hdone q]
    by_cases hq : q = id
    · rw [hq, progress_mark_self]
      exact ⟨fun _ => .inr rfl, fun _ => rfl⟩
    · rw [progress_mark_of_ne hq]
      exact (or_iff_left hq).symm
  · by_cases hne : a = id
    · rw [hne, progress_mark_self] at ha
      cases ha
    · rw [progress_mark_of_ne hne] at ha
      exact h.reached a ha

theorem Closes.of_begun (hid : e.progress id = .notStarted) (h : Closes (e.mark id .inProgress) e₁)
    (hsame : e₂.progress = e₁.progress) : Closes e (e₂.mark id .done) where
  inProgress a := by
    by_cases hne : a = id
    · rw [hne, progress_mark_self, hid]
      exact ⟨nofun, nofun⟩
    · rw [progress_mark_of_ne hne, hsame, h.inProgress a, progress_mark_of_ne hne]
  done a ha := by
    have hne : a ≠ id := by
      rintro rfl
      rw [hid] at ha
      cases ha
    rw [progress_mark_of_ne hne, hsame]
    exact h.done a (by rw [progress_mark_of_ne hne, ha])

/-- Only the visit of a parcel that was not started does anything, and a parcel in progress closes
a cycle. -/
theorem Explores.of_start (hstart : ∀ id d e₁, Searched e root e₁ →
      ReflTransGen e.Pending root id →
      (∀ a, e₁.progress a = .inProgress → TransGen e.Pending a id) → e.parcel? id = some d →
      e₁.progress id = .notStarted → (bootBy ownInit n id).Meets
        (fun _ e₂ => Searched e root e₂ ∧ Closes e₁ e₂ ∧ e₂.Settled id)
        (fun stop _ => Circular e root stop) e₁) :
    Explores e root (bootBy ownInit n) := by
  intro id e₁ h hvisit
  have hparcel : e₁.parcel? id = e.parcel? id := parcel?_congr h.declared id
  unfold Visits at hvisit
  rw [← hparcel] at hvisit
  refine bootBy_meets (fun hnone => ?_) (fun d _ hdone => ?_) (fun d hd hid => ?_)
    fun d hd hid => ?_
  · refine ⟨h, .refl e₁, fun hsome => ?_⟩
    rw [hnone] at hsome
    cases hsome
  · exact ⟨h, .refl e₁, fun _ => hdone⟩
  · obtain ⟨hreach, hway⟩ := hvisit (Option.isSome_of_eq_some hd) (by rw [hid]; exact nofun)
    exact .inr ⟨id, d, hparcel ▸ hd, ⟨hreach, hway id hid⟩, rfl⟩
  · obtain ⟨hreach, hway⟩ := hvisit (Option.isSome_of_eq_some hd) (by rw [hid]; exact nofun)
    exact hstart id d e₁ h hreach hway (hparcel ▸ hd) hid

/-- Every bootstrap is a visit of such a search. -/
theorem bootBy_explores (hobliging : Obliging e root) (n : Nat) :
    Explores e root (bootBy ownInit n) := by
  induction n with
  | zero =>
    refine .of_start fun id d e₁ h _ _ hd hid => ?_
    rw [← parcel?_congr h.declared] at hd
    exact .of_stop (bootBy_zero hd hid) (.inl rfl)
  | succ n ih =>
    refine .of_start fun id d e₁ h hreach hway hd hid => ?_
    have hd₁ : e₁.parcel? id = some d := (parcel?_congr h.declared id).trans hd
    refine .of_eq (bootBy_succ hd₁ hid) ?_
    have hself : (e₁.mark id .inProgress).progress id = .inProgress := progress_mark_self ..
    have hlast : ∀ a, (e₁.mark id .inProgress).progress a = .inProgress →
        ReflTransGen e.Pending a id := by
      intro a ha
      by_cases hne : a = id
      · rw [hne]
      · rw [progress_mark_of_ne hne] at ha
        exact (hway a ha).to_reflTransGen
    refine (bootAll_explores ih hd (List.Subset.refl _) (h.begin hreach hid) hself hlast).bind ?_
    rintro - e₂ ⟨h₂, hcloses, hsettled⟩
    obtain ⟨w, hw, hdone⟩ := h₂.finish hd ((hcloses.inProgress id).2 hself) hsettled hobliging
    refine .of_eq (Step.modify_bind _ _ _) ?_
    rw [ownInit_eq_inWorld _ (hobliging.classes id d hreach hd)]
    refine .of_gives ((Step.gives_bind ..).2 ⟨(), { e₂.ran id with world := w }, ?_, rfl, rfl⟩)
      ⟨hdone, hcloses.of_begun hid rfl, fun _ => progress_mark_self ..⟩
    exact ⟨by rw [inWorld_apply]; exact hw.1, by rw [inWorld_apply]; exact hw.2 ▸ rfl⟩

/-! ### Calls -/

theorem eq_of_reaches (h : ∀ q, e.Pending p q → q = p) (hreach : ReflTransGen e.Pending p q) :
    q = p := by
  induction hreach with
  | refl => rfl
  | tail _ hr ih =>
    rw [ih] at hr
    exact h _ hr

theorem Searched.no_loops (h : Searched e id e₁) (hsettled : e₁.Settled id) : ¬ e.Loops id q := by
  rintro ⟨hreach, hcycle⟩
  obtain ⟨order, hbuilt, hdone⟩ := h.built
  obtain ⟨r, ⟨⟨d, hd, -⟩, hundone, -⟩, -⟩ :=
    TransGen.head'_iff.1 (TransGen.trans_right hreach hcycle)
  have hsome : (e₁.parcel? id).isSome := by
    rw [parcel?_congr h.declared, hd]
    rfl
  have hid : id ∈ order := ((hdone id).1 (hsettled hsome)).resolve_left hundone
  exact hbuilt.no_cycle (hbuilt.reaches hid hreach) hcycle

/-- A call from a state without parcels in progress is such a search. -/
theorem boot_explores (he : Sound e) (hnone : ∀ p, e.progress p ≠ .inProgress)
    (hobliging : Obliging e id) :
    (boot id).Meets (fun _ e' => Searched e id e' ∧ Closes e e' ∧ e'.Settled id)
      (fun stop _ => ∃ q d, e.parcel? q = some d ∧ e.Loops id q ∧
        stop = .fault (.bootstrapCycle d.name)) e := by
  have hstart : Searched e id e :=
    ⟨rfl, ⟨[], .start, fun q => by simp⟩, fun a ha => absurd ha (hnone a)⟩
  have hvisit : Visits e id e id := fun _ _ => ⟨.refl, fun a ha => absurd ha (hnone a)⟩
  have hsearch := bootBy_explores hobliging (e.declared.length + 1) id e hstart hvisit
  have hboot := boot_meets id he
  refine ⟨fun a ha => ?_, fun stop hstop => ?_⟩
  · rw [boot_eq_bootBy] at ha ⊢
    exact hsearch.1 a ha
  · have hfinished := (hboot.2 stop hstop).2
    rw [boot_eq_bootBy] at hstop
    exact (hsearch.2 stop hstop).resolve_left hfinished

/-- Whatever calls came before, and however they ended: every call comes to an end; no init was run
twice; inits are run only when the prerequisites are done; what is done has had its init run, and
all that it needs, directly or not, is done.  From a state without parcels in progress a call
succeeds if and only if it leads to no cycle, and otherwise it stops at a parcel on such a cycle,
when the inits are obliging. -/
theorem Called.in_order (h : Called e) :
    (∀ id, (boot id e).answer ≠ .error .unfinished) ∧
    e.initRuns.Nodup ∧
    (∀ other id, guardedBoot other id e = boot id e) ∧
    (∀ p, e.progress p = .done →
      p ∈ e.initRuns ∧ ∀ q, TransGen e.Needs p q → e.progress q = .done) ∧
    ((∀ p, e.progress p ≠ .inProgress) → ∀ id, Obliging e id →
      ((boot id e).answer = .ok () ↔ ¬ ∃ q, e.Loops id q) ∧
      ((boot id e).answer ≠ .ok () → ∃ q d, e.parcel? q = some d ∧ e.Loops id q ∧
        (boot id e).answer = .error (.fault (.bootstrapCycle d.name)))) := by
  have he := h.sound
  refine ⟨fun id hstop => ((boot_meets id he).2 _ hstop).2 rfl, he.once,
    fun other id => guardedBoot_eq_boot other id he,
    fun p hp => ⟨he.ran p hp, fun q hq => he.needs_done hp hq⟩, fun hnone id hobliging => ?_⟩
  obtain ⟨hok, herror⟩ := boot_explores he hnone hobliging
  cases hanswer : (boot id e).answer with
  | ok u =>
    obtain ⟨hsearched, -, hsettled⟩ := hok u hanswer
    have hloops : ¬ ∃ q, e.Loops id q := fun ⟨q, hq⟩ => hsearched.no_loops hsettled hq
    exact ⟨⟨fun _ => hloops, fun _ => rfl⟩, fun hne => absurd rfl hne⟩
  | error stop =>
    obtain ⟨q, d, hd, hloops, hstop⟩ := herror stop hanswer
    refine ⟨⟨fun heq => ?_, fun hnot => absurd ⟨q, hloops⟩ hnot⟩, fun _ => ⟨q, d, hd, hloops, ?_⟩⟩
    · cases heq
    · rw [hstop]

end Process

namespace Loft

open Process Relation

/-- Ropes. -/
def ropes : ParcelSpec where
  classes := [⟨⟨"Rope"⟩, none, "Rope", headerSize, none, 0, 0, 0, {}⟩]

/-- Parcels of ropes and of knots, which need ropes and themselves. -/
def bare : Process where
  declared := [⟨"Ropes", [], [.classes ropes]⟩, ⟨"Knots", [.declared 0, .declared 1], []⟩]

/-- The loft after ropes were asked for. -/
def roped : Process := (boot (.declared 0) bare).state

theorem ropes_wait (q : ParcelId) : ¬ bare.Pending (.declared 0) q := by
  rintro ⟨⟨d, hd, hq, -⟩, -⟩
  cases hd
  cases hq

theorem ropes_obliging : Obliging bare (.declared 0) := by
  have hlast : ∀ q, bare.Pending (.declared 0) q → q = .declared 0 := fun q h =>
    absurd h (ropes_wait q)
  refine ⟨fun id d hreach hd s hs => ?_, fun order w id d hbuilt hdue => ?_⟩
  · rw [eq_of_reaches hlast hreach] at hd
    cases hd
    exact ⟨ropes, List.mem_singleton.1 hs⟩
  · obtain rfl := eq_of_reaches hlast hdue.reached
    cases hbuilt with
    | start =>
      cases hdue.declared
      exact ⟨_, by decide +kernel, rfl⟩
    | next _ hdue' _ =>
      rw [eq_of_reaches hlast hdue'.reached] at hdue
      exact absurd (List.mem_append_right _ (List.mem_singleton_self _)) hdue.fresh

theorem roped_knots :
    roped.parcel? (.declared 1) = some ⟨"Knots", [.declared 0, .declared 1], []⟩ ∧
      roped.progress (.declared 0) = .done ∧ roped.progress (.declared 1) = .notStarted := by
  decide +kernel

theorem knots_wait (q : ParcelId) : roped.Pending (.declared 1) q ↔ q = .declared 1 := by
  obtain ⟨hknots, hdone, hundone⟩ := roped_knots
  constructor
  · rintro ⟨⟨d, hd, hq, -⟩, -, hpending⟩
    rw [hknots] at hd
    cases hd
    rcases List.mem_cons.1 hq with rfl | hq
    · exact absurd hdone hpending
    · exact List.mem_singleton.1 hq
  · rintro rfl
    refine ⟨⟨_, hknots, by decide, Option.isSome_of_eq_some hknots⟩, ?_⟩
    rw [hundone]
    exact ⟨nofun, nofun⟩

theorem knots_obliging : Obliging roped (.declared 1) := by
  obtain ⟨hknots, -, hundone⟩ := roped_knots
  have hlast : ∀ q, roped.Pending (.declared 1) q → q = .declared 1 := fun q h =>
    (knots_wait q).1 h
  refine ⟨fun id d hreach hd s hs => ?_, fun order w id d hbuilt hdue => ?_⟩
  · rw [eq_of_reaches hlast hreach, hknots] at hd
    cases hd
    cases hs
  · obtain rfl := eq_of_reaches hlast hdue.reached
    rcases hdue.ready _ ((knots_wait _).2 rfl).1 with hdone | hmem
    · rw [hundone] at hdone
      cases hdone
    · exact absurd hmem hdue.fresh

/-- Ropes are bootstrapped; knots are not, as they need themselves. -/
theorem knots_need_themselves :
    (boot (.declared 0) bare).answer = .ok () ∧
      (boot (.declared 1) roped).answer = .error (.fault (.bootstrapCycle "Knots")) := by
  have hbare : Called bare := .start (fun _ => rfl) rfl
  have hnone : ∀ p, bare.progress p ≠ .inProgress := fun _ => nofun
  have hok : (boot (.declared 0) bare).answer = .ok () := by
    refine (hbare.in_order.2.2.2.2 hnone _ ropes_obliging).1.2 ?_
    rintro ⟨q, hreach, hcycle⟩
    obtain ⟨r, hr, -⟩ := TransGen.head'_iff.1 (TransGen.trans_right hreach hcycle)
    exact ropes_wait r hr
  refine ⟨hok, ?_⟩
  have hcloses := ((boot_explores hbare.sound hnone ropes_obliging).1 () hok).2.1
  have hnone' : ∀ p, roped.progress p ≠ .inProgress := fun p hp =>
    hnone p ((hcloses.inProgress p).1 hp)
  have hroped : Called roped := hbare.call (.declared 0)
  obtain ⟨hiff, hcycle⟩ := hroped.in_order.2.2.2.2 hnone' _ knots_obliging
  have hwait : roped.Pending (.declared 1) (.declared 1) := (knots_wait _).2 rfl
  have hne : (boot (.declared 1) roped).answer ≠ .ok () := fun heq =>
    hiff.1 heq ⟨_, .refl, .single hwait⟩
  obtain ⟨q, d, hd, ⟨hreach, -⟩, hanswer⟩ := hcycle hne
  rw [eq_of_reaches (fun q h => (knots_wait q).1 h) hreach, roped_knots.1] at hd
  cases hd
  exact hanswer

end Loft

end ObjectSystem
