import ObjectSystem.Proofs.Class.Creation
import ObjectSystem.Proofs.Class.Operations
import ObjectSystem.Proofs.Class.Refusal

/-! # Hosts that are programs

A host may do whatever it likes before it answers, so long as it answers at all.  `Program` has what
it can do as a finite tree: it looks at the world, carries out an `Operation`, or asks for a class
by name with the help of other programs, and goes on with what came of it, which may be that the
operation stopped.

Every program leads from a whole world to a whole world that is a later one (`Program.goes`), and so
does asking for a class with the help of programs.  If there is an answer, it is the class that the
name is bound to (`singletonWith_goes`).

So what is there at the end of an operation is there for good (`descriptors_last`). -/

namespace ObjectSystem

open World

variable {α : Type}

/-! ### Programs -/

/-- The outcome of an operation, whether it has an answer or not. -/
def Step.attempt {σ : Type} (x : Step σ α) : Step σ (Except Stop α) :=
  fun s => ⟨(x s).state, .ok (x s).answer, (x s).events⟩

theorem Step.state_attempt_bind {σ β : Type} (x : Step σ α) (f : Except Stop α → Step σ β) (s : σ) :
    ((x.attempt >>= f) s).state = (f (x s).answer (x s).state).state :=
  state_bind_of_ok (x := x.attempt) f rfl

/-- What a host does before it answers. -/
inductive Program
  /-- Answers with the name of a parent, and with the methods that a class defines. -/
  | answer (parent : Option String) (methods : List String)
  /-- Gives up without an answer. -/
  | giveUp (reason : Stop)
  | look (next : World → Program)
  | act (op : Operation) (next : Except Stop Unit → Program)
  /-- Asks for a class by name, with other programs for a host, and below a class if it is one. -/
  | ask (find fresh : String → Program) (allowance : Nat) (name : String)
    (given : Option ClassId) (next : Except Stop (Except Report ClassId) → Program)

/-- The class of a number, if there is one. -/
def World.onlyClass (w : World) (given : Option ClassId) : Option ClassId :=
  given.filter fun p => p < w.classes.length

/-- Runs a program. -/
def Program.run : Program → Step World (Option String × List String)
  | answer parent methods => pure (parent, methods)
  | giveUp reason => fun w => ⟨w, .error reason, []⟩
  | look next => do (next (← Step.get)).run
  | act op next => do (next (← op.run.attempt)).run
  | ask find fresh allowance name given next => do
    let w ← Step.get
    let host : Host :=
      { findParent := fun cls => do return (← (find cls).run).1
        freshMethods := fun cls => do return (← (fresh cls).run).2
        registered := Host.table.registered }
    (next (← (singletonWith host allowance name (w.onlyClass given)).attempt)).run

/-- The host that runs programs when it is asked, and keeps a list of what it was told. -/
def Program.host (find fresh : String → Program) : Host where
  findParent cls := do return (← (find cls).run).1
  freshMethods cls := do return (← (fresh cls).run).2
  registered := Host.table.registered

theorem Program.run_act (op : Operation) (next : Except Stop Unit → Program) (w : World) :
    (act op next).run w = (op.run.attempt >>= fun r => (next r).run) w := rfl

theorem Program.run_ask {find fresh : String → Program} {allowance : Nat} {name : String}
    {given : Option ClassId} {next : Except Stop (Except Report ClassId) → Program} (w : World) :
    (ask find fresh allowance name given next).run w =
      ((singletonWith (host find fresh) allowance name (w.onlyClass given)).attempt >>= fun r =>
        (next r).run) w := rfl

theorem Step.Goes.attempt {x : Step World α} {Q : α → World → Prop} {w : World} (hx : x.Goes Q w) :
    x.attempt.Goes (fun r v => ∀ a, r = .ok a → Q a v) w where
  state := hx.state
  events := hx.events
  answer r hr a ha := hx.answer a (by rw [← ha]; exact Except.ok.inj hr)

/-! ### Asking for classes -/

/-- What a host does before it answers leads from whole worlds to whole worlds, and it keeps a list
of what it is told. -/
structure Host.Orderly (host : Host) : Prop where
  findParent : ∀ cls w, Whole w → (host.findParent cls).Goes (fun _ _ => True) w
  freshMethods : ∀ cls w, Whole w → (host.freshMethods cls).Goes (fun _ _ => True) w
  registered : host.registered = Host.table.registered

namespace World

variable {w w' : World} {name : String} {parent : Nat} {host : Host}

/-- A class is made below another one, under a name that was free, and the host is told. -/
theorem Whole.made {bound : List (Binding ClassId)} {reg : Registry ClassId} {d : Descriptor}
    (hw : Whole w) (hholds : w.Holds bound) (hinside : ∀ b ∈ bound, b.value < w.classes.length)
    (hrep : reg.Represents (bound ++ [⟨name, w.classes.length⟩]))
    (hname : d.name? = some name) (hbelow : d.parent = some parent)
    (hparent : parent < w.classes.length)
    (hlinks : (∀ hook, w.hook = some hook → hook.OnlyFills) → ∀ p ∈ d.links, p < w.classes.length)
    (hw' : w' = { w with
      registry := some reg
      classes := w.classes ++ [d]
      host := w.host.report name (w.nameOf parent) }) :
    Whole w' ∧ Course w w' ∧ w'.fetchClass name = some w.classes.length := by
  have hslots : w'.slots = w.slots := by rw [hw']
  have hmade : Entered w name d w' :=
    hholds.entered hinside hrep (by rw [hw']) (by rw [hw']) hslots
  have hlength := hmade.length_eq
  refine ⟨⟨hmade.bound, fun t c ht => ?_, fun c hc => ?_, fun hhook c p hp => ?_⟩,
    ⟨hmade.toLater, by rw [hw'], fun t c ht => .inl (hslots ▸ ht), [w.classes.length], ?_⟩,
    hmade.fetch⟩
  · rw [hlength]
    exact Nat.lt_succ_of_lt (hw.slots t c (hslots ▸ ht))
  · by_cases hlast : c = w.classes.length
    · rw [hlast, hmade.self]
      exact .inr ⟨name, parent, hname, hbelow, hmade.fetch⟩
    · have hlt : c < w.classes.length := by omega
      rcases hw.entered c hlt with ⟨t, ht⟩ | ⟨n, p, hn, hp, hbound⟩
      · exact .inl ⟨t, hslots ▸ ht⟩
      · rw [hmade.old hlt]
        exact .inr ⟨n, p, hn, hp, hmade.names n c hbound⟩
  · have hhook' : ∀ hook, w.hook = some hook → hook.OnlyFills := by rwa [hw'] at hhook
    rw [hlength]
    rw [hmade.get_eq] at hp
    split at hp
    · exact Nat.lt_succ_of_lt (hlinks hhook' p hp)
    · exact Nat.lt_succ_of_lt (hw.links hhook' c p hp)
  · refine ⟨?_, List.pairwise_singleton _ _, fun c => ?_, fun c hc => ?_⟩
    · have hnotice : w'.notice w.classes.length = (name, w.nameOf parent) := by
        unfold notice nameOf
        rw [hmade.self, hbelow, Option.elim_some, hmade.old hparent, Descriptor.name, hname]
        rfl
      rw [List.map_singleton, hnotice, hw']
      rfl
    · rw [List.mem_singleton, hlength, hslots]
      refine ⟨?_, fun h => by omega⟩
      rintro rfl
      exact ⟨Nat.le_refl _, Nat.lt_succ_self _, fun t ht => Nat.lt_irrefl _ (hw.slots t _ ht)⟩
    · rw [List.mem_singleton.1 hc, hmade.self, hlength]
      exact ⟨parent, hbelow, Nat.lt_succ_of_lt hparent⟩

/-- Functions cannot be put in because there is no slot for one of them. -/
theorem installAll_fault {d : Descriptor} {patches : List (Code × Nat)} {f : Fault}
    (h : installAll d patches = .error f) : ∃ cls offset, f = .slotOutOfRange cls offset := by
  induction patches generalizing d with
  | nil => cases h
  | cons patch rest ih =>
    obtain ⟨code, offset⟩ := patch
    unfold installAll at h
    cases hd : d.install code offset with
    | error e =>
      rw [hd] at h
      obtain rfl : e = f := Except.error.inj h
      unfold Descriptor.install at hd
      split at hd
      · cases hd
      · exact ⟨_, _, (Except.error.inj hd).symm⟩
    | ok d' =>
      rw [hd] at h
      exact ih h

/-- What becomes of a subclass when the host has said which methods it defines. -/
def enterSubclass (host : Host) (name : String) (parent : ClassId) (candidate : Descriptor)
    (fresh : List String) : Step World (Except Report ClassId) := do
  let w ← Step.get
  let patches := if fresh.isEmpty then [] else w.overridable parent fresh
  let candidate ← Step.ofExcept (installAll candidate patches)
  let c := w.classes.length
  if ← bindName name c then
    Step.modify fun w => { w with classes := w.classes ++ [candidate] }
    host.registered name (w.nameOf parent)
    Step.emit (.subclassCreated name (w.nameOf parent) patches.length)
    return .ok c
  else
    match (← Step.get).fetchClass name with
    | some winner => return .ok winner
    | none => Step.fault (.registryRace name)

theorem createSubclass_open (host : Host) (name : String)
    (hopen : (w.get parent).flags.final = false) :
    createSubclass host name parent w =
      (host.freshMethods name >>= enterSubclass host name parent (w.subclassOf parent name)) w := by
  unfold createSubclass
  rw [Step.get_bind, if_neg (by rw [hopen]; exact Bool.false_ne_true)]
  rfl

/-- The answer to a call is the class that the name is bound to. -/
def Bound (name : String) (r : Except Report ClassId) (w : World) : Prop :=
  ∀ c, r = .ok c → w.fetchClass name = some c

/-- A subclass is entered, or the name was bound meanwhile. -/
theorem enterSubclass_goes (hhost : host.registered = Host.table.registered) (hw : Whole w)
    (hparent : parent < w.classes.length) {candidate : Descriptor}
    (hname : candidate.name? = some name) (hbelow : candidate.parent = some parent)
    (hlinks : (∀ hook, w.hook = some hook → hook.OnlyFills) →
      ∀ p ∈ candidate.links, p < w.classes.length) (fresh : List String) :
    (enterSubclass host name parent candidate fresh).Goes (Bound name) w := by
  unfold enterSubclass
  refine .of_eq (Step.get_bind _ _) ?_
  cases hcand : installAll candidate
      (if fresh.isEmpty then [] else w.overridable parent fresh) with
  | error f =>
    obtain ⟨cls, offset, rfl⟩ := installAll_fault hcand
    exact .of_eq (y := Step.fault (.slotOutOfRange cls offset)) (Step.bind_of_stop _ rfl)
      (.fault hw (by nofun))
  | ok d =>
    obtain ⟨vtable, -, rfl⟩ := installAll_vtable hcand
    obtain ⟨bound, hholds, hinside⟩ := hw.bound
    refine .of_eq (Step.bind_of_ok _ rfl) ?_
    obtain ⟨reg, ⟨heq, hrep⟩ | ⟨heq, hrep, k, hk⟩ | ⟨heq, hrep⟩⟩ :=
      hholds.bindName_cases name w.classes.length
    · -- the name was free
      obtain ⟨hw', hcourse, hfetch⟩ := hw.made (d := { candidate with vtable := vtable })
        hholds hinside hrep hname hbelow hparent hlinks rfl
      rw [hhost]
      refine .of_outcome (Step.bind_of_ok _ heq) hw' hcourse (fun e he f hf => ?_)
        fun r hr c hc => ?_
      · rw [List.mem_singleton.1 he] at hf
        cases hf
      · obtain rfl := Except.ok.inj hr
        exact Except.ok.inj hc ▸ hfetch
    · -- the class that came before is the answer
      obtain ⟨hw', hcourse⟩ := (Grown.of_registry hholds hrep).whole hw hholds hinside
      have hk' := hcourse.names name k hk
      have hrest : (do
          match (← Step.get).fetchClass name with
          | some winner => return .ok winner
          | none => Step.fault (.registryRace name) : Step World (Except Report ClassId))
            { w with registry := some reg } =
          ⟨{ w with registry := some reg }, .ok (.ok k), []⟩ := by
        rw [Step.get_bind, hk']
        rfl
      refine .of_outcome ((Step.bind_of_ok _ heq).trans hrest) hw' hcourse nofun fun r hr c hc => ?_
      obtain rfl := Except.ok.inj hr
      exact Except.ok.inj hc ▸ hk'
    · obtain ⟨hw', hcourse⟩ := (Grown.of_registry hholds hrep).whole hw hholds hinside
      refine .of_outcome (Step.bind_of_stop _ heq) hw' hcourse
        (fun e he f hf name hrace => ?_) nofun
      rw [List.mem_singleton.1 he] at hf
      rw [← Event.faulted.inj hf] at hrace
      cases hrace

theorem enterCopy_goes {v : World} (hhost : host.Orderly) (hw : Whole w) (hv : Whole v)
    (hcourse : Course w v) (hparent : parent < w.classes.length) (fresh : List String) :
    (enterSubclass host name parent (w.subclassOf parent name) fresh).Goes (Bound name) v := by
  have hparent' := Nat.lt_of_lt_of_le hparent hcourse.length_le
  refine enterSubclass_goes hhost.registered hv hparent' rfl rfl (fun hhook p hp => ?_) fresh
  rcases Descriptor.mem_links.1 hp with hp | hp | ⟨m, hm, -⟩
  · exact Option.some.inj hp ▸ hparent'
  · exact Nat.lt_of_lt_of_le (hw.links (hcourse.hook ▸ hhook) parent p
      (Descriptor.mem_links.2 (.inr (.inl hp)))) hcourse.length_le
  · cases hm

theorem createSubclass_goes (hhost : host.Orderly) (hw : Whole w)
    (hparent : parent < w.classes.length) (name : String) :
    (createSubclass host name parent).Goes (Bound name) w := by
  cases hfinal : (w.get parent).flags.final with
  | true => exact .still hw (createSubclass_final host name hfinal) (by nofun)
  | false =>
    exact .of_eq (createSubclass_open host name hfinal)
      ((hhost.freshMethods name w hw).bind fun fresh v hv hcourse _ =>
        enterCopy_goes hhost hw hv hcourse hparent fresh)

/-- What becomes of a name when its parent was asked for. -/
def createBelow (host : Host) (name : String) (r : Except Report ClassId) :
    Step World (Except Report ClassId) :=
  match r with
  | .error report => return .error (report.withContext ("resolving parent of " ++ name))
  | .ok p => createSubclass host name p

theorem createBelow_goes (hhost : host.Orderly) (hw : Whole w) {r : Except Report ClassId}
    {parentName : String} (hr : Bound parentName r w) (name : String) :
    (createBelow host name r).Goes (Bound name) w := by
  cases r with
  | error report => exact .still hw rfl (by nofun)
  | ok p => exact createSubclass_goes hhost hw (hw.lt_of_fetch (hr p rfl)) name

/-- What becomes of a name that is not bound when the host has said what its parent is called. -/
def followParent (host : Host) (allowance : Nat) (name : String) (found : Option String) :
    Step World (Except Report ClassId) :=
  match found, allowance with
  | none, _ => return .error (.ofComplaint (.noParentClass name))
  | some _, 0 => Step.unfinished
  | some parentName, n + 1 => singletonWith host n parentName none >>= createBelow host name

theorem singletonWith_open (host : Host) (allowance : Nat) (hname : w.fetchClass name = none) :
    singletonWith host allowance name none w =
      (host.findParent name >>= followParent host allowance name) w := by
  unfold singletonWith
  rw [Step.get_bind, hname]
  refine congrArg (fun g => (host.findParent name >>= g) w) (funext fun found => ?_)
  cases found with
  | none => rfl
  | some parentName =>
    cases allowance with
    | zero => rfl
    | succ n =>
      refine congrArg (singletonWith host n parentName none >>= ·) (funext fun r => ?_)
      cases r <;> rfl

theorem followParent_goes (hhost : host.Orderly) {allowance : Nat} (hw : Whole w)
    (hask : ∀ n parentName, allowance = n + 1 →
      (singletonWith host n parentName none).Goes (Bound parentName) w)
    (found : Option String) : (followParent host allowance name found).Goes (Bound name) w := by
  cases found with
  | none => exact .still hw rfl (by nofun)
  | some parentName =>
    cases allowance with
    | zero => exact .of_outcome rfl hw (.refl w) nofun nofun
    | succ n =>
      exact (hask n parentName rfl).bind fun r v hv _ hr => createBelow_goes hhost hv hr name

/-- To ask for a class by name leads from a whole world to a whole world, and the class that is
answered is the one that the name is bound to. -/
theorem singletonWith_goes (hhost : host.Orderly) (allowance : Nat) {w : World}
    {given : Option ClassId} (hw : Whole w)
    (hgiven : ∀ p : Nat, given = some p → p < w.classes.length) (name : String) :
    (singletonWith host allowance name given).Goes (Bound name) w := by
  cases hfetch : w.fetchClass name with
  | some c =>
    exact .still hw (singletonWith_bound host allowance given hfetch) fun k hk =>
      Except.ok.inj hk ▸ hfetch
  | none =>
    cases given with
    | some p =>
      exact .of_eq (singletonWith_given host allowance hfetch)
        (createSubclass_goes hhost hw (hgiven p rfl) name)
    | none =>
      exact .of_eq (singletonWith_open host allowance hfetch)
        ((hhost.findParent name w hw).bind fun found v hv _ _ =>
          followParent_goes hhost hv
            (fun n parentName _ => singletonWith_goes hhost n hv (by nofun) parentName) found)
  termination_by allowance

theorem lt_of_onlyClass {given : Option ClassId} {p : Nat} (h : w.onlyClass given = some p) :
    p < w.classes.length :=
  of_decide_eq_true (Option.filter_eq_some_iff.1 h).2

end World

/-! ### What programs leave -/

theorem Program.orderly_of {find fresh : String → Program}
    (hfind : ∀ cls w, Whole w → (find cls).run.Goes (fun _ _ => True) w)
    (hfresh : ∀ cls w, Whole w → (fresh cls).run.Goes (fun _ _ => True) w) :
    (host find fresh).Orderly where
  findParent cls w hw := (hfind cls w hw).bind fun _ _ hv _ _ => .still hv rfl trivial
  freshMethods cls w hw := (hfresh cls w hw).bind fun _ _ hv _ _ => .still hv rfl trivial
  registered := rfl

/-- A program leads from a whole world to a whole world. -/
theorem Program.goes (p : Program) {w : World} (hw : Whole w) : p.run.Goes (fun _ _ => True) w := by
  induction p generalizing w with
  | answer parent methods => exact .still hw rfl trivial
  | giveUp reason => exact .of_outcome rfl hw (.refl w) nofun nofun
  | look next ih => exact .of_eq (Step.get_bind _ _) (ih w hw)
  | act op next ih => exact (op.goes hw).attempt.bind fun r v hv _ _ => ih r hv
  | ask find fresh allowance name given next ihfind ihfresh ih =>
    have hhost := orderly_of (fun cls _ => ihfind cls) (fun cls _ => ihfresh cls)
    have hask : (singletonWith (host find fresh) allowance name (w.onlyClass given)).Goes
        (Bound name) w := singletonWith_goes hhost allowance hw (fun _ => lt_of_onlyClass) name
    exact .of_eq (run_ask w) (hask.attempt.bind fun r v hv _ _ => ih r hv)

theorem Program.orderly (find fresh : String → Program) : (host find fresh).Orderly :=
  orderly_of (fun cls _ => (find cls).goes) fun cls _ => (fresh cls).goes

/-- What can become of a world: programs are run, and a hook is installed if there is none. -/
inductive Ensues : World → World → Prop
  | refl (w : World) : Ensues w w
  | run {w v : World} (h : Ensues w v) (p : Program) : Ensues w (p.run v).state
  | hooked {w v : World} (h : Ensues w v) (hook : Hook) (hnone : v.hook = none) :
    Ensues w { v with hook := some hook }

namespace Ensues

variable {w w' : World}

theorem whole_later (h : Ensues w w') (hw : Whole w) : Whole w' ∧ Later w w' := by
  induction h with
  | refl => exact ⟨hw, .refl w⟩
  | run _ p ih =>
    obtain ⟨hv, hlater⟩ := ih
    obtain ⟨hv', hcourse⟩ := (p.goes hv).state
    exact ⟨hv', hlater.trans hcourse.toLater⟩
  | hooked _ hook hnone ih =>
    obtain ⟨hv, hlater⟩ := ih
    refine ⟨⟨hv.bound, hv.slots, hv.entered, fun _ => hv.links fun hook' hhook' => ?_⟩,
      hlater.length_le, hlater.lasts, hlater.slots, hlater.names⟩
    rw [hnone] at hhook'
    cases hhook'

end Ensues

theorem World.Whole.start (hash : String → Nat) (t : HostTable) :
    Whole { hash := hash, host := t } where
  bound := ⟨[], rfl, nofun⟩
  slots := nofun
  entered := nofun
  links _ c p hp := by
    rw [get_of_length_le (Nat.zero_le c)] at hp
    cases hp

end ObjectSystem
