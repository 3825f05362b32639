import ObjectSystem.Event

/-! # Steps

A `Step σ α` is an operation on a state of type `σ`.  It ends in an `Outcome`: the state it leaves,
an answer or the reason why there is none, and the events it emitted.  An operation that stops
keeps what it had done to the state by then, so the state of a stopped operation is part of its
meaning and not lost.

There are five reasons to stop: a fault, a sort that finds that what it compares by is no order
(`Stop.disorder`), an allowance of recursive calls that ran out (`Stop.unfinished`), which is
what an operation answers that would go on for ever, a log that cannot be opened (`Stop.unlogged`),
and a table that is too large for any memory (`Stop.unallocated`). -/

namespace ObjectSystem

/-- Why an operation has no answer. -/
inductive Stop
  | fault (f : Fault)
  | disorder
  | unfinished
  | unlogged (problem : String)
  | unallocated
  deriving DecidableEq, Repr

/-- What an operation leaves. -/
structure Outcome (σ α : Type) where
  state : σ
  answer : Except Stop α
  events : List Event := []

/-- An operation on a state. -/
def Step (σ α : Type) : Type := σ → Outcome σ α

namespace Outcome

variable {σ τ α β : Type}

/-- Goes on with the answer, from the state that was left. -/
def bind (o : Outcome σ α) (f : α → σ → Outcome σ β) : Outcome σ β :=
  match o.answer with
  | .ok a =>
    let next := f a o.state
    { next with events := o.events ++ next.events }
  | .error stop => ⟨o.state, .error stop, o.events⟩

/-- The same outcome, seen as one on a larger state. -/
def mapState (f : σ → τ) (o : Outcome σ α) : Outcome τ α := ⟨f o.state, o.answer, o.events⟩

@[simp] theorem bind_ok (s : σ) (a : α) (es : List Event) (f : α → σ → Outcome σ β) :
    bind ⟨s, .ok a, es⟩ f = ⟨(f a s).state, (f a s).answer, es ++ (f a s).events⟩ := rfl

theorem bind_ok_nil (s : σ) (a : α) (f : α → σ → Outcome σ β) :
    bind ⟨s, .ok a, []⟩ f = f a s := rfl

@[simp] theorem bind_error (s : σ) (stop : Stop) (es : List Event) (f : α → σ → Outcome σ β) :
    bind ⟨s, .error stop, es⟩ f = ⟨s, .error stop, es⟩ := rfl

@[simp] theorem bind_pure (o : Outcome σ α) : o.bind (fun a s => ⟨s, .ok a, []⟩) = o := by
  rcases o with ⟨s, (stop | a), es⟩ <;> simp

theorem bind_assoc {γ : Type} (o : Outcome σ α) (f : α → σ → Outcome σ β)
    (g : β → σ → Outcome σ γ) : (o.bind f).bind g = o.bind fun a s => (f a s).bind g := by
  rcases o with ⟨s, (stop | a), es⟩
  · simp
  · simp only [bind_ok]
    rcases h : f a s with ⟨s', (stop | b), es'⟩ <;> simp

end Outcome

namespace Step

variable {σ τ α β : Type}

instance : Monad (Step σ) where
  pure a := fun s => ⟨s, .ok a, []⟩
  bind x f := fun s => (x s).bind f

/-- The state. -/
def get : Step σ σ := fun s => ⟨s, .ok s, []⟩

/-- Replaces the state. -/
def set (s : σ) : Step σ Unit := fun _ => ⟨s, .ok (), []⟩

/-- Changes the state. -/
def modify (f : σ → σ) : Step σ Unit := fun s => ⟨f s, .ok (), []⟩

/-- Reads off the state. -/
def gets (f : σ → α) : Step σ α := fun s => ⟨s, .ok (f s), []⟩

/-- Emits an event. -/
def emit (e : Event) : Step σ Unit := fun s => ⟨s, .ok (), [e]⟩

/-- Stops with a fault, which is itself an event. -/
def fault (f : Fault) : Step σ α := fun s => ⟨s, .error (.fault f), [.faulted f]⟩

/-- Goes on with a result or stops with its fault. -/
def ofExcept (r : Except Fault α) : Step σ α :=
  match r with
  | .ok a => fun s => ⟨s, .ok a, []⟩
  | .error f => fault f

/-- Stops because a comparison is no order. -/
def disorder : Step σ α := fun s => ⟨s, .error .disorder, []⟩

/-- Stops because the allowance ran out. -/
def unfinished : Step σ α := fun s => ⟨s, .error .unfinished, []⟩

/-- Stops because the log cannot be opened. -/
def unlogged (problem : String) : Step σ α := fun s => ⟨s, .error (.unlogged problem), []⟩

/-- Stops because there cannot be memory for a table. -/
def unallocated : Step σ α := fun s => ⟨s, .error .unallocated, []⟩

/-- Runs a step on a part of the state. -/
def zoom (get : τ → σ) (put : σ → τ → τ) (x : Step σ α) : Step τ α :=
  fun t => (x (get t)).mapState (put · t)

theorem bind_apply (x : Step σ α) (f : α → Step σ β) (s : σ) : (x >>= f) s = (x s).bind f := rfl

@[simp] theorem pure_apply (a : α) (s : σ) : (pure a : Step σ α) s = ⟨s, .ok a, []⟩ := rfl

instance : LawfulMonad (Step σ) :=
  LawfulMonad.mk' (Step σ)
    (fun x => funext fun s => Outcome.bind_pure (x s))
    (fun a f => funext fun s => Outcome.bind_ok_nil s a (f · ·))
    (fun x f g => funext fun s => Outcome.bind_assoc (x s) f g)

end Step

end ObjectSystem
