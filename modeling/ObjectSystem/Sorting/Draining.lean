import ObjectSystem.Sorting.Feeding

/-! # Draining

Reading an engine.  `fetch` takes the least remaining item, and `peek` shows it.  When the buffer
is used up, `refill` replaces it: a leaf takes the next batch of its reader, and an engine with
runs merges from each of them the items that do not exceed the least of their last buffered items.
Nothing that is still unread can come before those. -/

namespace ObjectSystem.Sorting

variable {α : Type}

/-- The core of a leaf after its reader handed over a batch. -/
def Core.takeBatch (c : Core α) (r : Reader α) : Core α :=
  { c with buffer := c.buffer.append (r.next.1.items.map some), reader := some r.next.2 }

namespace Engine

/-- Merges from runs that all have something buffered. -/
def mergeRuns (p : Policy α) : Step (Engine α) Unit := fun e =>
  match endpost p e.runs with
  | .error f => Step.fault f e
  | .ok none => ⟨e, .ok (), []⟩
  | .ok (some post) =>
    let (count, total) := absorbed p post e
    ⟨absorb p post e, .ok (), [.bufferRefilled e.runs.length count total]⟩

mutual

/-- Replaces a used-up buffer by the next items in order.  Answers how many there are. -/
def refill (p : Policy α) (e : Engine α) : Outcome (Engine α) Nat :=
  match e with
  | ⟨core, runs⟩ =>
    if 0 < core.buffered then Step.fault (.refillNotEmpty core.buffered) ⟨core, runs⟩
    else
      let core := { core.clear with draining := true }
      match core.reader with
      | some r =>
        let core := core.takeBatch r
        ⟨⟨core, runs⟩, .ok core.buffered, []⟩
      | none =>
        ((refillRuns p runs).mapState fun runs => (⟨core, runs⟩ : Engine α)).bind fun _ e =>
          (mergeRuns p e).bind fun _ e => ⟨e, .ok e.buffered, []⟩

/-- Refills the runs that are used up and drops those that have nothing to give, with all that is
still in them. -/
def refillRuns (p : Policy α) : List (Engine α) → Outcome (List (Engine α)) Unit
  | [] => ⟨[], .ok (), []⟩
  | r :: rs =>
    if 0 < r.buffered then (refillRuns p rs).mapState (r :: ·)
    else
      let o := refill p r
      match o.answer with
      | .error stop => ⟨o.state :: rs, .error stop, o.events⟩
      | .ok n =>
        let rest := refillRuns p rs
        if 0 < n then ⟨o.state :: rest.state, rest.answer, o.events ++ rest.events⟩
        else
          ⟨rest.state, rest.answer,
            o.events ++ p.disposals o.state.contents.length ++ rest.events⟩

end

/-- Reading has begun; an engine with runs is flipped first. -/
def prepareRead (p : Policy α) : Step (Engine α) Unit := fun e =>
  let e := { e with draining := true }
  if !e.flipped && !e.runs.isEmpty then flip p e else ⟨e, .ok (), []⟩

/-- Sees to it that something is buffered.  Answers whether anything is. -/
def ready (p : Policy α) : Step (Engine α) Bool := fun e =>
  (prepareRead p e).bind fun _ e =>
    if e.buffer.slots.length ≤ e.tick then
      (refill p e).bind fun n e => ⟨e, .ok (0 < n), []⟩
    else ⟨e, .ok true, []⟩

/-- The item in the first slot from which nothing was taken. -/
def head? (e : Engine α) : Option α := (e.buffer.slots[e.tick]?).join

/-- The engine after the first slot was emptied. -/
def dropHead (e : Engine α) : Engine α :=
  { e with
    buffer := { e.buffer with slots := e.buffer.slots.set e.tick none }
    tick := e.tick + 1
    fetched := e.fetched + 1 }

/-- Takes the least remaining item. -/
def fetch (p : Policy α) : Step (Engine α) (Option α) := fun e =>
  (ready p e).bind fun found e =>
    if found then ⟨dropHead e, .ok (head? e), []⟩ else ⟨e, .ok none, []⟩

/-- Shows the least remaining item. -/
def peek (p : Policy α) : Step (Engine α) (Option α) := fun e =>
  (ready p e).bind fun found e => ⟨e, .ok (if found then head? e else none), []⟩

/-- Takes up to `n` items, and stops early where there are no more. -/
def fetchUpTo (p : Policy α) : Nat → Step (Engine α) (List α)
  | 0 => pure []
  | n + 1 => do
    match ← fetch p with
    | none => pure []
    | some x => return x :: (← fetchUpTo p n)

end Engine

end ObjectSystem.Sorting
