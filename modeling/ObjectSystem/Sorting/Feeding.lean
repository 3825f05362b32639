import ObjectSystem.Sorting.Merge

/-! # Feeding

The operations on an engine before it is read: feeding items, sorting and spilling the buffer,
adopting other engines as runs, and the end of feeding.  Each one that breaks the order of the
phases is a fault. -/

namespace ObjectSystem.Sorting.Engine

variable {α : Type}

/-- Sets the cost at which the buffer is spilled. -/
def setMemThresh (bytes : Nat) : Step (Engine α) Unit := .modify ({ · with memThresh := bytes })

/-- Sets the cost of the items fed from now on. -/
def setItemCost (cost : α → Nat) : Step (Engine α) Unit := .modify ({ · with itemCost := cost })

/-- Lets go of everything buffered. -/
def clearBuffer : Step (Engine α) Unit := .modify fun e => { e with toCore := e.toCore.clear }

/-- Makes room for at least `n` slots. -/
def growBuffer (n : Nat) : Step (Engine α) Unit :=
  .modify fun e => { e with buffer := e.buffer.grow n }

/-- The engine with its buffer in order, equal items as they were. -/
def sorted (p : Policy α) (e : Engine α) : Engine α :=
  { e with buffer := { e.buffer with slots := e.buffer.slots.mergeSort p.leSlots } }

/-- Puts the buffer in order.  An engine from which something was taken refuses. -/
def sortBuffer (p : Policy α) : Step (Engine α) Unit := fun e =>
  if 0 < e.fetched ∨ e.tick ≠ 0 then Step.fault (.sortAfterFetch e.fetched) e
  else ⟨sorted p e, .ok (), []⟩

/-- The buffer as a run of its own, and the engine without it. -/
def spill (e : Engine α) : Engine α :=
  { e with
    buffer := {}
    tick := 0
    memConsumed := 0
    runs := e.runs ++
      [{ memThresh := e.memThresh, itemCost := e.itemCost, buffer := e.buffer, flipped := true }] }

/-- Turns the buffer, put in order, into a run.  An empty buffer is only cleared. -/
def flush (p : Policy α) : Step (Engine α) Unit := fun e =>
  if e.buffered = 0 then clearBuffer e
  else (sortBuffer p e).bind fun _ e => ⟨spill e, .ok (), []⟩

/-- Ends the feeding; whatever is buffered becomes the last run. -/
def flip (p : Policy α) : Step (Engine α) Unit := fun e =>
  if e.flipped then ⟨e, .ok (), []⟩
  else (flush p e).bind fun _ e => ⟨{ e with flipped := true }, .ok (), []⟩

/-- The account when one more cost is added.  It is a machine word, which wraps around. -/
def charge (account cost : Nat) : Nat := (account + cost) % wordLimit

/-- The engine with one more item at the end of the buffer, grown if it was full. -/
def push (p : Policy α) (x : α) (e : Engine α) : Engine α :=
  let n := e.buffer.slots.length
  let full := n = e.buffer.capacity
  let buffer := if full then e.buffer.grow (oversize (n + 1) p.slotWidth) else e.buffer
  { e with
    buffer := buffer.append [some x]
    memConsumed := charge e.memConsumed (e.itemCost x) }

/-- Feeds an item; when the account reaches the threshold, the buffer is spilled. -/
def feed (p : Policy α) (x : α) : Step (Engine α) Unit := fun e =>
  if 0 < e.fetched then Step.fault (.feedAfterFetch e.fetched) e
  else if e.flipped then Step.fault .feedAfterFlip e
  else
    let e := push p x e
    if e.memThresh ≤ e.memConsumed then flush p e else ⟨e, .ok (), []⟩

/-- Makes an engine fit to be a run of another one: its feeding is over and its items are in
order.  One that was read from, or flipped, is left alone. -/
def freeze (p : Policy α) : Step (Engine α) Unit := fun e =>
  if e.flipped ∨ 0 < e.fetched then ⟨e, .ok (), []⟩
  else if e.runs.isEmpty ∧ e.reader.isNone then
    (sortBuffer p e).bind fun _ e => ⟨{ e with flipped := true }, .ok (), []⟩
  else flip p e

/-- Adopts an engine as the last run.  Once reading has begun this is refused, and the engine to
be adopted is lost. -/
def addRun (p : Policy α) (run : Engine α) : Step (Engine α) Unit := fun e =>
  if e.draining then Step.fault (.addRunAfterFetch e.fetched) e
  else
    let o := freeze p run
    match o.answer with
    | .ok () => ⟨{ e with runs := e.runs ++ [o.state] }, .ok (), o.events⟩
    | .error stop => ⟨e, .error stop, o.events⟩

section

variable {p : Policy α} {e e' r r' : Engine α}

theorem sortBuffer_of_untaken (hf : e.fetched = 0) (ht : e.tick = 0) :
    sortBuffer p e = ⟨sorted p e, .ok (), []⟩ := by
  have hopen : ¬ (0 < e.fetched ∨ e.tick ≠ 0) := by omega
  rw [sortBuffer, if_neg hopen]

theorem flush_of_empty (hb : e.buffered = 0) :
    flush p e = ⟨{ e with toCore := e.toCore.clear }, .ok (), []⟩ := by
  rw [flush, if_pos hb]
  rfl

theorem flush_of_untaken (hf : e.fetched = 0) (ht : e.tick = 0) (hb : e.buffered ≠ 0) :
    flush p e = ⟨spill (sorted p e), .ok (), []⟩ := by
  rw [flush, if_neg hb, sortBuffer_of_untaken hf ht, Outcome.bind_ok_nil]

theorem flip_of_flush (hf : ¬ e.flipped = true) (h : flush p e = ⟨e', .ok (), []⟩) :
    flip p e = ⟨{ e' with flipped := true }, .ok (), []⟩ := by
  rw [flip, if_neg hf, h]
  rfl

theorem feed_of_open (hf : e.fetched = 0) (hflipped : e.flipped = false) (x : α) :
    feed p x e = if e.memThresh ≤ charge e.memConsumed (e.itemCost x) then flush p (push p x e)
      else ⟨push p x e, .ok (), []⟩ := by
  have hshut : ¬ e.flipped = true := by simp [hflipped]
  rw [feed, if_neg (by omega), if_neg hshut]
  rfl

theorem addRun_of_unread (hd : ¬ e.draining = true) (h : freeze p r = ⟨r', .ok (), []⟩) :
    addRun p r e = ⟨{ e with runs := e.runs ++ [r'] }, .ok (), []⟩ := by
  rw [addRun, if_neg hd, h]

end

mutual

/-- Gives back spare room, in the engine and in all of its runs. -/
def shrunk (e : Engine α) : Engine α :=
  match e with
  | ⟨core, runs⟩ =>
    ⟨{ core with buffer := ⟨core.window, core.buffered⟩, tick := 0, scratch := {} }, shrunkAll runs⟩

/-- Gives back spare room in a row of runs. -/
def shrunkAll : List (Engine α) → List (Engine α)
  | [] => []
  | r :: rs => shrunk r :: shrunkAll rs

end

/-- Gives back spare room. -/
def shrink : Step (Engine α) Unit := .modify shrunk

theorem shrunkAll_eq_map (runs : List (Engine α)) : shrunkAll runs = runs.map shrunk := by
  induction runs with
  | nil => rfl
  | cons r rs ih => rw [shrunkAll, ih, List.map_cons]

end ObjectSystem.Sorting.Engine
