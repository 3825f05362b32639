import ObjectSystem.Sorting.Engine
import ObjectSystem.Sorting.Partition

/-! # Merging slices

Sorted slices are merged in passes.  A pass merges neighbours two by two, with ties going to the
left one, and leaves a last odd slice as it is; passes are made until one slice is left.  Each pass
writes into the other one of two rows of slots, so the two trade places once a pass. -/

namespace ObjectSystem.Sorting

variable {α : Type}

/-- Merges neighbouring slices. -/
def mergePass (le : α → α → Bool) : List (List α) → List (List α)
  | a :: b :: rest => List.merge a b le :: mergePass le rest
  | [a] => [a]
  | [] => []

theorem length_mergePass (le : α → α → Bool) (slices : List (List α)) :
    (mergePass le slices).length = (slices.length + 1) / 2 := by
  fun_induction mergePass le slices with
  | case1 a b rest ih => simp only [List.length_cons, ih]; omega
  | case2 a => simp
  | case3 => simp

/-- Merges slices into one. -/
def mergeAll (le : α → α → Bool) (slices : List (List α)) : List α :=
  match slices with
  | [] => []
  | [a] => a
  | a :: b :: rest => mergeAll le (mergePass le (a :: b :: rest))
termination_by slices.length
decreasing_by simp only [length_mergePass, List.length_cons]; omega

/-- How many passes it takes to merge `n` slices. -/
def mergePasses (n : Nat) : Nat := if n ≤ 1 then 0 else mergePasses ((n + 1) / 2) + 1

theorem flatten_mergePass_perm (le : α → α → Bool) (slices : List (List α)) :
    (mergePass le slices).flatten.Perm slices.flatten := by
  fun_induction mergePass le slices with
  | case1 a b rest ih =>
    simp only [List.flatten_cons, ← List.append_assoc]
    exact (List.merge_perm_append le).append ih
  | case2 a => exact .refl _
  | case3 => exact .refl _

theorem mergeAll_perm (le : α → α → Bool) (slices : List (List α)) :
    (mergeAll le slices).Perm slices.flatten := by
  fun_induction mergeAll le slices with
  | case1 => exact .refl _
  | case2 a => simp
  | case3 a b rest ih => exact ih.trans (flatten_mergePass_perm le _)

namespace Engine

/-- The last buffered item of a run that is being merged. -/
def lastBuffered (e : Engine α) : Except Fault α :=
  let max := e.buffer.slots.length
  if max < 1 ∨ max ≤ e.tick then .error (.invalidRunBuffer e.tick max e.buffer.capacity)
  else
    match e.buffer.slots.getLast? with
    | some (some x) => .ok x
    | _ => .error (.invalidRunBuffer e.tick max e.buffer.capacity)

/-- The least of the last buffered items of some runs; of equal ones the first. -/
def endpost (p : Policy α) (runs : List (Engine α)) : Except Fault (Option α) :=
  runs.foldlM (fun least run => do
    let last ← run.lastBuffered
    match least with
    | some x => if p.compare last x != .lt then pure (some x) else pure (some last)
    | none => pure (some last)) none

/-- The slot holds nothing that exceeds `post`. -/
def slotLe (p : Policy α) (post : α) : Option α → Bool
  | some x => p.le x post
  | none => true

/-- How many buffered items at the front of a run do not exceed `post`. -/
def sliceSize (p : Policy α) (post : α) (e : Engine α) : Nat :=
  partitionPoint (slotLe p post) e.window

/-- The first `n` buffered slots. -/
def front (n : Nat) (e : Engine α) : List (Option α) := e.window.take n

/-- The engine after its first `n` buffered slots were emptied. -/
def dropFront (n : Nat) (e : Engine α) : Engine α :=
  { e with
    buffer := { e.buffer with
      slots := e.buffer.slots.take e.tick ++ (e.window.take n).map (fun _ => none)
        ++ e.window.drop n }
    tick := e.tick + n }

/-- The slots of every run that do not exceed `post`, without the runs that have none. -/
def slices (p : Policy α) (post : α) (e : Engine α) : List (List (Option α)) :=
  (e.runs.map fun r => front (sliceSize p post r) r).filter (!·.isEmpty)

/-- How many slices and how many slots `absorb` moves. -/
def absorbed (p : Policy α) (post : α) (e : Engine α) : Nat × Nat :=
  ((slices p post e).length, (slices p post e).flatten.length)

/-- Moves the slices of all runs into the empty buffer, merged. -/
def absorb (p : Policy α) (post : α) (e : Engine α) : Engine α :=
  let (count, total) := absorbed p post e
  let room :=
    if e.buffer.capacity < total then (e.buffer.grow (oversize total p.slotWidth)).capacity
    else e.buffer.capacity
  let spareRoom :=
    if 1 < count ∧ e.scratch.capacity < total then total else e.scratch.capacity
  let swapped := mergePasses count % 2 = 1
  { e with
    buffer := ⟨mergeAll p.leSlots (slices p post e), if swapped then spareRoom else room⟩
    scratch := ⟨[], if swapped then room else spareRoom⟩
    runs := e.runs.map fun r => dropFront (sliceSize p post r) r }

end Engine

end ObjectSystem.Sorting
