import Mathlib.Algebra.Ring.Nat
import ObjectSystem.Proofs.Sorting.Intact

/-! # Reading by index

Engines are read by index: a slot is at the index `tick`, a slice is the part of a row between two
indices, and slices that are merged lie end to end in one row.  The functions here do every step of
it by index and give nothing at all (`none`) where an index lies outside its row, where more slots
were emptied than there are, or where a slot that should hold an item is empty.

They also leave open how the place is found where a run is to be cut.  A run whose items are out of
order divides at no place, and all that is known then is that some place within the window is found:
a `Cut` is any way of finding one, and `Cut.halving` is the engine's own.

`strictRefill_eq` is the main statement: an intact engine that is used up can be refilled by index
with any cut, no matter in which order its runs are, and with its own cut the result is that of
`refill`. -/

namespace ObjectSystem.Sorting

variable {α β : Type}

/-! ### Rows -/

/-- A way to find a place in a row, of which nothing is known but that it is within the row. -/
structure Cut (α : Type) where
  place : (Option α → Bool) → List (Option α) → Nat
  place_le : ∀ q row, place q row ≤ row.length

/-- Finding the place by halving. -/
def Cut.halving : Cut α := ⟨partitionPoint, partitionPoint_le⟩

/-- The `n` elements from `start` on, if the row goes that far. -/
def part (start n : Nat) (row : List β) : Option (List β) :=
  if start + n ≤ row.length then some ((row.drop start).take n) else none

/-- Both sides of the place `n`, if the row goes that far. -/
def halves (n : Nat) (row : List β) : Option (List β × List β) :=
  if n ≤ row.length then some (row.take n, row.drop n) else none

/-- `x`, if no more slots were emptied than there are. -/
def Core.counted (c : Core α) (x : β) : Option β :=
  if c.tick ≤ c.buffer.slots.length then some x else none

/-- A core whose buffer is used up, cleared to be filled again. -/
def Core.restart (c : Core α) : Core α := { c.clear with draining := true }

/-- Goes on with the answer, if both parts can be done. -/
def Outcome.bindStrict {σ τ γ : Type} (o : Option (Outcome σ τ))
    (f : τ → σ → Option (Outcome σ γ)) : Option (Outcome σ γ) := do
  let o ← o
  match o.answer with
  | .error stop => some ⟨o.state, .error stop, o.events⟩
  | .ok a => do
    let next ← f a o.state
    some { next with events := o.events ++ next.events }

theorem Outcome.bindStrict_ok {σ τ γ : Type} (s : σ) (a : τ) (es : List Event)
    (f : τ → σ → Option (Outcome σ γ)) :
    Outcome.bindStrict (some ⟨s, .ok a, es⟩) f =
      (f a s).map fun o => { o with events := es ++ o.events } := by
  cases h : f a s <;> simp [Outcome.bindStrict, h]

theorem Outcome.bindStrict_of_ok {σ τ γ : Type} {s s' : σ} {a : τ} {c : γ} {es es' : List Event}
    {o : Option (Outcome σ τ)} {f : τ → σ → Option (Outcome σ γ)} (h : o = some ⟨s, .ok a, es⟩)
    (hf : f a s = some ⟨s', .ok c, es'⟩) :
    Outcome.bindStrict o f = some ⟨s', .ok c, es ++ es'⟩ := by
  rw [h, Outcome.bindStrict_ok, hf]
  rfl

/-! ### Merging in rounds -/

/-- How long the slices are after a round. -/
def pairSums : List Nat → List Nat
  | left :: right :: sizes => (left + right) :: pairSums sizes
  | [odd] => [odd]
  | [] => []

/-- A round over the slices that lie end to end in `row` from `start` on. -/
def mergeRound (p : Policy α) (row : List (Option α)) :
    (start : Nat) → (sizes : List Nat) → Option (List (Option α))
  | start, left :: right :: sizes => do
    let region ← part start (left + right) row
    let (a, b) ← halves left region
    let rest ← mergeRound p row (start + left + right) sizes
    some (List.merge a b p.leSlots ++ rest)
  | start, [odd] => part start odd row
  | _, [] => some []

theorem length_pairSums (sizes : List Nat) : (pairSums sizes).length = (sizes.length + 1) / 2 := by
  fun_induction pairSums sizes with
  | case1 left right sizes ih => simp only [List.length_cons, ih]; omega
  | case2 odd => simp
  | case3 => rfl

/-- Merges the slices in `buffer` until there is one.  A round fills the one row with what it takes
out of the other, and then the two trade places. -/
def mergeRounds (p : Policy α) (sizes : List Nat) (buffer scratch : Buffer α) :
    Option (Buffer α × Buffer α) :=
  if _ : 2 ≤ sizes.length then do
    let merged ← mergeRound p buffer.slots 0 sizes
    let emptied := buffer.slots.map fun _ => none
    mergeRounds p (pairSums sizes) { scratch with slots := merged } { buffer with slots := emptied }
  else some (buffer, scratch)
termination_by sizes.length
decreasing_by rw [length_pairSums]; omega

namespace Engine

/-! ### Taking slices -/

/-- How many slots of a run are to be taken. -/
def cutSize (cut : Cut α) (p : Policy α) (post : α) (e : Engine α) : Nat :=
  cut.place (slotLe p post) e.window

/-- The first `n` buffered slots of a run, if it has as many and all of them hold items, and the run
without them. -/
def takeFront (n : Nat) (e : Engine α) : Option (List (Option α) × Engine α) := do
  let slots ← part e.tick n e.buffer.slots
  if slots.all Option.isSome then some (slots, dropFront n e) else none

/-- How much room the buffer has for slices of `total` slots. -/
def bufferRoom (p : Policy α) (total : Nat) (e : Engine α) : Nat :=
  if e.buffer.capacity < total then (e.buffer.grow (oversize total p.slotWidth)).capacity
  else e.buffer.capacity

/-- How much room the scratch row has for merging `count` slices of `total` slots. -/
def scratchRoom (count total : Nat) (e : Engine α) : Nat :=
  if 1 < count ∧ e.scratch.capacity < total then total else e.scratch.capacity

/-- Moves the slices of all runs to the end of the buffer and merges them there.  Also gives the
number of slices and of slots. -/
def strictAbsorb (cut : Cut α) (p : Policy α) (post : α) (e : Engine α) :
    Option (Engine α × Nat × Nat) := do
  let sizes ← e.runs.mapM fun r => r.counted (cutSize cut p post r)
  let total := sizes.sum
  let taken ← (e.runs.zip sizes).mapM fun (r, n) => takeFront n r
  let sizes := sizes.filter (0 < ·)
  let (merged, spare) ← mergeRounds p sizes
    ⟨e.buffer.slots ++ taken.flatMap Prod.fst, bufferRoom p total e⟩
    ⟨e.scratch.slots, scratchRoom sizes.length total e⟩
  some ({ e with buffer := merged, scratch := spare.clear, runs := taken.map Prod.snd },
    sizes.length, total)

/-- Merges from runs that all have something buffered. -/
def strictMerge (cut : Cut α) (p : Policy α) (e : Engine α) : Option (Outcome (Engine α) Unit) :=
  match endpost p e.runs with
  | .error f => some (Step.fault f e)
  | .ok none => some ⟨e, .ok (), []⟩
  | .ok (some post) => do
    let (e', count, total) ← strictAbsorb cut p post e
    some ⟨e', .ok (), [.bufferRefilled e.runs.length count total]⟩

mutual

/-- Replaces a used-up buffer by the next items. -/
def strictRefill (cut : Cut α) (p : Policy α) (e : Engine α) : Option (Outcome (Engine α) Nat) :=
  match e with
  | ⟨core, runs⟩ => do
    let remaining ← core.counted core.buffered
    if 0 < remaining then some (Step.fault (.refillNotEmpty remaining) ⟨core, runs⟩)
    else
      match core.reader with
      | some r =>
        let core := core.restart.takeBatch r
        let n ← core.counted core.buffered
        some ⟨⟨core, runs⟩, .ok n, []⟩
      | none =>
        let o := (strictRefillRuns cut p runs).map (·.mapState (Engine.mk core.restart))
        Outcome.bindStrict o fun _ e =>
          Outcome.bindStrict (strictMerge cut p e) fun _ e => do
            let n ← e.counted e.buffered
            some ⟨e, .ok n, []⟩

/-- Refills the runs that are used up and drops those that have nothing to give. -/
def strictRefillRuns (cut : Cut α) (p : Policy α) :
    List (Engine α) → Option (Outcome (List (Engine α)) Unit)
  | [] => some ⟨[], .ok (), []⟩
  | r :: rs => do
    let remaining ← r.counted r.buffered
    if 0 < remaining then
      let rest ← strictRefillRuns cut p rs
      some (rest.mapState (r :: ·))
    else
      let o ← strictRefill cut p r
      match o.answer with
      | .error stop => some ⟨o.state :: rs, .error stop, o.events⟩
      | .ok n =>
        let rest ← strictRefillRuns cut p rs
        if 0 < n then some ⟨o.state :: rest.state, rest.answer, o.events ++ rest.events⟩
        else
          some ⟨rest.state, rest.answer,
            o.events ++ p.disposals o.state.contents.length ++ rest.events⟩

end

/-! ### Rows of items -/

end Engine

section

variable {p : Policy α}

theorem part_append (before row after : List β) :
    part before.length row.length (before ++ (row ++ after)) = some row := by
  rw [part, if_pos (by simp only [List.length_append]; omega), List.drop_left, List.take_left]

theorem halves_append (a b : List β) : halves a.length (a ++ b) = some (a, b) := by
  rw [halves, if_pos (by simp only [List.length_append]; omega), List.take_left, List.drop_left]

theorem mapM_eq_map {γ : Type} {f : β → Option γ} {g : β → γ} {row : List β}
    (h : ∀ x ∈ row, f x = some (g x)) : row.mapM f = some (row.map g) := by
  induction row with
  | nil => rfl
  | cons x row ih =>
    obtain ⟨hx, hrow⟩ := List.forall_mem_cons.mp h
    rw [List.mapM_cons, hx, ih hrow]
    rfl

theorem pairSums_lengths (le : α → α → Bool) (slices : List (List α)) :
    pairSums (slices.map List.length) = (mergePass le slices).map List.length := by
  fun_induction mergePass le slices with
  | case1 a b rest ih => simp [pairSums, ih, List.length_merge]
  | case2 a => rfl
  | case3 => rfl

/-- A round merges the slices two by two. -/
theorem mergeRound_eq (p : Policy α) (slices : List (List (Option α))) (before : List (Option α)) :
    mergeRound p (before ++ slices.flatten) before.length (slices.map List.length) =
      some (mergePass p.leSlots slices).flatten := by
  fun_induction mergePass p.leSlots slices generalizing before with
  | case1 a b rest ih =>
    have hregion : part before.length (a.length + b.length)
        (before ++ (a ++ (b ++ rest.flatten))) = some (a ++ b) := by
      rw [← List.length_append, ← List.append_assoc a]
      exact part_append before (a ++ b) rest.flatten
    have hrest := ih (before ++ (a ++ b))
    rw [List.length_append, List.length_append, ← Nat.add_assoc, List.append_assoc,
      List.append_assoc] at hrest
    simp only [List.map_cons, List.flatten_cons, mergeRound, hregion, halves_append, hrest,
      Option.bind_eq_bind, Option.bind_some]
  | case2 a =>
    have hodd := part_append before a []
    rw [List.append_nil] at hodd
    simpa [mergeRound] using hodd
  | case3 => rfl

/-- The rounds merge all slices into one, which is left in the one row or the other. -/
theorem mergeRounds_eq (p : Policy α) (slices : List (List (Option α))) (buffer scratch : Buffer α)
    (h : buffer.slots = slices.flatten) :
    ∃ spare, mergeRounds p (slices.map List.length) buffer scratch =
      if mergePasses slices.length % 2 = 1 then
        some (⟨mergeAll p.leSlots slices, scratch.capacity⟩, ⟨spare, buffer.capacity⟩)
      else some (⟨mergeAll p.leSlots slices, buffer.capacity⟩, ⟨spare, scratch.capacity⟩) := by
  fun_induction mergeAll p.leSlots slices generalizing buffer scratch with
  | case1 =>
    refine ⟨scratch.slots, ?_⟩
    rw [mergeRounds, mergePasses, ← show buffer.slots = [] from h]
    rfl
  | case2 a =>
    refine ⟨scratch.slots, ?_⟩
    rw [List.flatten_singleton] at h
    rw [mergeRounds, mergePasses, ← h]
    rfl
  | case3 a b rest ih =>
    have hround := mergeRound_eq p (a :: b :: rest) []
    rw [List.nil_append, List.length_nil, ← h] at hround
    obtain ⟨spare, heq⟩ :=
      ih { scratch with slots := (mergePass p.leSlots (a :: b :: rest)).flatten }
      { buffer with slots := buffer.slots.map fun _ => none } rfl
    refine ⟨spare, ?_⟩
    have htwo : 2 ≤ ((a :: b :: rest).map List.length).length := by simp
    have hodd : mergePasses (a :: b :: rest).length % 2 = 1 ↔
        ¬ mergePasses (mergePass p.leSlots (a :: b :: rest)).length % 2 = 1 := by
      rw [length_mergePass, mergePasses, if_neg (by simp)]
      omega
    rw [mergeRounds, dif_pos htwo, hround, pairSums_lengths p.leSlots, Option.bind_eq_bind,
      Option.bind_some, heq]
    simp only [hodd, ite_not]

end

theorem Core.Filled.counted {c : Core α} (h : c.Filled) (x : β) : c.counted x = some x := by
  refine if_pos ?_
  rw [h.slots]
  simp

namespace Engine

variable {p : Policy α} {e r : Engine α}

/-! ### Absorbing slices of any size -/

/-- As many slots of every run as `size` says, without the runs that give none. -/
def slicesBy (size : Engine α → Nat) (e : Engine α) : List (List (Option α)) :=
  (e.runs.map fun r => front (size r) r).filter (!·.isEmpty)

/-- The engine after it absorbed those. -/
def absorbBy (size : Engine α → Nat) (p : Policy α) (e : Engine α) : Engine α :=
  let count := (slicesBy size e).length
  let total := (slicesBy size e).flatten.length
  let room := bufferRoom p total e
  let spareRoom := scratchRoom count total e
  let swapped := mergePasses count % 2 = 1
  { e with
    buffer := ⟨mergeAll p.leSlots (slicesBy size e), if swapped then spareRoom else room⟩
    scratch := ⟨[], if swapped then room else spareRoom⟩
    runs := e.runs.map fun r => dropFront (size r) r }

theorem absorb_eq_absorbBy (post : α) (e : Engine α) :
    absorb p post e = absorbBy (cutSize .halving p post) p e := rfl

theorem cutSize_le (cut : Cut α) (post : α) (r : Engine α) :
    cutSize cut p post r ≤ r.window.length := cut.place_le _ _

theorem takeFront_eq {n : Nat} (h : Intact r) (hn : n ≤ r.window.length) :
    takeFront n r = some (front n r, dropFront n r) := by
  have hrow : r.tick + n ≤ r.buffer.slots.length := by
    have hle : r.tick ≤ r.buffer.slots.length := by
      rw [h.filled.slots]
      simp
    rw [Core.length_window, Core.buffered] at hn
    omega
  have hitems : (front n r).all Option.isSome = true := by
    rw [front, h.filled.window, ← List.map_take, List.all_map]
    exact List.all_eq_true.mpr fun _ _ => rfl
  have hpart : part r.tick n r.buffer.slots = some (front n r) := if_pos hrow
  rw [takeFront, hpart, Option.bind_eq_bind, Option.bind_some, if_pos hitems]

section

variable {size : Engine α → Nat} (hsize : ∀ r : Engine α, size r ≤ r.window.length)

include hsize

theorem length_front (r : Engine α) : (front (size r) r).length = size r :=
  List.length_take_of_le (hsize r)

theorem slicesBy_lengths (e : Engine α) :
    (slicesBy size e).map List.length = (e.runs.map size).filter (0 < ·) := by
  rw [slicesBy, List.filter_map, List.map_map, List.filter_map]
  have hlength : List.length ∘ (fun r => front (size r) r) = size :=
    funext fun r => length_front hsize r
  have hfilter : (fun l => !l.isEmpty) ∘ (fun r => front (size r) r) =
      (fun n => decide (0 < n)) ∘ size := by
    funext r
    have h := length_front hsize r
    show (!(front (size r) r).isEmpty) = decide (0 < size r)
    generalize front (size r) r = row at h
    rw [← h]
    cases row <;> rfl
  rw [hlength, hfilter]

theorem slicesBy_total (e : Engine α) :
    (slicesBy size e).flatten.length = (e.runs.map size).sum := by
  rw [slicesBy, List.flatten_filter_not_isEmpty, List.length_flatten, List.map_map]
  congr 2
  exact funext fun r => length_front hsize r

end

/-- From intact runs the slices are absorbed, whatever their size. -/
theorem strictAbsorb_eq (cut : Cut α) (post : α) (h : ∀ r ∈ e.runs, Intact r)
    (hs : e.buffer.slots = []) :
    strictAbsorb cut p post e =
      some (absorbBy (cutSize cut p post) p e, (slicesBy (cutSize cut p post) e).length,
        (slicesBy (cutSize cut p post) e).flatten.length) := by
  set size := cutSize cut p post with hsize
  have hle : ∀ r, size r ≤ r.window.length := cutSize_le cut post
  have hsizes : e.runs.mapM (fun r => r.counted (size r)) = some (e.runs.map size) :=
    mapM_eq_map fun r hr => (h r hr).filled.counted _
  have hzip : e.runs.zip (e.runs.map size) = e.runs.map fun r => (r, size r) := by
    simpa using List.zip_map' (f := id) (g := size) (l := e.runs)
  have htaken : (e.runs.zip (e.runs.map size)).mapM (fun (r, n) => takeFront n r) =
      some (e.runs.map fun r => (front (size r) r, dropFront (size r) r)) := by
    rw [hzip, List.mapM_map]
    exact mapM_eq_map fun r hr => takeFront_eq (h r hr) (hle r)
  have hslots : (e.runs.map fun r => (front (size r) r, dropFront (size r) r)).flatMap Prod.fst =
      (slicesBy size e).flatten := by
    rw [slicesBy, List.flatten_filter_not_isEmpty, List.flatMap_map, List.flatMap_def]
  have hruns : (e.runs.map fun r => (front (size r) r, dropFront (size r) r)).map Prod.snd =
      e.runs.map fun r => dropFront (size r) r := by
    rw [List.map_map]
    rfl
  unfold strictAbsorb
  rw [← hsize, hsizes]
  simp only [Option.bind_eq_bind, Option.bind_some, htaken, hslots, hruns,
    ← slicesBy_lengths hle, ← slicesBy_total hle, List.length_map]
  obtain ⟨spare, heq⟩ := mergeRounds_eq p (slicesBy size e)
    ⟨e.buffer.slots ++ (slicesBy size e).flatten, bufferRoom p (slicesBy size e).flatten.length e⟩
    ⟨e.scratch.slots, scratchRoom (slicesBy size e).length (slicesBy size e).flatten.length e⟩
    (by simp [hs])
  rw [heq, absorbBy]
  by_cases hodd : mergePasses (slicesBy size e).length % 2 = 1
  · simp only [if_pos hodd]
    rfl
  · simp only [if_neg hodd]
    rfl

theorem slicesBy_items (size : Engine α → Nat) (h : ∀ r ∈ e.runs, Intact r) :
    slicesBy size e =
      ((e.runs.map fun r => r.live.take (size r)).filter (!·.isEmpty)).map (·.map some) := by
  have hmap : (e.runs.map fun r => front (size r) r) =
      (e.runs.map fun r => r.live.take (size r)).map (·.map some) := by
    rw [List.map_map]
    refine List.map_congr_left fun r hr => ?_
    rw [front, (h r hr).filled.window, ← List.map_take]
    rfl
  rw [slicesBy, hmap, List.filter_map]
  simp [Function.comp_def]

theorem Intact.absorbBy {size : Engine α → Nat} {core : Core α} {runs : List (Engine α)}
    (hsize : ∀ r : Engine α, size r ≤ r.window.length) (ht : core.tick = 0)
    (h : ∀ r ∈ runs, Intact r) : Intact (absorbBy size p ⟨core, runs⟩) := by
  let rows := (runs.map fun r => r.live.take (size r)).filter (!·.isEmpty)
  constructor
  · refine .of_untouched (mergeAll p.le rows) ht ?_ rfl
    show mergeAll p.leSlots (slicesBy size ⟨core, runs⟩) = _
    rw [slicesBy_items size h]
    exact mergeAll_map (fun a b => p.leSlots_some a b) rows
  · exact List.forall_mem_map.mpr fun r hr => (h r hr).dropFront (hsize r)

/-! ### Refilling -/

/-- Done by index with any cut, something has the outcome `o`; with the engine's own cut that is
what it does when it does not look at indices. -/
structure Agrees {σ τ : Type} (cut : Cut α) (strict : Option (Outcome σ τ))
    (plain o : Outcome σ τ) : Prop where
  strict_eq : strict = some o
  plain_eq : cut = .halving → plain = o

/-- Merging from intact runs that all have something buffered. -/
theorem strictMerge_eq (cut : Cut α) (core : Core α) (runs : List (Engine α))
    (hs : core.buffer.slots = []) (ht : core.tick = 0) (hscratch : core.scratch.slots = [])
    (hd : core.draining = true) (h : ∀ r ∈ runs, Intact r ∧ 0 < r.buffered) :
    ∃ e es, Agrees cut (strictMerge cut p ⟨core, runs⟩) (mergeRuns p ⟨core, runs⟩) ⟨e, .ok (), es⟩ ∧
      Intact e ∧ Framed e ⟨core, runs⟩ := by
  have hruns : ∀ r ∈ runs, Intact r := fun r hr => (h r hr).1
  obtain ⟨post, hpost⟩ := endpost_intact (p := p) h
  cases post with
  | none =>
    refine ⟨⟨core, runs⟩, [], ⟨?_, fun _ => ?_⟩, ?_, ?_⟩
    · unfold strictMerge
      rw [hpost]
    · unfold mergeRuns
      rw [hpost]
    · exact .mk (.of_untouched [] ht hs hscratch) hruns
    · exact ⟨rfl, rfl, rfl, ht, hd, id⟩
  | some post =>
    let size := cutSize cut p post
    have hle : ∀ r, size r ≤ r.window.length := cutSize_le cut post
    have habsorb := strictAbsorb_eq (p := p) (e := ⟨core, runs⟩) cut post hruns hs
    refine ⟨absorbBy size p ⟨core, runs⟩, [.bufferRefilled runs.length
      (slicesBy size ⟨core, runs⟩).length (slicesBy size ⟨core, runs⟩).flatten.length],
      ⟨?_, ?_⟩, .absorbBy hle ht hruns, ⟨rfl, rfl, rfl, ht, hd, ?_⟩⟩
    · unfold strictMerge
      rw [hpost]
      simp only [habsorb, Option.bind_eq_bind, Option.bind_some]
      rfl
    · rintro rfl
      unfold mergeRuns
      rw [hpost]
      rfl
    · intro hnil
      obtain rfl : runs = [] := hnil
      rfl

/-- If every run that is used up can be refilled, all runs that are left have something buffered. -/
theorem strictRefillRuns_eq {cut : Cut α} : ∀ {runs : List (Engine α)},
    (∀ r ∈ runs, Intact r ∧ (r.buffered = 0 →
      ∃ r' n es, Agrees cut (strictRefill cut p r) (refill p r) ⟨r', .ok n, es⟩ ∧
        n = r'.buffered ∧ Intact r')) →
    ∃ rs es, Agrees cut (strictRefillRuns cut p runs) (refillRuns p runs) ⟨rs, .ok (), es⟩ ∧
      (∀ r ∈ rs, Intact r ∧ 0 < r.buffered) ∧ (runs = [] → rs = [])
  | [], _ => ⟨[], [], ⟨by rw [strictRefillRuns], fun _ => by rw [refillRuns]⟩, by simp, id⟩
  | r :: runs, h => by
    obtain ⟨⟨hr, hrefill⟩, htail⟩ := List.forall_mem_cons.mp h
    obtain ⟨rs, es, hagree, hrs, -⟩ := strictRefillRuns_eq htail
    rw [strictRefillRuns, refillRuns]
    simp only [hr.filled.counted, Option.bind_eq_bind, Option.bind_some]
    by_cases hb : 0 < r.buffered
    · rw [if_pos hb, if_pos hb]
      refine ⟨r :: rs, es, ⟨?_, fun hcut => ?_⟩, List.forall_mem_cons.mpr ⟨⟨hr, hb⟩, hrs⟩, by simp⟩
      · rw [hagree.strict_eq]
        rfl
      · rw [hagree.plain_eq hcut]
        rfl
    · obtain ⟨r', n, es', hagree', hn, hr'⟩ := hrefill (by omega)
      rw [if_neg hb, if_neg hb, hagree.strict_eq, hagree'.strict_eq]
      simp only [Option.bind_some]
      by_cases hpos : 0 < n
      · refine ⟨r' :: rs, es' ++ es, ⟨?_, fun hcut => ?_⟩, ?_, by simp⟩
        · rw [if_pos hpos]
        · rw [hagree'.plain_eq hcut, hagree.plain_eq hcut]
          simp only [if_pos hpos]
        · exact List.forall_mem_cons.mpr ⟨⟨hr', hn ▸ hpos⟩, hrs⟩
      · refine ⟨rs, es' ++ p.disposals r'.contents.length ++ es, ⟨?_, fun hcut => ?_⟩, hrs, by simp⟩
        · rw [if_neg hpos]
        · rw [hagree'.plain_eq hcut, hagree.plain_eq hcut]
          simp only [if_neg hpos]

/-- An intact engine that is used up can be refilled by index, and is intact afterwards. -/
theorem strictRefill_eq (cut : Cut α) (h : Intact e) (hb : e.buffered = 0) :
    ∃ e' n es, Agrees cut (strictRefill cut p e) (refill p e) ⟨e', .ok n, es⟩ ∧
      n = e'.buffered ∧ Intact e' ∧ Framed e' e := by
  induction h with
  | @mk core runs filled runs_intact ih =>
    have hcount : core.counted core.buffered = some 0 := by rw [filled.counted, ← hb]
    cases hreader : core.reader with
    | some r =>
      let c := core.restart.takeBatch r
      have hfilled : c.Filled := .of_untouched r.next.1.items rfl rfl filled.scratch
      have hcleared : core.clear.reader = some r := hreader
      refine ⟨⟨c, runs⟩, c.buffered, [], ⟨?_, fun _ => ?_⟩, rfl, .mk hfilled runs_intact, ?_⟩
      · rw [strictRefill, hcount]
        simp only [Option.bind_eq_bind, Option.bind_some, Nat.lt_irrefl, if_false, hreader]
        rw [hfilled.counted]
        rfl
      · rw [refill, if_neg (by rw [hb]; omega)]
        simp only [hcleared]
        rfl
      · exact ⟨by rw [hreader]; rfl, rfl, rfl, rfl, rfl, id⟩
    | none =>
      obtain ⟨rs, es, hagree, hrs, hnone⟩ := @strictRefillRuns_eq _ p cut runs fun r hr =>
        ⟨runs_intact r hr, fun hb => by
          obtain ⟨r', n, es, hagree, hn, hr', -⟩ := ih r hr hb
          exact ⟨r', n, es, hagree, hn, hr'⟩⟩
      obtain ⟨e', es', hagree', he', hframed⟩ := strictMerge_eq (p := p) cut core.restart rs rfl rfl
        filled.scratch rfl hrs
      refine ⟨e', e'.buffered, es ++ es', ⟨?_, fun hcut => ?_⟩, rfl, he', ?_⟩
      · rw [strictRefill, hcount]
        simp only [Option.bind_eq_bind, Option.bind_some, Nat.lt_irrefl, if_false, hreader,
          hagree.strict_eq, Option.map_some, Outcome.mapState]
        refine Outcome.bindStrict_of_ok rfl ?_
        rw [← List.append_nil es']
        refine Outcome.bindStrict_of_ok hagree'.strict_eq ?_
        rw [he'.filled.counted, Option.bind_some]
      · exact refill_of_runs hreader hb (hagree.plain_eq hcut) (hagree'.plain_eq hcut)
      · exact ⟨hframed.reader, hframed.flipped, hframed.fetched, hframed.tick, hframed.draining,
          fun hruns => hframed.runs (hnone hruns)⟩

theorem refill_intact (h : Intact e) (hb : e.buffered = 0) :
    ∃ e' n es, refill p e = ⟨e', .ok n, es⟩ ∧ n = e'.buffered ∧ Intact e' ∧ Framed e' e := by
  obtain ⟨e', n, es, hagree, hn, he', hframed⟩ := strictRefill_eq (p := p) .halving h hb
  exact ⟨e', n, es, hagree.plain_eq rfl, hn, he', hframed⟩

end Engine

end ObjectSystem.Sorting
