import ObjectSystem.Proofs.Sorting.Ties
import ObjectSystem.Sorting.Draining

/-! # Runs that can be merged

What makes merging runs piece by piece right is an invariant of the tree of runs: at every level
what is buffered is in order and comes before everything that is not buffered yet.  `Engine.due`
lists what is still to come out of an engine, and `Ready p steady e` is the invariant.

When `steady` holds, the tree has no reader in it, and what is not buffered yet comes strictly
after what is buffered.  A class of tied items is then never cut between two refills.

A run that is ready splits at any item that does not come after the last one that it has buffered:
`Ready.front_eq` and `Ready.dropFront` describe the two parts. -/

namespace ObjectSystem.Sorting

variable {α : Type}

/-- The items that a reader hands out before its first empty batch. -/
def Reader.promised (r : Reader α) : List α :=
  (r.pending.takeWhile (!·.items.isEmpty)).flatMap Batch.items

theorem Reader.promised_eq (r : Reader α) :
    r.promised = r.next.1.items ++ if r.next.1.items = [] then [] else r.next.2.promised := by
  rcases r with ⟨_ | ⟨b, rest⟩⟩
  · rfl
  · by_cases h : b.items = [] <;> simp [promised, next, h]

namespace Policy

/-- `a` may stand before `b`, and strictly so if `steady`. -/
def Precedes (p : Policy α) (steady : Prop) (a b : α) : Prop := p.le a b ∧ (steady → p.lt a b)

theorem Precedes.of_le {p : Policy α} [Std.TransCmp p.compare] {steady : Prop} {a b c : α}
    (hab : p.le a b) (hbc : p.Precedes steady b c) : p.Precedes steady a c :=
  ⟨le_trans a b c hab hbc.1, fun hs => lt_of_le_of_lt hab (hbc.2 hs)⟩

theorem Precedes.of_lt {p : Policy α} {steady : Prop} {a b : α} (h : p.lt a b) :
    p.Precedes steady a b :=
  ⟨le_of_lt h, fun _ => h⟩

end Policy

/-! ### Rows that divide -/

namespace Divided

variable {q : α → Bool}

theorem take_countP : ∀ {row : List α}, Divided q row → row.take (row.countP q) = row.filter q
  | [], _ => rfl
  | a :: row, h => by
    by_cases ha : q a
    · rw [List.countP_cons_of_pos ha, List.take_succ_cons, List.filter_cons_of_pos ha,
        take_countP h.of_cons]
    · have hrow : row.filter q = [] :=
        List.filter_eq_nil_iff.mpr fun b hb hqb => ha (List.rel_of_pairwise_cons h hb hqb)
      rw [List.countP_eq_length_filter, List.filter_cons_of_neg ha, hrow]
      rfl

theorem drop_countP : ∀ {row : List α}, Divided q row → row.drop (row.countP q) = row.filter (!q ·)
  | [], _ => rfl
  | a :: row, h => by
    by_cases ha : q a
    · rw [List.countP_cons_of_pos ha, List.drop_succ_cons,
        List.filter_cons_of_neg (by simp [ha]), drop_countP h.of_cons]
    · have hrow : ∀ b ∈ row, ¬ q b = true :=
        fun b hb hqb => ha (List.rel_of_pairwise_cons h hb hqb)
      rw [List.countP_eq_zero.mpr (List.forall_mem_cons.mpr ⟨ha, hrow⟩), List.drop_zero, eq_comm,
        List.filter_eq_self]
      simpa only [List.forall_mem_cons, Bool.not_eq_true, Bool.not_eq_eq_eq_not, Bool.not_true]
        using And.intro ha hrow

end Divided

theorem Policy.divided {p : Policy α} [Std.TransCmp p.compare] {row : List α} (post : α)
    (h : row.Pairwise (p.le · ·)) : Divided (p.le · post) row :=
  h.imp fun hab hb => Policy.le_trans _ _ _ hab hb

/-! ### What is still to come -/

theorem Core.live_eq {c : Core α} {items : List α} (h : c.window = items.map some) :
    c.live = items := by
  rw [Core.live, h, List.filterMap_map]
  exact List.filterMap_some

theorem Core.window_congr {c c' : Core α} (hs : c'.buffer.slots = c.buffer.slots)
    (ht : c'.tick = c.tick) : c'.window = c.window ∧ c'.live = c.live := by
  have hw : c'.window = c.window := by rw [window, window, hs, ht]
  exact ⟨hw, congrArg (List.filterMap id) hw⟩

theorem Core.buffered_eq {c : Core α} (h : c.window = c.live.map some) :
    c.buffered = c.live.length := by
  rw [← Core.length_window, h, List.length_map]

/-- What is buffered is in order, in slots none of which is empty. -/
structure Core.InRow (p : Policy α) (c : Core α) : Prop where
  window : c.window = c.live.map some
  sorted : c.live.Pairwise (p.le · ·)

theorem Core.InRow.of_window {p : Policy α} {c : Core α} {items : List α}
    (hw : c.window = items.map some) (h : items.Pairwise (p.le · ·)) : c.InRow p := by
  have hl := Core.live_eq hw
  exact ⟨by rw [hl, hw], hl.symm ▸ h⟩

namespace Engine

theorem slots_push (p : Policy α) (x : α) (e : Engine α) :
    (push p x e).buffer.slots = e.buffer.slots ++ [some x] := by
  show (Buffer.append (if _ then _ else _) _).slots = _
  split <;> rfl

theorem slots_sorted (p : Policy α) {e : Engine α} {items : List α}
    (h : e.buffer.slots = items.map some) :
    (sorted p e).buffer.slots = (items.mergeSort p.le).map some := by
  show e.buffer.slots.mergeSort p.leSlots = _
  rw [h, List.map_mergeSort fun a _ b _ => (p.leSlots_some a b).symm]

mutual

/-- The items that are still to come out of an engine: what it has buffered, and then what its
reader promises or, without a reader, what is to come out of its runs. -/
def due (e : Engine α) : List α :=
  match e with
  | ⟨core, runs⟩ =>
    core.live ++
      match core.reader with
      | some r => r.promised
      | none => dueAll runs

/-- The items that are still to come out of some runs. -/
def dueAll : List (Engine α) → List α
  | [] => []
  | r :: rs => due r ++ dueAll rs

end

/-- The items still to come that are not buffered yet. -/
def beyond (e : Engine α) : List α :=
  match e.reader with
  | some r => r.promised
  | none => dueAll e.runs

theorem due_eq (e : Engine α) : e.due = e.live ++ e.beyond := by
  rcases e with ⟨core, runs⟩
  rw [due]
  rfl

theorem beyond_of_no_reader {e : Engine α} (h : e.reader = none) : e.beyond = dueAll e.runs := by
  rw [beyond, h]

theorem dueAll_eq_flatMap (runs : List (Engine α)) : dueAll runs = runs.flatMap due := by
  induction runs with
  | nil => rfl
  | cons r rs ih => rw [dueAll, ih, List.flatMap_cons]

theorem dueAll_map {f : Engine α → Engine α} {runs : List (Engine α)}
    (h : ∀ r ∈ runs, (f r).due = r.due) : dueAll (runs.map f) = dueAll runs := by
  rw [dueAll_eq_flatMap, dueAll_eq_flatMap, List.flatMap_map]
  exact List.flatMap_congr h

theorem dueAll_append (rs rs' : List (Engine α)) :
    dueAll (rs ++ rs') = dueAll rs ++ dueAll rs' := by
  simp only [dueAll_eq_flatMap, List.flatMap_append]

/-- At every level what is buffered is in order and comes before what is not buffered yet. -/
inductive Ready (p : Policy α) (steady : Prop) : Engine α → Prop
  | merging {core : Core α} {runs : List (Engine α)} (flipped : core.flipped = true)
      (window : core.window = core.live.map some) (sorted : core.live.Pairwise (p.le · ·))
      (reader : core.reader = none) (runs_ready : ∀ r ∈ runs, Ready p steady r)
      (precedes : ∀ x ∈ core.live, ∀ y ∈ dueAll runs, p.Precedes steady x y) :
      Ready p steady ⟨core, runs⟩
  | reading {core : Core α} {runs : List (Engine α)} {r : Reader α} (flipped : core.flipped = true)
      (window : core.window = core.live.map some) (sorted : core.live.Pairwise (p.le · ·))
      (reader : core.reader = some r) (unsteady : ¬ steady)
      (promised : r.promised.Pairwise (p.le · ·))
      (precedes : ∀ x ∈ core.live, ∀ y ∈ r.promised, p.Precedes steady x y) :
      Ready p steady ⟨core, runs⟩

namespace Ready

variable {p : Policy α} {steady : Prop} {e : Engine α}

theorem flipped_eq (h : Ready p steady e) : e.flipped = true := by
  cases h <;> assumption

theorem window_eq (h : Ready p steady e) : e.window = e.live.map some := by
  cases h <;> assumption

theorem live_sorted (h : Ready p steady e) : e.live.Pairwise (p.le · ·) := by
  cases h <;> assumption

theorem inRow (h : Ready p steady e) : e.toCore.InRow p := ⟨h.window_eq, h.live_sorted⟩

theorem live_precedes (h : Ready p steady e) :
    ∀ x ∈ e.live, ∀ y ∈ e.beyond, p.Precedes steady x y := by
  cases h with
  | merging _ _ _ hr _ hp => simpa only [beyond, hr] using hp
  | reading _ _ _ hr _ _ hp => simpa only [beyond, hr] using hp

theorem buffered_eq (h : Ready p steady e) : e.buffered = e.live.length :=
  Core.buffered_eq h.window_eq

theorem of_sublist (h : Ready p steady e) {core : Core α} (hf : core.flipped = e.flipped)
    (hr : core.reader = e.reader) (hw : core.window = core.live.map some)
    (hs : core.live.Sublist e.live) : Ready p steady ⟨core, e.runs⟩ := by
  cases h with
  | merging flipped window sorted reader runs_ready precedes =>
    exact .merging (hf.trans flipped) hw (sorted.sublist hs) (hr.trans reader) runs_ready
      fun x hx => precedes x (hs.subset hx)
  | reading flipped window sorted reader unsteady promised precedes =>
    exact .reading (hf.trans flipped) hw (sorted.sublist hs) (hr.trans reader) unsteady promised
      fun x hx => precedes x (hs.subset hx)

theorem congr {e' : Engine α} (h : Ready p steady e) (ht : e'.tick = e.tick)
    (hr : e'.reader = e.reader) (hruns : e'.runs = e.runs)
    (hs : e'.buffer.slots = e.buffer.slots) (hf : e'.flipped = e.flipped) :
    Ready p steady e' ∧ e'.due = e.due := by
  obtain ⟨hw, hl⟩ : e'.window = e.window ∧ e'.live = e.live := Core.window_congr hs ht
  have hready : Ready p steady ⟨e'.toCore, e.runs⟩ :=
    h.of_sublist hf hr (by rw [hw, hl, h.window_eq]) (hl ▸ List.Sublist.refl _)
  refine ⟨?_, ?_⟩
  · rcases e' with ⟨core, runs⟩
    obtain rfl : runs = e.runs := hruns
    exact hready
  · rw [due_eq, due_eq, hl, beyond, beyond, hr, hruns]

/-! ### Leaves -/

theorem leaf {core : Core α} {items : List α} (hf : core.flipped = true)
    (hr : core.reader = none) (hw : core.window = items.map some)
    (h : items.Pairwise (p.le · ·)) : Ready p steady ⟨core, []⟩ := by
  have hl := Core.live_eq hw
  exact .merging hf (by rw [hl, hw]) (hl.symm ▸ h) hr (by simp) (by simp [dueAll])

theorem fromSorted (memThresh : Nat) (itemCost : α → Nat) {items : List α}
    (h : items.Pairwise (p.le · ·)) :
    Ready p steady (Engine.fromSorted memThresh itemCost items) :=
  .leaf rfl rfl rfl h

theorem fromReader (memThresh : Nat) (itemCost : α → Nat) {reader : Reader α}
    (hs : ¬ steady) (h : reader.promised.Pairwise (p.le · ·)) :
    Ready p steady (Engine.fromReader memThresh itemCost reader) :=
  .reading rfl rfl .nil rfl hs h (by intro x hx; cases hx)

end Ready

theorem due_leaf {core : Core α} {items : List α} (hr : core.reader = none)
    (hw : core.window = items.map some) : due ⟨core, []⟩ = items := by
  rw [due, hr, Core.live_eq hw]
  exact List.append_nil items

theorem due_fromSorted (memThresh : Nat) (itemCost : α → Nat) (items : List α) :
    (fromSorted memThresh itemCost items).due = items :=
  due_leaf rfl rfl

theorem due_fromReader (memThresh : Nat) (itemCost : α → Nat) (reader : Reader α) :
    (fromReader memThresh itemCost reader).due = reader.promised := by
  rw [due_eq]
  rfl

/-! ### Giving back room -/

theorem Ready.shrunk {p : Policy α} {steady : Prop} {e : Engine α} (h : Ready p steady e) :
    Ready p steady (Engine.shrunk e) ∧ (Engine.shrunk e).due = e.due := by
  induction h with
  | @merging core runs flipped window sorted reader runs_ready precedes ih =>
    have hruns : dueAll (runs.map Engine.shrunk) = dueAll runs :=
      dueAll_map fun r hr => (ih r hr).2
    have hready : ∀ r ∈ runs.map Engine.shrunk, Ready p steady r :=
      List.forall_mem_map.mpr fun r hr => (ih r hr).1
    rw [Engine.shrunk, shrunkAll_eq_map]
    refine ⟨.merging flipped window sorted reader hready (hruns ▸ precedes), ?_⟩
    rw [due, due, hruns]
    rfl
  | @reading core runs r flipped window sorted reader unsteady promised precedes =>
    rw [Engine.shrunk]
    refine ⟨.reading flipped window sorted reader unsteady promised precedes, ?_⟩
    rw [due, due, show core.reader = some r from reader]
    rfl

/-! ### Taking slots off the front -/

theorem window_dropFront {n : Nat} {e : Engine α} (h : n ≤ e.window.length) :
    (dropFront n e).window = e.window.drop n := by
  have hlen : e.window.length = e.buffer.slots.length - e.tick := List.length_drop
  show List.drop (e.tick + n) _ = _
  rcases Nat.le_total e.tick e.buffer.slots.length with ht | ht
  · refine List.drop_left' ?_
    simp only [List.length_append, List.length_take, List.length_map, Nat.min_eq_left ht,
      Nat.min_eq_left h]
  · have hw : e.window = [] := List.drop_eq_nil_of_le ht
    obtain rfl : n = 0 := by rw [hw] at h; exact Nat.le_zero.mp h
    rw [hw, List.drop_nil, dropFront, hw]
    simp

end Engine

section

open Engine

variable {p : Policy α} [Std.TransCmp p.compare] {steady : Prop} {e : Engine α}

namespace Core.InRow

theorem sliceSize_eq (h : e.toCore.InRow p) (post : α) :
    sliceSize p post e = e.live.countP (p.le · post) := by
  have hd : Divided (slotLe p post) (e.live.map some) :=
    List.pairwise_map.mpr (Policy.divided post h.sorted)
  rw [sliceSize, h.window, partitionPoint_eq hd, List.countP_map]
  rfl

/-- The slots at the front of a run hold what does not exceed `post`. -/
theorem front_eq (h : e.toCore.InRow p) (post : α) :
    front (sliceSize p post e) e = (e.live.filter (p.le · post)).map some := by
  rw [front, h.sliceSize_eq, h.window, ← List.map_take,
    (Policy.divided post h.sorted).take_countP]

theorem window_dropFront (h : e.toCore.InRow p) (post : α) :
    (dropFront (sliceSize p post e) e).window = (e.live.filter (!p.le · post)).map some := by
  have hle : sliceSize p post e ≤ e.window.length := by
    rw [h.sliceSize_eq, h.window, List.length_map]
    exact List.countP_le_length
  rw [Engine.window_dropFront hle, h.sliceSize_eq, h.window, ← List.map_drop,
    (Policy.divided post h.sorted).drop_countP]

theorem live_dropFront (h : e.toCore.InRow p) (post : α) :
    (dropFront (sliceSize p post e) e).live = e.live.filter (!p.le · post) :=
  Core.live_eq (h.window_dropFront post)

theorem dropFront (h : e.toCore.InRow p) (post : α) :
    (dropFront (sliceSize p post e) e).toCore.InRow p :=
  .of_window (h.window_dropFront post) (h.sorted.sublist List.filter_sublist)

theorem due_split (h : e.toCore.InRow p) (post : α) :
    e.due = e.live.filter (p.le · post) ++ (Engine.dropFront (sliceSize p post e) e).due := by
  have hd := Policy.divided post h.sorted
  rw [due_eq, due_eq, h.live_dropFront, ← List.append_assoc, ← hd.take_countP, ← hd.drop_countP,
    List.take_append_drop]
  rfl

end Core.InRow

namespace Engine.Ready

/-- A run is ready after its front was taken. -/
theorem dropFront (h : Ready p steady e) (post : α) :
    Ready p steady (Engine.dropFront (sliceSize p post e) e) :=
  h.of_sublist rfl rfl (h.inRow.dropFront post).window
    ((h.inRow.live_dropFront post) ▸ List.filter_sublist)

theorem precedes_dropFront (h : Ready p steady e) {post last : α}
    (hlast : last ∈ e.live) (hle : p.le post last) :
    ∀ y ∈ (Engine.dropFront (sliceSize p post e) e).due, p.Precedes steady post y := by
  intro y hy
  rw [due_eq, List.mem_append, h.inRow.live_dropFront, List.mem_filter] at hy
  rcases hy with ⟨_, hy⟩ | hy
  · exact .of_lt (Policy.lt_of_not_le (by simpa using hy))
  · exact .of_le hle (h.live_precedes last hlast y hy)

end Engine.Ready

end

end ObjectSystem.Sorting
