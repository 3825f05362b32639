import Mathlib.Data.List.TakeWhile
import ObjectSystem.Proofs.Sorting.Assembly

/-! # Batches and ties

An engine whose runs serve readers is read in order, but where a batch ends within a class of ties
shows in the order of the ties.  A run has one portion of the class at a time, and the next one when
its buffer is used up, so the class comes out round by round: the first portions of all runs, then
the second ones, and so on (`drains_by_rounds`).

That is the order of the runs, as if each of them were in memory, if and only if no class is taken
apart in this way; it is so if every class is within one batch. -/

namespace ObjectSystem.Sorting

variable {α : Type} {p : Policy α}

/-! ### Readers over lists -/

theorem Reader.ne_nil_of_mem_pieces {size : Nat} {items piece : List α} (hsize : 0 < size)
    (h : piece ∈ pieces size items) : piece ≠ [] := by
  fun_induction pieces size items with
  | case1 => cases h
  | case2 items hne ih =>
    rcases List.mem_cons.mp h with rfl | h
    · intro hnil
      rcases List.take_eq_nil_iff.mp hnil with hzero | hnil
      · omega
      · exact hne (.inl hnil)
    · exact ih h

theorem Reader.promised_ofItems (items : List α) (size : Nat) :
    (ofItems items size).promised = items := by
  have hall : (ofItems items size).pending.takeWhile (!·.items.isEmpty) =
      (ofItems items size).pending := by
    refine List.takeWhile_eq_self_iff.mpr fun b hb => ?_
    obtain ⟨piece, hpiece, rfl⟩ := List.mem_map.mp hb
    have hne := ne_nil_of_mem_pieces (by omega) hpiece
    simpa [Batch.honest] using hne
  rw [promised, hall]
  exact items_ofItems items size

namespace Engine

/-! ### Adopting readers -/

/-- Adopts leaves that serve some readers, one after the other. -/
def adoptAll (p : Policy α) (memThresh : Nat) (itemCost : α → Nat) :
    List (Reader α) → Step (Engine α) Unit
  | [] => pure ()
  | r :: rs => do
    addRun p (fromReader memThresh itemCost r)
    adoptAll p memThresh itemCost rs

theorem adoptAll_eq {memThresh : Nat} {itemCost : α → Nat} (readers : List (Reader α))
    {e : Engine α} (h : e.draining = false) :
    adoptAll p memThresh itemCost readers e =
      ⟨{ e with runs := e.runs ++ readers.map (fromReader memThresh itemCost) }, .ok (), []⟩ := by
  induction readers generalizing e with
  | nil =>
    rw [List.map_nil, List.append_nil]
    cases e
    rfl
  | cons r rs ih =>
    have hadopt : addRun p (fromReader memThresh itemCost r) e =
        ⟨{ e with runs := e.runs ++ [fromReader memThresh itemCost r] }, .ok (), []⟩ :=
      addRun_of_unread (by simp [h]) rfl
    have hrest := @ih { e with runs := e.runs ++ [fromReader memThresh itemCost r] } h
    calc adoptAll p memThresh itemCost (r :: rs) e
        = (addRun p (fromReader memThresh itemCost r) e).bind
            fun _ => adoptAll p memThresh itemCost rs := Step.bind_apply _ _ _
      _ = adoptAll p memThresh itemCost rs
            { e with runs := e.runs ++ [fromReader memThresh itemCost r] } := by
          rw [hadopt]
          exact Outcome.bind_ok_nil _ _ _
      _ = ⟨{ e with runs := e.runs ++ (r :: rs).map (fromReader memThresh itemCost) },
            .ok (), []⟩ := by
          rw [hrest, List.append_assoc]
          rfl

section

variable [Std.TransCmp p.compare] (memThresh : Nat) (itemCost : α → Nat)
  {readers : List (Reader α)}

/-- The engine with the leaves of some readers. -/
def served (p : Policy α) (memThresh : Nat) (itemCost : α → Nat) (readers : List (Reader α)) :
    Engine α :=
  (adoptAll p memThresh itemCost readers (new memThresh itemCost)).state

omit [Std.TransCmp p.compare] in
theorem due_fromReaders (readers : List (Reader α)) :
    dueAll (readers.map (fromReader memThresh itemCost)) = readers.flatMap Reader.promised := by
  rw [dueAll_eq_flatMap, List.flatMap_map]
  exact List.flatMap_congr fun r _ => due_fromReader memThresh itemCost r

omit [Std.TransCmp p.compare] in
theorem portions_fromReaders (readers : List (Reader α)) (c : α) :
    portionsAll p c (readers.map (fromReader memThresh itemCost)) =
      weave (readers.map (Reader.portions p c)) := by
  rw [portionsAll_eq, List.map_map]
  refine congrArg weave (List.map_congr_left fun r _ => ?_)
  exact portions_eq p c (fromReader memThresh itemCost r)

/-- An engine that serves readers is read in order, ties round by round. -/
theorem drains_served (h : ∀ r ∈ readers, r.promised.Pairwise (p.le · ·)) :
    ∃ out, Drains p (served p memThresh itemCost readers) out ∧ out.Pairwise (p.le · ·) ∧
      out.Perm (readers.flatMap Reader.promised) ∧
      ∀ c, out.filter (p.tied c) = (weave (readers.map (Reader.portions p c))).flatten := by
  let runs := readers.map (fromReader memThresh itemCost)
  have hserved : served p memThresh itemCost readers =
      { new memThresh itemCost with runs := runs } := by
    rw [served, adoptAll_eq readers rfl]
    rfl
  have hflip : flip p (served p memThresh itemCost readers) =
      ⟨{ new memThresh itemCost with runs := runs, flipped := true }, .ok (), []⟩ := by
    rw [hserved]
    rfl
  have hruns : ∀ r ∈ runs, Ready p False r := List.forall_mem_map.mpr fun r hr =>
    .fromReader memThresh itemCost id (h r hr)
  have hready : Ready p False { new memThresh itemCost with runs := runs, flipped := true } :=
    .merging rfl rfl .nil rfl hruns (by intro x hx; cases hx)
  obtain ⟨hdue, hportions⟩ :=
    @used_up _ p { (new memThresh itemCost : Engine α).toCore with flipped := true } runs rfl rfl
  obtain ⟨out, hsorted, hout, hties, hyields⟩ := hready.readAll_eq rfl
  refine ⟨out, ⟨?_, ?_⟩, hsorted, ?_, fun c => ?_⟩
  · rw [hflip]
  · rw [hflip]
    exact hyields
  · have hperm := hout.perm
    rw [hdue, due_fromReaders] at hperm
    exact hperm
  · rw [hties, hportions, portions_fromReaders]

end

theorem Drains.answers_eq {e : Engine α} {items items' : List α} (h : Drains p e items)
    (h' : Drains p e items') (rs : List Read) : answers items rs = answers items' rs := by
  rw [h.2.unique h'.2]

/-- An engine that adopts leaves over readers is read, once it is flipped, as one list in order,
which holds what the readers hand out before an empty batch.  Items tied with each other come round
by round: those in the first batch of each reader that has some, reader after reader, then those in
the next batches, and so on.

The list is that of the readers' items in the order of the readers, sorted with ties as they are, if
and only if these rounds leave every class of ties in the order of the readers.  They do if no
class is cut by the end of a batch. -/
theorem drains_by_rounds (p : Policy α) [Std.TransCmp p.compare] (memThresh : Nat)
    (itemCost : α → Nat) (readers : List (Reader α))
    (h : ∀ r ∈ readers, r.promised.Pairwise (p.le · ·)) :
    (adoptAll p memThresh itemCost readers (new memThresh itemCost)).answer = .ok () ∧
    ∃ out, Drains p (served p memThresh itemCost readers) out ∧ out.Pairwise (p.le · ·) ∧
      out.Perm (readers.flatMap Reader.promised) ∧
      (∀ c, out.filter (p.tied c) = (weave (readers.map (Reader.portions p c))).flatten) ∧
      (out = (readers.flatMap Reader.promised).mergeSort p.le ↔
        ∀ c, (weave (readers.map (Reader.portions p c))).flatten =
          readers.flatMap fun r => (r.portions p c).flatten) ∧
      ((∀ r ∈ readers, ∀ c, (r.portions p c).length ≤ 1) →
        out = (readers.flatMap Reader.promised).mergeSort p.le) := by
  obtain ⟨out, hdrains, hsorted, hperm, hties⟩ := drains_served memThresh itemCost h
  have hclass : ∀ c, (readers.flatMap Reader.promised).filter (p.tied c) =
      readers.flatMap fun r => (r.portions p c).flatten := by
    intro c
    rw [List.filter_flatMap]
    exact List.flatMap_congr fun r _ => r.flatten_portions.symm
  have hiff : out = (readers.flatMap Reader.promised).mergeSort p.le ↔
      ∀ c, (weave (readers.map (Reader.portions p c))).flatten =
        readers.flatMap fun r => (r.portions p c).flatten := by
    constructor
    · intro heq c
      rw [← hties, ← hclass, heq]
      exact (Policy.rearranges_mergeSort _).ties trivial c
    · intro hrounds
      refine Policy.Rearranges.eq_mergeSort ⟨hperm, fun _ c => ?_⟩ hsorted
      rw [hties, hrounds, hclass]
  refine ⟨?_, out, hdrains, hsorted, hperm, hties, hiff, fun huncut => hiff.mpr fun c => ?_⟩
  · rw [adoptAll_eq readers rfl]
  · rw [flatten_weave (List.forall_mem_map.mpr fun r hr => huncut r hr c), List.flatMap_map]

/-! ### A class that is cut -/

/-- Pairs in the order of their numbers. -/
def byNumber : Policy (Nat × Char) := ⟨compareOn Prod.fst, 8, []⟩

instance : Std.TransCmp byNumber.compare := inferInstanceAs (Std.TransCmp (compareOn Prod.fst))

/-- Two readers with items that are all tied.  The first one hands them out one at a time. -/
def cut : List (Reader (Nat × Char)) :=
  [.ofItems [(1, 'a'), (1, 'b')] 1, .ofItems [(1, 'c')] 1]

theorem sorted_cut : ∀ r ∈ cut, r.promised.Pairwise (byNumber.le · ·) := by
  simp only [cut, List.forall_mem_cons, List.not_mem_nil, false_implies, implies_true, and_true,
    Reader.promised_ofItems]
  decide

theorem portions_cut : cut.map (Reader.portions byNumber (1, 'a')) =
    [[[(1, 'a')], [(1, 'b')]], [[(1, 'c')]]] := by
  have hfirst : Reader.ofItems [(1, 'a'), (1, 'b')] 1 =
      ⟨[.honest [(1, 'a')], .honest [(1, 'b')]]⟩ := by
    simp [Reader.ofItems, Reader.pieces]
  have hsecond : Reader.ofItems [(1, 'c')] 1 = ⟨[.honest [(1, 'c')]]⟩ := by
    simp [Reader.ofItems, Reader.pieces]
  rw [cut, hfirst, hsecond]
  decide

/-- The second item of the first reader comes out after the item of the second reader, so the
engine is not read as if the items were in memory. -/
theorem drains_cut :
    Drains byNumber (served byNumber 100 (fun _ => 1) cut) [(1, 'a'), (1, 'c'), (1, 'b')] ∧
      ¬ Drains byNumber (served byNumber 100 (fun _ => 1) cut)
        ((cut.flatMap Reader.promised).mergeSort byNumber.le) := by
  have hitems : cut.flatMap Reader.promised = [(1, 'a'), (1, 'b'), (1, 'c')] := by
    simp [cut, Reader.promised_ofItems]
  have hdrains : Drains byNumber (served byNumber 100 (fun _ => 1) cut)
      [(1, 'a'), (1, 'c'), (1, 'b')] := by
    obtain ⟨out, hdrains, -, hperm, hties⟩ := drains_served 100 (fun _ => 1) sorted_cut
    have htied : ∀ x ∈ [(1, 'a'), (1, 'b'), (1, 'c')], byNumber.tied (1, 'a') x := by decide
    have hall : out.filter (byNumber.tied (1, 'a')) = out :=
      List.filter_eq_self.mpr fun x hx => htied x (hitems ▸ hperm.mem_iff.mp hx)
    have hout := hties (1, 'a')
    rw [hall, portions_cut] at hout
    have hrounds : (weave [[[(1, 'a')], [(1, 'b')]], [[(1, 'c')]]]).flatten =
        [(1, 'a'), (1, 'c'), (1, 'b')] := by decide
    rwa [hout, hrounds] at hdrains
  refine ⟨hdrains, fun hsorted => ?_⟩
  have hinOrder : [(1, 'a'), (1, 'b'), (1, 'c')].Pairwise (byNumber.le · ·) := by decide
  rw [hitems, List.mergeSort_of_pairwise hinOrder] at hsorted
  exact absurd (hdrains.answers_eq hsorted [.fetch, .fetch]) (by decide)

/-- The class of the first reader is taken apart, and comes out in two rounds. -/
theorem drains_by_rounds_cut :
    ∃ out, Drains byNumber (served byNumber 100 (fun _ => 1) cut) out ∧
      out.filter (byNumber.tied (1, 'a')) = [(1, 'a'), (1, 'c'), (1, 'b')] := by
  obtain ⟨-, out, hdrains, -, -, hties, -⟩ :=
    drains_by_rounds byNumber 100 (fun _ => 1) cut sorted_cut
  refine ⟨out, hdrains, ?_⟩
  rw [hties, portions_cut]
  decide

end Engine

end ObjectSystem.Sorting
