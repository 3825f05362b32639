import ObjectSystem.Proofs.Sorting.Assembly

/-! # Whole runs of an engine

`Made p phase e given taken` says how an engine came about: it was made empty, and fed, sorted,
spilled and given runs in any order, where every run came about in the same way, or is a leaf over
items in order, or serves a reader whose batches are in order up to the first empty one.  A run may
have been read from before it was adopted.  `given` lists all items that went in anywhere in the
tree, and `taken` those that came out of runs before they were adopted.

Whatever the order of calls and the shape of the tree, once such an engine is flipped it answers
like one list in order, which together with `taken` makes up `given` (`drains_of_made`). -/

namespace ObjectSystem.Sorting.Engine

variable {α : Type} {p : Policy α}

/-- How far an engine has come: it is being put together, or read, or is a leaf that serves a
reader. -/
inductive Phase
  | building
  | reading
  | serving
  deriving DecidableEq, Repr

/-- The engines that come about by accepted calls, with the items that went in and came out. -/
inductive Made (p : Policy α) : Phase → Engine α → (given taken : List α) → Prop
  | new (memThresh : Nat) (itemCost : α → Nat) :
      Made p .building (Engine.new memThresh itemCost) [] []
  | feed {e : Engine α} {given taken : List α} (x : α) (made : Made p .building e given taken)
      (accepted : (Engine.feed p x e).answer = .ok ()) :
      Made p .building (Engine.feed p x e).state (given ++ [x]) taken
  | sortBuffer {e : Engine α} {given taken : List α} (made : Made p .building e given taken)
      (accepted : (Engine.sortBuffer p e).answer = .ok ()) :
      Made p .building (Engine.sortBuffer p e).state given taken
  | flush {e : Engine α} {given taken : List α} (made : Made p .building e given taken)
      (accepted : (Engine.flush p e).answer = .ok ()) :
      Made p .building (Engine.flush p e).state given taken
  | addRun {phase : Phase} {e r : Engine α} {given taken given' taken' : List α}
      (made : Made p .building e given taken) (run : Made p phase r given' taken')
      (accepted : (Engine.addRun p r e).answer = .ok ()) :
      Made p .building (Engine.addRun p r e).state (given ++ given') (taken ++ taken')
  | setMemThresh {phase : Phase} {e : Engine α} {given taken : List α} (bytes : Nat)
      (made : Made p phase e given taken) :
      Made p phase (Engine.setMemThresh bytes e).state given taken
  | setItemCost {phase : Phase} {e : Engine α} {given taken : List α} (cost : α → Nat)
      (made : Made p phase e given taken) :
      Made p phase (Engine.setItemCost cost e).state given taken
  | growBuffer {phase : Phase} {e : Engine α} {given taken : List α} (n : Nat)
      (made : Made p phase e given taken) :
      Made p phase (Engine.growBuffer n e).state given taken
  | shrink {phase : Phase} {e : Engine α} {given taken : List α}
      (made : Made p phase e given taken) :
      Made p phase (Engine.shrink e).state given taken
  | flip {e : Engine α} {given taken : List α} (made : Made p .building e given taken)
      (accepted : (Engine.flip p e).answer = .ok ()) :
      Made p .building (Engine.flip p e).state given taken
  | fetch {phase : Phase} {e : Engine α} {given taken : List α} {item : Option α}
      (made : Made p phase e given taken) (unserved : phase ≠ .serving)
      (flipped : e.flipped = true) (answered : (Engine.fetch p e).answer = .ok item) :
      Made p .reading (Engine.fetch p e).state given (taken ++ item.toList)
  | peek {phase : Phase} {e : Engine α} {given taken : List α} {item : Option α}
      (made : Made p phase e given taken) (unserved : phase ≠ .serving)
      (flipped : e.flipped = true) (answered : (Engine.peek p e).answer = .ok item) :
      Made p .reading (Engine.peek p e).state given taken
  | fromSorted {items : List α} (memThresh : Nat) (itemCost : α → Nat)
      (sorted : items.Pairwise (p.le · ·)) :
      Made p .reading (Engine.fromSorted memThresh itemCost items) items []
  | fromReader {reader : Reader α} (memThresh : Nat) (itemCost : α → Nat)
      (sorted : reader.promised.Pairwise (p.le · ·)) :
      Made p .serving (Engine.fromReader memThresh itemCost reader) reader.promised []

/-- What holds of an engine in a phase, given what went in and came out. -/
def Accounts (p : Policy α) (e : Engine α) (given taken : List α) : Phase → Prop
  | .building => ∃ settled pending, Assembling p False e settled pending ∧
      (taken ++ (settled ++ pending)).Perm given
  | .reading => Ready p False e ∧ e.reader = none ∧ (taken ++ e.due).Perm given
  | .serving => Ready p False e ∧ (taken ++ e.due).Perm given

section

variable [Std.TransCmp p.compare] {e : Engine α} {given taken : List α} {phase : Phase}

omit [Std.TransCmp p.compare] in
theorem Accounts.ready (h : Accounts p e given taken phase) (hp : phase ≠ .serving)
    (hf : e.flipped = true) :
    Ready p False e ∧ e.reader = none ∧ (taken ++ e.due).Perm given := by
  cases phase with
  | building =>
    obtain ⟨settled, pending, ha, hperm⟩ := h
    obtain ⟨hready, hdue⟩ := ha.ready hf
    exact ⟨hready, ha.reader, (hdue.perm.append_left taken).trans hperm⟩
  | reading => exact h
  | serving => exact absurd rfl hp

omit [Std.TransCmp p.compare] in
theorem Accounts.congr {e' : Engine α} (h : Accounts p e given taken phase)
    (ht : e'.tick = e.tick) (hf : e'.fetched = e.fetched) (hr : e'.reader = e.reader)
    (hruns : e'.runs = e.runs) (hs : e'.buffer.slots = e.buffer.slots)
    (hflip : e'.flipped = e.flipped) : Accounts p e' given taken phase := by
  cases phase with
  | building =>
    obtain ⟨settled, pending, ha, hperm⟩ := h
    exact ⟨settled, pending, ha.congr ht hf hr hruns hs hflip, hperm⟩
  | reading =>
    obtain ⟨hready, hdue⟩ := h.1.congr ht hr hruns hs hflip
    exact ⟨hready, hr.trans h.2.1, hdue ▸ h.2.2⟩
  | serving =>
    obtain ⟨hready, hdue⟩ := h.1.congr ht hr hruns hs hflip
    exact ⟨hready, hdue ▸ h.2⟩

omit [Std.TransCmp p.compare] in
theorem Accounts.shrunk (h : Accounts p e given taken phase) :
    Accounts p (Engine.shrunk e) given taken phase := by
  cases phase with
  | building =>
    obtain ⟨settled, pending, ha, hperm⟩ := h
    exact ⟨settled, pending, ha.shrunk, hperm⟩
  | reading =>
    obtain ⟨hready, hdue⟩ := h.1.shrunk
    refine ⟨hready, ?_, hdue ▸ h.2.2⟩
    rcases e with ⟨core, runs⟩
    rw [Engine.shrunk]
    exact h.2.1
  | serving =>
    obtain ⟨hready, hdue⟩ := h.1.shrunk
    exact ⟨hready, hdue ▸ h.2⟩

theorem Accounts.freeze (h : Accounts p e given taken phase) :
    ∃ e', Engine.freeze p e = ⟨e', .ok (), []⟩ ∧ Ready p False e' ∧
      (taken ++ e'.due).Perm given := by
  cases phase with
  | building =>
    obtain ⟨settled, pending, ha, hperm⟩ := h
    obtain ⟨e', heq, hready, hdue⟩ := ha.freeze
    exact ⟨e', heq, hready, (hdue.perm.append_left taken).trans hperm⟩
  | reading => exact ⟨e, h.1.freeze_eq, h.1, h.2.2⟩
  | serving => exact ⟨e, h.1.freeze_eq, h.1, h.2⟩

/-- Every engine that comes about by accepted calls holds what went in and did not come out. -/
theorem Made.accounts (h : Made p phase e given taken) : Accounts p e given taken phase := by
  induction h with
  | new memThresh itemCost => exact ⟨[], [], .new memThresh itemCost, .refl _⟩
  | @feed e given taken x _ accepted ih =>
    obtain ⟨settled, pending, ha, hperm⟩ := ih
    have hperm' : (taken ++ (settled ++ (pending ++ [x]))).Perm (given ++ [x]) := by
      rw [← List.append_assoc settled, ← List.append_assoc]
      exact hperm.append_right [x]
    rcases ha.feed accepted with ⟨ha, -⟩ | ⟨ha, -⟩
    · exact ⟨_, _, ha, hperm'⟩
    · exact ⟨_, _, ha, by rwa [List.append_nil]⟩
  | sortBuffer _ _ ih =>
    obtain ⟨settled, pending, ha, hperm⟩ := ih
    exact ⟨settled, pending, ha.sortBuffer, hperm⟩
  | flush _ _ ih =>
    obtain ⟨settled, pending, ha, hperm⟩ := ih
    obtain ⟨e', heq, ha', -⟩ := ha.flush
    rw [heq]
    exact ⟨_, _, ha', by rwa [List.append_nil]⟩
  | @addRun phase e r given taken given' taken' _ _ accepted ih ih' =>
    obtain ⟨settled, pending, ha, hperm⟩ := ih
    obtain ⟨r', heq, hready, hperm'⟩ := ih'.freeze
    refine ⟨_, _, ha.addRun accepted heq hready (.refl _), ?_⟩
    have hmove : (taken ++ taken' ++ (settled ++ r'.due ++ pending)).Perm
        (taken ++ (settled ++ pending) ++ (taken' ++ r'.due)) := by
      rw [List.append_assoc taken, List.append_assoc taken]
      refine List.Perm.append_left taken ?_
      calc (taken' ++ (settled ++ r'.due ++ pending)).Perm
            (settled ++ r'.due ++ pending ++ taken') := List.perm_append_comm
        _ = settled ++ (r'.due ++ (pending ++ taken')) := by simp only [List.append_assoc]
        (settled ++ (r'.due ++ (pending ++ taken'))).Perm
            (settled ++ (pending ++ taken' ++ r'.due)) := List.perm_append_comm.append_left _
        _ = settled ++ pending ++ (taken' ++ r'.due) := by simp only [List.append_assoc]
    exact hmove.trans (hperm.append hperm')
  | setMemThresh bytes _ ih => exact ih.congr rfl rfl rfl rfl rfl rfl
  | setItemCost cost _ ih => exact ih.congr rfl rfl rfl rfl rfl rfl
  | growBuffer n _ ih => exact ih.congr rfl rfl rfl rfl rfl rfl
  | shrink _ ih => exact ih.shrunk
  | flip _ _ ih =>
    obtain ⟨settled, pending, ha, hperm⟩ := ih
    obtain ⟨e', heq, ha', -⟩ := ha.flip
    rw [heq]
    exact ⟨_, _, ha', by rwa [List.append_nil]⟩
  | @fetch phase e given taken item _ unserved flipped answered ih =>
    obtain ⟨hready, hr, hperm⟩ := ih.ready unserved flipped
    obtain ⟨e', item', es, heq, hready', hr', hdue⟩ := hready.fetch_eq hr
    rw [heq] at answered ⊢
    obtain rfl : item' = item := Except.ok.inj answered
    refine ⟨hready', hr', ?_⟩
    rw [List.append_assoc]
    exact (hdue.perm.append_left taken).trans hperm
  | @peek phase e given taken item _ unserved flipped answered ih =>
    obtain ⟨hready, hr, hperm⟩ := ih.ready unserved flipped
    obtain ⟨e', item', es, heq, hready', hr', hdue⟩ := hready.peek_eq hr
    rw [heq]
    exact ⟨hready', hr', (hdue.perm.append_left taken).trans hperm⟩
  | fromSorted memThresh itemCost sorted =>
    exact ⟨.fromSorted memThresh itemCost sorted, rfl, .of_eq (due_fromSorted memThresh itemCost _)⟩
  | fromReader memThresh itemCost sorted =>
    exact ⟨.fromReader memThresh itemCost id sorted, .of_eq (due_fromReader memThresh itemCost _)⟩

/-- An engine that was put together by accepted calls is read, once it is flipped, as one list in
order: what went in anywhere below it and did not come out before. -/
theorem drains_of_made (h : Made p .building e given taken) :
    ∃ out, out.Pairwise (p.le · ·) ∧ (taken ++ out).Perm given ∧ Drains p e out := by
  obtain ⟨settled, pending, ha, hperm⟩ := h.accounts
  obtain ⟨out, hsorted, hout, hdrains⟩ := ha.drains
  exact ⟨out, hsorted, (hout.perm.append_left taken).trans hperm, hdrains⟩

/-- A number was fed, a leaf from which 1 was fetched was adopted, and then a reader that would
hand out 0 after an empty batch. -/
theorem drains_of_made_mixed :
    ∃ e : Engine Nat, Made ⟨compare, 8, []⟩ .building e [7, 1, 4, 2, 3, 3] [1] ∧
      ∃ out, out.Pairwise (Policy.le ⟨compare, 8, []⟩ · ·) ∧ ([1] ++ out).Perm [7, 1, 4, 2, 3, 3] ∧
        Drains ⟨compare, 8, []⟩ e out := by
  let reader : Reader Nat := ⟨[.honest [2, 3], .honest [3], .honest [], .honest [0]]⟩
  have batches : reader.promised.Pairwise (Policy.le ⟨compare, 8, []⟩ · ·) := by decide
  have items : [1, 4].Pairwise (Policy.le ⟨compare, 8, []⟩ · ·) := by decide
  have fed := Made.feed (p := ⟨compare, 8, []⟩) 7 (.new 100 fun _ => 1) rfl
  have leaf := (Made.fromSorted 100 (fun _ => 1) items).fetch (by decide) rfl rfl
  have served := Made.fromReader 100 (fun _ => 1) batches
  have made := (fed.addRun leaf rfl).addRun served rfl
  exact ⟨_, made, drains_of_made made⟩

end

end ObjectSystem.Sorting.Engine
