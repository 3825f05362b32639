import ObjectSystem.Proofs.Sorting.Account
import ObjectSystem.Proofs.Sorting.Requests
import ObjectSystem.Proofs.Sorting.Unmerged

/-! # What growing costs

A buffer that is full is given more room before the next item goes into it, and all its items are
copied there.  `copied` counts them while items are fed one by one.

The count is bounded by putting by nine for every item that is fed.  `savings` is what an engine has
left of that: the room that is asked for exceeds the items that it is for by an eighth, so by the
time that the buffer is full again, as much was put by as there are items to copy.  A step never
takes more than there is (`Roomy.feed`), so neither does a run (`Roomy.feedAll`), and all in all at
most nine copies are made for each item (`copied_le`). -/

namespace ObjectSystem.Sorting

/-! ### Requests for one more -/

theorem le_oversize {n : Nat} (h : n < wordLimit) (width : Nat) : n ≤ oversize n width := by
  by_cases hlt : n + (spare n + 7) < wordLimit
  · have hbounds := oversize_bounds hlt width
    omega
  · rw [oversize_of_le (Nat.not_lt.mp hlt)]
    omega

theorem nine_mul_le {n width : Nat} (h : oversize (n + 1) width ≠ wordLimit - 1) :
    9 * n ≤ 8 * oversize (n + 1) width := by
  have hlt : n + 1 + (spare (n + 1) + 7) < wordLimit :=
    Nat.not_le.mp (mt (oversize_eq_iff (n + 1) width).mpr h)
  have hge := (oversize_bounds hlt width).1
  have heighth : (n + 1) / 8 ≤ spare (n + 1) := Nat.le_max_left _ _
  omega

namespace Engine

variable {α : Type} {p : Policy α} {e : Engine α}

/-! ### Copies and savings -/

/-- How many items are copied when one is fed: all that are buffered, if the room for them changes. -/
def moved (p : Policy α) (x : α) (e : Engine α) : Nat :=
  if (push p x e).capacity = e.capacity then 0 else e.buffer.slots.length

/-- How many items are copied when items are fed one by one. -/
def copied (p : Policy α) : List α → Engine α → Nat
  | [], _ => 0
  | x :: xs, e => moved p x e + copied p xs (feed p x e).state

/-- What is left of what was put by for the items that are buffered.  An engine that has all the
room that can be asked for needs nothing. -/
def savings (e : Engine α) : Nat :=
  if e.capacity = wordLimit - 1 then 0 else 9 * e.buffer.slots.length - 8 * e.capacity

/-- The room changes only if there is none left, and then to what is asked for. -/
theorem capacity_push (hroom : e.buffer.slots.length ≤ e.capacity)
    (hn : e.buffer.slots.length + 1 < wordLimit) (x : α) :
    (push p x e).capacity =
      if e.buffer.slots.length = e.capacity then oversize (e.buffer.slots.length + 1) p.slotWidth
      else e.capacity := by
  have hle := le_oversize hn p.slotWidth
  by_cases hfull : e.buffer.slots.length = e.capacity
  · have hpush : (push p x e).buffer =
        (e.buffer.grow (oversize (e.buffer.slots.length + 1) p.slotWidth)).append [some x] :=
      congrArg (Buffer.append · [some x]) (if_pos hfull)
    rw [if_pos hfull, Engine.capacity, hpush]
    show max (max e.capacity _) (e.buffer.slots.length + 1) = _
    omega
  · have hpush : (push p x e).buffer = e.buffer.append [some x] :=
      congrArg (Buffer.append · [some x]) (if_neg hfull)
    rw [if_neg hfull, Engine.capacity, hpush]
    show max e.capacity (e.buffer.slots.length + 1) = _
    omega

/-- What is copied when an item is put into the buffer was put by before, but for nine. -/
theorem moved_add_savings_push (hroom : e.buffer.slots.length ≤ e.capacity)
    (hn : e.buffer.slots.length + 1 < wordLimit) (x : α) :
    moved p x e + savings (push p x e) ≤ savings e + 9 := by
  have hcapacity := capacity_push (p := p) hroom hn x
  unfold moved savings
  rw [length_slots_push]
  by_cases hfull : e.buffer.slots.length = e.capacity
  · rw [if_pos hfull] at hcapacity
    have hle := le_oversize hn p.slotWidth
    have hmore : (push p x e).capacity ≠ e.capacity := by omega
    have hsome : e.capacity ≠ wordLimit - 1 := by omega
    rw [if_neg hmore, if_neg hsome]
    split
    next => omega
    next hless =>
      rw [hcapacity] at hless ⊢
      have heighth := nine_mul_le hless
      omega
  · rw [if_neg hfull] at hcapacity
    rw [if_pos hcapacity, hcapacity]
    split <;> omega

/-! ### Feeding -/

/-- An engine that is being put together, with room for all that it has buffered. -/
structure Roomy (e : Engine α) : Prop where
  isOpen : Open e
  room : e.buffer.slots.length ≤ e.capacity

namespace Roomy

theorem new (memThresh : Nat) (itemCost : α → Nat) : Roomy (Engine.new memThresh itemCost) :=
  ⟨(Accounted.new memThresh itemCost).isOpen, Nat.le_refl 0⟩

/-- Feeding an item leaves room for what is buffered.  If nothing is spilled there is one item more,
and the room changes only if there was none left.  What is copied was put by before, but for nine. -/
theorem feed (h : Roomy e) (hn : e.buffer.slots.length + 1 < wordLimit) (x : α) :
    ∃ e', Engine.feed p x e = ⟨e', .ok (), []⟩ ∧ Roomy e' ∧
      e'.buffer.slots.length ≤ e.buffer.slots.length + 1 ∧
      (e'.runs = e.runs → e'.buffered = e.buffered + 1 ∧ e'.capacity =
        if e.buffered = e.capacity then oversize (e.buffered + 1) p.slotWidth else e.capacity) ∧
      moved p x e + savings e' ≤ savings e + 9 := by
  have hsavings := moved_add_savings_push (p := p) h.room hn x
  obtain ⟨e', heq, hopen, ⟨-, rfl⟩ | ⟨-, rfl⟩⟩ := h.isOpen.feed_cases (p := p) x
  · have hlength := length_slots_push (p := p) x e
    have hcapacity := capacity_push (p := p) h.room hn x
    have hle := le_oversize hn p.slotWidth
    have hroom := h.room
    have hroomy : Roomy (push p x e) := by
      refine ⟨hopen, ?_⟩
      rw [hlength, hcapacity]
      split <;> omega
    refine ⟨_, heq, hroomy, Nat.le_of_eq hlength, fun _ => ?_, hsavings⟩
    rw [hopen.buffered_eq, h.isOpen.buffered_eq]
    exact ⟨hlength, hcapacity⟩
  · refine ⟨_, heq, ⟨hopen, Nat.le_refl 0⟩, Nat.zero_le _, fun hruns => ?_, ?_⟩
    · exact absurd (List.append_right_eq_self.mp hruns) (List.cons_ne_nil _ [])
    · have hnothing : savings (spill (sorted p (push p x e))) = 0 := rfl
      omega

/-- Feeding any number of items copies no more than was put by before, but for nine for each. -/
theorem feedAll (h : Roomy e) (items : List α)
    (hn : e.buffer.slots.length + items.length < wordLimit) :
    ∃ e', Engine.feedAll p items e = ⟨e', .ok (), []⟩ ∧ Roomy e' ∧
      e'.buffer.slots.length ≤ e.buffer.slots.length + items.length ∧
      copied p items e + savings e' ≤ savings e + 9 * items.length := by
  induction items generalizing e with
  | nil => exact ⟨e, rfl, h, Nat.le_refl _, by simp [copied]⟩
  | cons x items ih =>
    rw [List.length_cons] at hn ⊢
    obtain ⟨e₁, heq, h₁, hlength, -, hstep⟩ := h.feed (p := p) (by omega) x
    obtain ⟨e', hall, h', hlength', hrest⟩ := ih h₁ (by omega)
    refine ⟨e', ?_, h', by omega, ?_⟩
    · rw [feedAll_of_feed heq, hall]
    · rw [copied, heq]
      show moved p x e + copied p items e₁ + savings e' ≤ _
      omega

end Roomy

/-- Whatever is fed to a new engine, as long as a machine word can count it: there is always room for
what is buffered; the room changes only when an item is fed while there is none left, and then it is
as much as was asked for; and at most nine items are copied for each one that is fed, whether or not
anything is spilled in between. -/
theorem copied_le (p : Policy α) (memThresh : Nat) (itemCost : α → Nat) (items : List α)
    (countable : items.length < wordLimit) :
    (∀ fed x, fed ++ [x] <+: items → ∃ e e',
      feedAll p fed (new memThresh itemCost) = ⟨e, .ok (), []⟩ ∧ feed p x e = ⟨e', .ok (), []⟩ ∧
        e.buffered ≤ e.capacity ∧ e'.buffered ≤ e'.capacity ∧
        (e'.runs = e.runs → e'.buffered = e.buffered + 1 ∧ e'.capacity =
          if e.buffered = e.capacity then oversize (e.buffered + 1) p.slotWidth else e.capacity)) ∧
      copied p items (new memThresh itemCost) ≤ 9 * items.length := by
  have hnew := Roomy.new memThresh itemCost
  have hnone : (new memThresh itemCost).buffer.slots.length = 0 := rfl
  constructor
  · intro fed x hfed
    have hle := hfed.length_le
    rw [List.length_append, List.length_singleton] at hle
    obtain ⟨e, heq, h, hlength, -⟩ := hnew.feedAll (p := p) fed (by omega)
    obtain ⟨e', heq', h', -, hgrowth, -⟩ := h.feed (p := p) (by omega) x
    refine ⟨e, e', heq, heq', ?_, ?_, hgrowth⟩
    · exact h.isOpen.buffered_eq ▸ h.room
    · exact h'.isOpen.buffered_eq ▸ h'.room
  · obtain ⟨e, -, -, -, hcopied⟩ := hnew.feedAll (p := p) items (by omega)
    have hstart : savings (new memThresh itemCost) = 0 := rfl
    omega

/-- The first item gets room for four, the fifth finds it full, and the four before it are copied to
room for eight.  The sixth spills them all, so the seventh has nothing to copy. -/
theorem copied_le_seven :
    copied ⟨compare, 8, []⟩ [7, 6, 5, 4, 3, 2, 1] (new 6 fun _ : Nat => 1) = 4 ∧
      copied ⟨compare, 8, []⟩ [7, 6, 5, 4, 3, 2, 1] (new 6 fun _ : Nat => 1) ≤ 9 * 7 ∧
      ∃ e e', feedAll ⟨compare, 8, []⟩ [7, 6, 5, 4] (new 6 fun _ : Nat => 1) = ⟨e, .ok (), []⟩ ∧
        feed ⟨compare, 8, []⟩ 3 e = ⟨e', .ok (), []⟩ ∧ e'.runs = e.runs ∧
        e.buffered = 4 ∧ e.capacity = 4 ∧ e'.buffered = 5 ∧ e'.capacity = 8 := by
  obtain ⟨hfed, hcopied⟩ := copied_le (⟨compare, 8, []⟩ : Policy Nat) 6 (fun _ => 1)
    [7, 6, 5, 4, 3, 2, 1] (by decide)
  obtain ⟨e, e', heq, heq', -, -, hgrowth⟩ := hfed [7, 6, 5, 4] 3 ⟨[2, 1], rfl⟩
  obtain rfl : (feedAll _ [7, 6, 5, 4] (new 6 fun _ => 1)).state = e := congrArg Outcome.state heq
  obtain rfl : (feed _ 3 _).state = e' := congrArg Outcome.state heq'
  have hnone : (feedAll ⟨compare, 8, []⟩ [7, 6, 5, 4] (new 6 fun _ : Nat => 1)).state.runs = [] :=
    List.eq_nil_of_length_eq_zero (by decide +kernel)
  have hruns : (feed ⟨compare, 8, []⟩ 3 (feedAll ⟨compare, 8, []⟩ [7, 6, 5, 4]
      (new 6 fun _ : Nat => 1)).state).state.runs = [] :=
    List.eq_nil_of_length_eq_zero (by decide +kernel)
  obtain ⟨hbuffered, hcapacity⟩ := hgrowth (hruns.trans hnone.symm)
  exact ⟨by decide +kernel, hcopied, _, _, heq, heq', hruns.trans hnone.symm, by decide +kernel,
    by decide +kernel, hbuffered.trans (by decide +kernel), hcapacity.trans (by decide +kernel)⟩

end Engine

end ObjectSystem.Sorting
