import Mathlib.Algebra.Order.Group.Nat
import Mathlib.Data.List.DropRight
import ObjectSystem.Proofs.Sorting.Phases

/-! # What the buffer costs

Every item that is fed is charged with the cost function that is in force then, and the buffer is
spilled when what was charged for it reaches the threshold that is in force then.  The account is a
machine word, so what it says is the sum of the charges up to multiples of `wordLimit`.  A `Bill` is
kept from the calls alone: it never looks at an engine.  `Accounted e b` says that the engine agrees
with the bill, which is to say that what it has accounted for is the sum of the last entries, one
for each item that it has buffered.

Each call that may come before reading preserves this (`Accounted.perform`), so it holds after any
number of them (`Accounted.after`).  If threshold and cost are never changed, the runs are the
greedy segments of what was fed (`after_feeds`); and if the threshold and any cost fit into a word
together, no account ever wraps around (`Segmented.exact`).  `memory_accounted` is the whole. -/

namespace ObjectSystem.Sorting.Engine

variable {α : Type} {p : Policy α} {e e' : Engine α}

/-- Whether the call is one of those that come before reading. -/
def Call.isFeeding : Call α → Bool
  | feed _ | sortBuffer | flush | clearBuffer | growBuffer _ | shrink | addRun _
  | setMemThresh _ | setItemCost _ => true
  | flip | fetch | peek | refill => false

/-- The threshold and the cost in force, and every item that was fed with what it was charged. -/
structure Bill (α : Type) where
  memThresh : Nat
  itemCost : α → Nat
  charged : List (α × Nat) := []

namespace Bill

/-- The bill after a call. -/
def enter (b : Bill α) : Call α → Bill α
  | .feed x => { b with charged := b.charged ++ [(x, b.itemCost x)] }
  | .setMemThresh bytes => { b with memThresh := bytes }
  | .setItemCost cost => { b with itemCost := cost }
  | _ => b

/-- The last `n` entries. -/
def last (b : Bill α) (n : Nat) : List (α × Nat) := b.charged.rtake n

theorem last_zero (b : Bill α) : b.last 0 = [] := List.rtake_zero _

theorem last_feed (b : Bill α) (x : α) (n : Nat) :
    (b.enter (.feed x)).last (n + 1) = b.last n ++ [(x, b.itemCost x)] :=
  List.rtake_concat_succ _ _ _

end Bill

/-! ### What items cost -/

/-- What some items cost. -/
def price (itemCost : α → Nat) (items : List α) : Nat := (items.map itemCost).sum

/-- What a machine word makes of that. -/
def account (itemCost : α → Nat) (items : List α) : Nat := price itemCost items % wordLimit

/-- The threshold and the cost of any of the items fit into a word together. -/
def Fits (memThresh : Nat) (itemCost : α → Nat) (items : List α) : Prop :=
  ∀ x ∈ items, memThresh + itemCost x < wordLimit

/-- As many items from the front as one likes do not weigh as much as the threshold. -/
def Under (memThresh : Nat) (weigh : List α → Nat) (items : List α) : Prop :=
  ∀ n, 0 < n → n ≤ items.length → weigh (items.take n) < memThresh

section

variable {memThresh : Nat} {itemCost : α → Nat} {weigh : List α → Nat} {items : List α}

theorem price_append (itemCost : α → Nat) (items more : List α) :
    price itemCost (items ++ more) = price itemCost items + price itemCost more := by
  simp [price]

theorem price_singleton (itemCost : α → Nat) (x : α) : price itemCost [x] = itemCost x := by
  simp [price]

theorem charge_account (itemCost : α → Nat) (items : List α) (x : α) :
    charge (account itemCost items) (itemCost x) = account itemCost (items ++ [x]) := by
  rw [charge, account, account, price_append, price_singleton, Nat.mod_add_mod]

theorem under_nil : Under memThresh weigh [] := fun _ hpos hn => absurd hn (Nat.not_le.mpr hpos)

theorem under_concat {x : α} : Under memThresh weigh (items ++ [x]) ↔
    Under memThresh weigh items ∧ weigh (items ++ [x]) < memThresh := by
  have hall : (items ++ [x]).take (items.length + 1) = items ++ [x] :=
    List.take_of_length_le (by simp)
  constructor
  · intro h
    refine ⟨fun n hpos hn => ?_, ?_⟩
    · have hkept : (items ++ [x]).take n = items.take n := List.take_append_of_le_length hn
      rw [← hkept]
      exact h n hpos (by simp; omega)
    · rw [← hall]
      exact h _ (Nat.succ_pos _) (by simp)
  · rintro ⟨h, hlast⟩ n hpos hn
    by_cases hle : n ≤ items.length
    · rw [List.take_append_of_le_length hle]
      exact h n hpos hle
    · rw [List.length_append, List.length_singleton] at hn
      obtain rfl : n = items.length + 1 := by omega
      rwa [hall]

/-- The account is exact up to the item that makes it reach the threshold. -/
theorem account_take (hfits : Fits memThresh itemCost items) {n : Nat} (hn : n ≤ items.length)
    (hbefore : ∀ k, 0 < k → k < n → account itemCost (items.take k) < memThresh) :
    account itemCost (items.take n) = price itemCost (items.take n) := by
  induction n with
  | zero => rfl
  | succ n ih =>
    have hexact := ih (by omega) fun k hpos hk => hbefore k hpos (by omega)
    have hle : price itemCost (items.take n) ≤ memThresh := by
      rcases Nat.eq_zero_or_pos n with rfl | hpos
      · exact Nat.zero_le _
      · exact hexact ▸ Nat.le_of_lt (hbefore n hpos (Nat.lt_succ_self n))
    have hroom := hfits _ (List.getElem_mem hn)
    have hprice : price itemCost (items.take (n + 1)) =
        price itemCost (items.take n) + itemCost items[n] := by
      rw [List.take_add_one, List.getElem?_eq_getElem hn, price_append]
      exact congrArg _ (price_singleton itemCost _)
    exact Nat.mod_eq_of_lt (by omega)

theorem Under.exact (h : Under memThresh (account itemCost) items)
    (hfits : Fits memThresh itemCost items) : Under memThresh (price itemCost) items := by
  intro n hpos hn
  rw [← account_take hfits hn fun k hk hkn => h k hk (by omega)]
  exact h n hpos hn

theorem under_of_price_lt (h : price itemCost items < memThresh) :
    Under memThresh (account itemCost) items := by
  intro n _ _
  have hall := price_append itemCost (items.take n) (items.drop n)
  rw [List.take_append_drop] at hall
  have hle := Nat.mod_le (price itemCost (items.take n)) wordLimit
  exact Nat.lt_of_le_of_lt hle (by omega)

theorem under_iff_of_fits (hfits : Fits memThresh itemCost items) :
    Under memThresh (account itemCost) items ↔ items = [] ∨ price itemCost items < memThresh := by
  constructor
  · intro h
    rcases items.eq_nil_or_concat with hnil | ⟨_, _, hconcat⟩
    · exact .inl hnil
    · right
      have hall := h.exact hfits items.length (by simp [hconcat]) (Nat.le_refl _)
      rwa [List.take_length] at hall
  · rintro (rfl | hlt)
    · exact under_nil
    · exact under_of_price_lt hlt

end

/-! ### Feeding an item -/

/-- A run that was spilled from a buffer with these items. -/
structure SpilledFrom (p : Policy α) (items : List α) (run : Engine α) : Prop where
  live : run.live = items.mergeSort p.le
  runs : run.runs = []
  reader : run.reader = none
  flipped : run.flipped = true

/-- What becomes of an engine that an item is fed to: either it is spilled with that item, or the
item is buffered and the account stays below the threshold. -/
inductive AfterFeed (p : Policy α) (x : α) (e' e : Engine α) : Prop
  | spilled (run : Engine α) (full : e.memThresh ≤ charge e.memConsumed (e.itemCost x))
      (live : e'.live = []) (memConsumed : e'.memConsumed = 0) (runs : e'.runs = e.runs ++ [run])
      (spilled : SpilledFrom p (e.live ++ [x]) run)
  | buffered (room : charge e.memConsumed (e.itemCost x) < e.memThresh)
      (live : e'.live = e.live ++ [x])
      (memConsumed : e'.memConsumed = charge e.memConsumed (e.itemCost x)) (runs : e'.runs = e.runs)

/-- An engine that is being put together: it is not flipped, and was not read. -/
structure Open (e : Engine α) : Prop where
  coherent : Coherent e
  fetched : e.fetched = 0
  draining : e.draining = false
  flipped : e.flipped = false

theorem Open.of_same (h : Open e) (hc : Coherent e') (hs : SamePhase e' e) : Open e' :=
  ⟨hc, hs.fetched.trans h.fetched, hs.draining.trans h.draining, hs.flipped.trans h.flipped⟩

theorem Open.buffered_eq (h : Open e) : e.buffered = e.buffer.slots.length := by
  rw [Core.buffered, h.coherent.untouched h.fetched, Nat.sub_zero]

theorem length_slots_push (x : α) (e : Engine α) :
    (push p x e).buffer.slots.length = e.buffer.slots.length + 1 := by
  rw [slots_push, List.length_append, List.length_singleton]

/-- An item that is fed is put into the buffer.  If the account reaches the threshold by that, all
that is buffered is spilled, and otherwise nothing else is done. -/
theorem Open.feed_cases (h : Open e) (x : α) :
    ∃ e', Engine.feed p x e = ⟨e', .ok (), []⟩ ∧ Open e' ∧
      (charge e.memConsumed (e.itemCost x) < e.memThresh ∧ e' = push p x e ∨
        e.memThresh ≤ charge e.memConsumed (e.itemCost x) ∧
          e' = spill (sorted p (push p x e))) := by
  obtain ⟨e', heq, hc, hsame⟩ := h.coherent.feed_eq (p := p) h.fetched h.flipped x
  refine ⟨e', heq, h.of_same hc hsame, ?_⟩
  have ht := h.coherent.untouched h.fetched
  have hb : (push p x e).buffered ≠ 0 := by
    rw [(h.of_same (h.coherent.push h.fetched x) ⟨rfl, rfl, rfl⟩).buffered_eq, length_slots_push]
    omega
  rw [feed_of_open h.fetched h.flipped] at heq
  by_cases hfull : e.memThresh ≤ charge e.memConsumed (e.itemCost x)
  · rw [if_pos hfull, flush_of_untaken (e := push p x e) h.fetched ht hb] at heq
    exact .inr ⟨hfull, (congrArg Outcome.state heq).symm⟩
  · rw [if_neg hfull] at heq
    exact .inl ⟨Nat.not_le.mp hfull, (congrArg Outcome.state heq).symm⟩

theorem Open.feed (h : Open e) (x : α) :
    ∃ e', Engine.feed p x e = ⟨e', .ok (), []⟩ ∧ Open e' ∧ AfterFeed p x e' e ∧
      e'.memThresh = e.memThresh ∧ e'.itemCost = e.itemCost := by
  have ht := h.coherent.untouched h.fetched
  have hpush := h.coherent.push (p := p) h.fetched x
  have hlive : (push p x e).live = e.live ++ [x] := by
    refine Core.live_eq ?_
    show List.drop e.tick (push p x e).buffer.slots = _
    rw [ht, List.drop_zero, slots_push, h.coherent.intact.filled.slots_of_untouched ht,
      List.map_append]
    rfl
  obtain ⟨e', heq, hopen, ⟨hroom, rfl⟩ | ⟨hfull, rfl⟩⟩ := h.feed_cases (p := p) x
  · exact ⟨_, heq, hopen, .buffered hroom hlive rfl rfl, rfl, rfl⟩
  · refine ⟨_, heq, hopen, .spilled _ hfull rfl rfl rfl ⟨?_, rfl, rfl, rfl⟩, rfl, rfl⟩
    have hslots := slots_sorted p (hpush.intact.filled.slots_of_untouched ht)
    rw [hlive] at hslots
    exact Core.live_eq hslots

/-! ### Keeping the account -/

/-- The engine agrees with the bill: threshold and cost are those in force, and of what was charged
the last entries are the items that are buffered, with what is accounted for them. -/
structure Accounted (e : Engine α) (b : Bill α) : Prop where
  isOpen : Open e
  memThresh : e.memThresh = b.memThresh
  itemCost : e.itemCost = b.itemCost
  items : ((b.last e.live.length).map Prod.fst).Perm e.live
  memConsumed : e.memConsumed = account Prod.snd (b.last e.live.length)

namespace Accounted

variable {b : Bill α}

theorem new (memThresh : Nat) (itemCost : α → Nat) :
    Accounted (Engine.new memThresh itemCost) ⟨memThresh, itemCost, []⟩ := by
  have hcalled : Called (⟨fun _ _ => .eq, 0, []⟩ : Policy α) (Engine.new memThresh itemCost) []
      false := .new memThresh itemCost
  exact ⟨⟨hcalled.coherent.1, rfl, rfl, rfl⟩, rfl, rfl, .refl _, rfl⟩

theorem still (h : Accounted e b) (hc : Coherent e') (hs : SamePhase e' e)
    (hlive : e'.live.Perm e.live) (hm : e'.memConsumed = e.memConsumed)
    (ht : e'.memThresh = e.memThresh) (hi : e'.itemCost = e.itemCost) : Accounted e' b := by
  refine ⟨h.isOpen.of_same hc hs, ht.trans h.memThresh, hi.trans h.itemCost, ?_, ?_⟩
  · rw [hlive.length_eq]
    exact h.items.trans hlive.symm
  · rw [hlive.length_eq, hm]
    exact h.memConsumed

theorem cleared (h : Accounted e b) (hc : Coherent e') (hs : SamePhase e' e)
    (hlive : e'.live = []) (hm : e'.memConsumed = 0)
    (ht : e'.memThresh = e.memThresh) (hi : e'.itemCost = e.itemCost) : Accounted e' b := by
  refine ⟨h.isOpen.of_same hc hs, ht.trans h.memThresh, hi.trans h.itemCost, ?_, ?_⟩
  · rw [hlive, List.length_nil, b.last_zero]
    exact .refl _
  · rw [hlive, List.length_nil, b.last_zero, hm]
    rfl

theorem feed (h : Accounted e b) (x : α) :
    ∃ e', Engine.feed p x e = ⟨e', .ok (), []⟩ ∧ AfterFeed p x e' e ∧
      Accounted e' (b.enter (.feed x)) := by
  obtain ⟨e', heq, hopen, hfed, ht, hi⟩ := h.isOpen.feed (p := p) x
  refine ⟨e', heq, hfed, hopen, ht.trans h.memThresh, hi.trans h.itemCost, ?_, ?_⟩
  · cases hfed with
    | spilled _ _ live =>
      rw [live, List.length_nil, Bill.last_zero]
      exact .refl _
    | buffered _ live =>
      rw [live, List.length_append, List.length_singleton, b.last_feed, List.map_append]
      exact h.items.append_right _
  · cases hfed with
    | spilled _ _ live memConsumed =>
      rw [live, List.length_nil, Bill.last_zero, memConsumed]
      rfl
    | buffered _ live memConsumed =>
      rw [live, List.length_append, List.length_singleton, b.last_feed, ← charge_account,
        ← h.memConsumed, memConsumed, h.itemCost]

/-- No call that may come before reading is refused, and each preserves the account. -/
theorem perform (h : Accounted e b) {c : Call α} (hc : c.isFeeding)
    (hr : ∀ r, c.adopted = some r → Coherent r) :
    ∃ e', Engine.perform p c e = ⟨e', .ok none, []⟩ ∧ Accounted e' (b.enter c) := by
  obtain ⟨hcoherent, h0, hd, hf⟩ := h.isOpen
  have hsame : SamePhase e e := ⟨rfl, rfl, rfl⟩
  cases c with
  | feed x =>
    obtain ⟨e', heq, -, h'⟩ := h.feed (p := p) x
    exact ⟨e', Coherent.silent_ok heq, h'⟩
  | sortBuffer =>
    have hlive : (sorted p e).live = e.live.mergeSort p.le := by
      have ht := hcoherent.untouched h0
      refine Core.live_eq ?_
      show List.drop e.tick (sorted p e).buffer.slots = _
      rw [ht, List.drop_zero, slots_sorted p (hcoherent.intact.filled.slots_of_untouched ht)]
    refine ⟨_, Coherent.silent_ok (hcoherent.sortBuffer_eq h0),
      h.still (hcoherent.sorted h0) ⟨rfl, rfl, rfl⟩ ?_ rfl rfl rfl⟩
    rw [hlive]
    exact List.mergeSort_perm _ _
  | flush =>
    obtain ⟨e', heq, hc', hphase⟩ := hcoherent.flush_eq (p := p) (.inl h0)
    refine ⟨e', Coherent.silent_ok heq, ?_⟩
    by_cases hb : e.buffered = 0
    · rw [flush_of_empty hb] at heq
      obtain ⟨rfl, -, -⟩ := Outcome.mk.inj heq
      exact h.cleared hc' hphase rfl rfl rfl rfl
    · rw [flush_of_untaken h0 (hcoherent.untouched h0) hb] at heq
      obtain ⟨rfl, -, -⟩ := Outcome.mk.inj heq
      exact h.cleared hc' hphase rfl rfl rfl rfl
  | clearBuffer => exact ⟨_, rfl, h.cleared hcoherent.clear ⟨rfl, rfl, rfl⟩ rfl rfl rfl rfl⟩
  | growBuffer n =>
    have h' : Coherent { e with buffer := e.buffer.grow n } :=
      hcoherent.congr rfl rfl rfl rfl rfl rfl rfl
    exact ⟨_, rfl, h.still h' ⟨rfl, rfl, rfl⟩ (.refl _) rfl rfl rfl⟩
  | shrink =>
    obtain ⟨h', hphase⟩ := hcoherent.shrunk
    have hcore : (shrunk e).live = e.live ∧ (shrunk e).memConsumed = e.memConsumed ∧
        (shrunk e).memThresh = e.memThresh ∧ (shrunk e).itemCost = e.itemCost := by
      rcases e with ⟨core, runs⟩
      rw [shrunk]
      exact ⟨rfl, rfl, rfl, rfl⟩
    exact ⟨_, rfl, h.still h' hphase (.of_eq hcore.1) hcore.2.1 hcore.2.2.1 hcore.2.2.2⟩
  | setMemThresh bytes =>
    have h' : Coherent { e with memThresh := bytes } := hcoherent.congr rfl rfl rfl rfl rfl rfl rfl
    exact ⟨_, rfl, ⟨h', h0, hd, hf⟩, rfl, h.itemCost, h.items, h.memConsumed⟩
  | setItemCost cost =>
    have h' : Coherent { e with itemCost := cost } := hcoherent.congr rfl rfl rfl rfl rfl rfl rfl
    exact ⟨_, rfl, ⟨h', h0, hd, hf⟩, h.memThresh, rfl, h.items, h.memConsumed⟩
  | addRun r =>
    obtain ⟨r', hfreeze, hr'⟩ := (hr r rfl).freeze_eq (p := p)
    obtain ⟨e', heq, hc', hphase⟩ := hcoherent.addRun_eq (p := p) (hr r rfl) hd
    rw [addRun_of_unread (by simp [hd]) hfreeze] at heq
    obtain ⟨rfl, -, -⟩ := Outcome.mk.inj heq
    exact ⟨_, Coherent.silent_ok (addRun_of_unread (by simp [hd]) hfreeze),
      h.still hc' hphase (.refl _) rfl rfl rfl⟩
  | flip | fetch | peek | refill => cases hc

/-- Any number of calls that may come before reading preserve the account. -/
theorem after {cs : List (Call α)} (h : Accounted e b) (hcs : ∀ c ∈ cs, c.isFeeding)
    (hr : ∀ c ∈ cs, ∀ r, c.adopted = some r → Coherent r) :
    Accounted (Engine.after p cs e) (cs.foldl Bill.enter b) := by
  induction cs generalizing e b with
  | nil => exact h
  | cons c cs ih =>
    obtain ⟨hc, hcs⟩ := List.forall_mem_cons.mp hcs
    obtain ⟨hr, hrs⟩ := List.forall_mem_cons.mp hr
    obtain ⟨e', heq, h'⟩ := h.perform (p := p) hc hr
    rw [Engine.after, heq, List.foldl_cons]
    exact ih h' hcs hrs

end Accounted

/-! ### Greedy segments -/

/-- The items weigh as much as the threshold, and fewer of them from the front do not. -/
structure Fills (memThresh : Nat) (weigh : List α → Nat) (items : List α) : Prop where
  nonempty : items ≠ []
  reaches : memThresh ≤ weigh items
  before : ∀ n, 0 < n → n < items.length → weigh (items.take n) < memThresh

/-- What was fed is cut into segments, each of which ends with the first item that makes it reach the
threshold.  Every segment is a run, and what was fed after the last of them is buffered as it
was fed. -/
structure Segmented (p : Policy α) (memThresh : Nat) (weigh : List α → Nat) (e : Engine α)
    (fed : List α) (segments : List (List α)) (rest : List α) : Prop where
  fed_eq : fed = segments.flatten ++ rest
  fills : ∀ s ∈ segments, Fills memThresh weigh s
  under : Under memThresh weigh rest
  runs : List.Forall₂ (SpilledFrom p) segments e.runs
  live : e.live = rest

theorem after_append (cs ds : List (Call α)) (e : Engine α) :
    after p (cs ++ ds) e = after p ds (after p cs e) := by
  induction cs generalizing e with
  | nil => rfl
  | cons c cs ih => exact ih _

section

variable {memThresh : Nat} {itemCost : α → Nat} {weigh : List α → Nat} {items fed rest : List α}
  {segments : List (List α)}

theorem Under.fills {x : α} (h : Under memThresh weigh rest)
    (hfull : memThresh ≤ weigh (rest ++ [x])) : Fills memThresh weigh (rest ++ [x]) := by
  refine ⟨by simp, hfull, fun n hpos hn => ?_⟩
  rw [List.length_append, List.length_singleton] at hn
  rw [List.take_append_of_le_length (by omega)]
  exact h n hpos (by omega)

theorem Fills.exact (h : Fills memThresh (account itemCost) items)
    (hfits : Fits memThresh itemCost items) : Fills memThresh (price itemCost) items := by
  refine ⟨h.nonempty, ?_, fun n hpos hn => ?_⟩
  · have hall := account_take hfits (Nat.le_refl _) h.before
    rw [List.take_length] at hall
    exact hall ▸ h.reaches
  · rw [← account_take hfits (Nat.le_of_lt hn) fun k hk hkn => h.before k hk (by omega)]
    exact h.before n hpos hn

/-- If no account wraps around, the segments are those of the sums. -/
theorem Segmented.exact (h : Segmented p memThresh (account itemCost) e fed segments rest)
    (hfits : Fits memThresh itemCost fed) :
    Segmented p memThresh (price itemCost) e fed segments rest := by
  have hrest : Fits memThresh itemCost rest := fun x hx =>
    hfits x (h.fed_eq ▸ List.mem_append_right _ hx)
  refine ⟨h.fed_eq, fun s hs => (h.fills s hs).exact fun x hx => ?_, h.under.exact hrest, h.runs,
    h.live⟩
  exact hfits x (h.fed_eq ▸ List.mem_append_left _ (List.mem_flatten_of_mem hs hx))

/-- An item is fed to the engine: it ends a segment, or it is one more of the rest. -/
theorem Segmented.feed {x : α} (h : Segmented p memThresh (account itemCost) e fed segments rest)
    (hm : e.memConsumed = account itemCost rest) (ht : e.memThresh = memThresh)
    (hi : e.itemCost = itemCost) (hfed : AfterFeed p x e' e) :
    ∃ segments' rest', Segmented p memThresh (account itemCost) e' (fed ++ [x]) segments' rest' ∧
      e'.memConsumed = account itemCost rest' := by
  obtain ⟨rfl, hfills, hunder, hruns, rfl⟩ := h
  cases hfed with
  | spilled run full live memConsumed runs spilled =>
    rw [ht, hm, hi, charge_account] at full
    refine ⟨segments ++ [e.live ++ [x]], [], ⟨by simp, ?_, under_nil, ?_, live⟩, memConsumed⟩
    · intro s hs
      rcases List.mem_append.mp hs with hs | hs
      · exact hfills s hs
      · rw [List.mem_singleton.mp hs]
        exact hunder.fills full
    · rw [runs]
      exact List.rel_append hruns (.cons spilled .nil)
  | buffered room live memConsumed runs =>
    rw [ht, hm, hi, charge_account] at room
    refine ⟨segments, e.live ++ [x],
      ⟨by simp, hfills, under_concat.mpr ⟨hunder, room⟩, runs ▸ hruns, live⟩, ?_⟩
    rw [memConsumed, hm, hi, charge_account]

end

/-- With one threshold and one cost throughout, the runs are the greedy segments of what was fed. -/
theorem after_feeds (memThresh : Nat) (itemCost : α → Nat) (fed : List α) :
    ∃ segments rest, Segmented p memThresh (account itemCost)
      (after p (fed.map .feed) (new memThresh itemCost)) fed segments rest := by
  suffices h : ∃ segments rest b, Segmented p memThresh (account itemCost)
      (after p (fed.map .feed) (new memThresh itemCost)) fed segments rest ∧
      (after p (fed.map .feed) (new memThresh itemCost)).memConsumed = account itemCost rest ∧
      Accounted (after p (fed.map .feed) (new memThresh itemCost)) b ∧
      b.memThresh = memThresh ∧ b.itemCost = itemCost by
    obtain ⟨segments, rest, -, h, -⟩ := h
    exact ⟨segments, rest, h⟩
  induction fed using List.reverseRecOn with
  | nil =>
    refine ⟨[], [], _, ⟨rfl, ?_, under_nil, .nil, rfl⟩, rfl, .new memThresh itemCost, rfl, rfl⟩
    exact fun s hs => absurd hs List.not_mem_nil
  | append_singleton fed x ih =>
    obtain ⟨segments, rest, b, hseg, hm, hacc, ht, hi⟩ := ih
    obtain ⟨e', heq, hfed, hacc'⟩ := hacc.feed (p := p) x
    have hafter : after p ((fed ++ [x]).map .feed) (new memThresh itemCost) = e' := by
      rw [List.map_append, after_append]
      exact congrArg Outcome.state (Coherent.silent_ok heq)
    obtain ⟨segments', rest', hseg', hm'⟩ :=
      hseg.feed hm (hacc.memThresh.trans ht) (hacc.itemCost.trans hi) hfed
    rw [hafter]
    exact ⟨segments', rest', _, hseg', hm', hacc', ht, hi⟩

/-! ### The whole -/

/-- Whatever is called before reading, what is accounted for is what was charged for the items that
are buffered, as a machine word, and so the sum of it if that fits into a word.  Feeding one more is
not refused: it spills the buffer with that item, or leaves the account below the threshold.  And
with one threshold and one cost throughout, the runs are the greedy segments of what was fed, each
sorted, by accounts, and by sums if the threshold and any cost fit into a word together. -/
theorem memory_accounted (memThresh : Nat) (itemCost : α → Nat) :
    (∀ cs : List (Call α), (∀ c ∈ cs, c.isFeeding) →
      (∀ c ∈ cs, ∀ r, c.adopted = some r → ∃ taken read, Called p r taken read) →
      let e := after p cs (new memThresh itemCost)
      let b := cs.foldl Bill.enter ⟨memThresh, itemCost, []⟩
      let charges := (b.last e.live.length).map Prod.snd
      ((b.last e.live.length).map Prod.fst).Perm e.live ∧
        e.memConsumed = charges.sum % wordLimit ∧
        (charges.sum < wordLimit → e.memConsumed = charges.sum) ∧
        (∀ c : Call α, c.isFeeding →
          (∀ r, c.adopted = some r → ∃ taken read, Called p r taken read) →
          (perform p c e).answer = .ok none) ∧
        ∀ x, let e' := (perform p (.feed x) e).state
          (b.memThresh ≤ charge e.memConsumed (b.itemCost x) ∧ e'.live = [] ∧
            ∃ run, SpilledFrom p (e.live ++ [x]) run ∧ e'.runs = e.runs ++ [run]) ∨
          (e'.live = e.live ++ [x] ∧ e'.runs = e.runs ∧ e'.memConsumed < b.memThresh)) ∧
    ∀ fed : List α, ∃ segments rest,
      let e := after p (fed.map .feed) (new memThresh itemCost)
      Segmented p memThresh (account itemCost) e fed segments rest ∧
        (Fits memThresh itemCost fed →
          Segmented p memThresh (price itemCost) e fed segments rest) := by
  refine ⟨fun cs hcs hruns => ?_, fun fed => ?_⟩
  · have h : Accounted (after p cs (new memThresh itemCost)) (cs.foldl Bill.enter _) :=
      (Accounted.new memThresh itemCost).after hcs fun c hc r hr =>
        have ⟨_, _, hcalled⟩ := hruns c hc r hr
        hcalled.coherent.1
    refine ⟨h.items, h.memConsumed, fun hfit => h.memConsumed.trans (Nat.mod_eq_of_lt hfit),
      fun c hc hrun => ?_, fun x => ?_⟩
    · obtain ⟨e', heq, -⟩ := h.perform (p := p) hc fun r hr =>
        have ⟨_, _, hcalled⟩ := hrun r hr
        hcalled.coherent.1
      rw [heq]
    · obtain ⟨e', heq, hfed, -⟩ := h.feed (p := p) x
      obtain rfl : (perform p (.feed x) _).state = e' :=
        congrArg Outcome.state (Coherent.silent_ok heq)
      rw [← h.memThresh, ← h.itemCost]
      cases hfed with
      | spilled run full live _ runs spilled => exact .inl ⟨full, live, run, spilled, runs⟩
      | buffered room live memConsumed runs => exact .inr ⟨live, runs, memConsumed ▸ room⟩
  · obtain ⟨segments, rest, h⟩ := after_feeds (p := p) memThresh itemCost fed
    exact ⟨segments, rest, h, h.exact⟩

/-- Two is charged one, and four is charged four, since the cost was changed in between.  Five is
accounted for, and three more reach the threshold.  Of items that cost themselves, with a threshold
of eight, the first three are a run. -/
theorem memory_accounted_repriced :
    (let e := after ⟨compare, 8, []⟩ [.feed 2, .setItemCost id, .growBuffer 9, .feed 4,
        .addRun (fromSorted 1 id [5, 6]), .shrink] (new 8 fun _ => 1)
     e.live = [2, 4] ∧ e.memConsumed = 5 ∧ ∃ run, SpilledFrom ⟨compare, 8, []⟩ [2, 4, 3] run ∧
       (perform ⟨compare, 8, []⟩ (.feed 3) e).state.runs = e.runs ++ [run]) ∧
    ∃ segments rest, Segmented ⟨compare, 8, []⟩ 8 (price id)
      (after ⟨compare, 8, []⟩ ([2, 4, 3, 1].map .feed) (new 8 id)) [2, 4, 3, 1] segments rest := by
  constructor
  · intro e
    have adopted : Called (⟨compare, 8, []⟩ : Policy Nat) _ [] false := .fromSorted 1 id [5, 6]
    obtain ⟨-, -, hm, -, hfeed⟩ := (memory_accounted 8 fun _ => 1).1 [.feed 2, .setItemCost id,
      .growBuffer 9, .feed 4, .addRun (fromSorted 1 id [5, 6]), .shrink]
      (by simp [Call.isFeeding]) (by simpa [Call.adopted, -Bool.exists_bool] using ⟨_, _, adopted⟩)
    refine ⟨rfl, hm (by decide), ?_⟩
    obtain ⟨-, -, run, hrun, hruns⟩ | ⟨hlive, -⟩ := hfeed 3
    · exact ⟨run, hrun, hruns⟩
    · exact absurd hlive (by decide)
  · obtain ⟨segments, rest, -, hexact⟩ := (memory_accounted 8 id).2 [2, 4, 3, 1]
    exact ⟨segments, rest, hexact (by simp [Fits, wordLimit, UInt64.size])⟩

end ObjectSystem.Sorting.Engine
