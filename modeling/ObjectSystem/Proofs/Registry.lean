import Mathlib.Data.List.Nodup
import Mathlib.Data.Nat.Find
import ObjectSystem.Registry

/-! # Registries as maps

A registry answers as a list of bindings would, the accepted ones in the order in which they came
in: a name can be bound when the list does not have it and has room, and it is found with the value
it was first bound to.  Where the bindings stand in the table cannot be told from the answers.

`Represents r bound` says that the table of `r` holds the bindings `bound`.  What makes the search
find them is that between the slot that the hash of a name points to and the slot of its binding
there is no empty one (`Represents.reached`). -/

namespace ObjectSystem.Registry

variable {V : Type} {r : Registry V} {key : String}

/-! ### The search -/

/-- The slot that is met after `steps` others in the search for `key` has a binding. -/
def Occupied (r : Registry V) (key : String) (steps : Nat) : Prop :=
  ∃ b, r.slots[r.slotAt key steps]? = some (some b)

/-- The search for `key` goes on past the slot that it meets after `steps` others. -/
def Passes (r : Registry V) (key : String) (steps : Nat) : Prop :=
  ∃ b, r.slots[r.slotAt key steps]? = some (some b) ∧ b.key ≠ key

theorem Passes.occupied {steps : Nat} (h : r.Passes key steps) : r.Occupied key steps :=
  h.imp fun _ hb => hb.1

theorem slotAt_lt (h : 0 < r.capacity) (key : String) (steps : Nat) :
    r.slotAt key steps < r.capacity :=
  Nat.mod_lt _ h

theorem exists_slotAt_eq {slot : Nat} (h : slot < r.capacity) (key : String) :
    ∃ steps < r.capacity, r.slotAt key steps = slot := by
  have hpos : 0 < r.capacity := by omega
  have hq : r.hash key % r.capacity < r.capacity := Nat.mod_lt _ hpos
  refine ⟨(slot + (r.capacity - r.hash key % r.capacity)) % r.capacity, Nat.mod_lt _ hpos, ?_⟩
  have hsum : r.hash key % r.capacity + (slot + (r.capacity - r.hash key % r.capacity)) =
      slot + r.capacity := by omega
  rw [slotAt, Nat.add_mod_mod, ← Nat.mod_add_mod, hsum, Nat.add_mod_right, Nat.mod_eq_of_lt h]

theorem probeFrom_sub {steps : Nat} (h : steps < r.capacity) :
    r.probeFrom key (r.capacity - steps) =
      match r.slots[r.slotAt key steps]? with
      | some (some b) =>
        if b.key = key then .bound b.value else r.probeFrom key (r.capacity - (steps + 1))
      | _ => .vacant (r.slotAt key steps) := by
  have hleft : r.capacity - steps = r.capacity - (steps + 1) + 1 := by omega
  have hsteps : r.capacity - (r.capacity - (steps + 1) + 1) = steps := by omega
  have hround := probeFrom.eq_2 r key (r.capacity - (steps + 1))
  rw [hsteps] at hround
  rw [hleft]
  exact hround

theorem probe_eq_probeFrom {steps : Nat} (hsteps : steps ≤ r.capacity)
    (h : ∀ s < steps, r.Passes key s) : r.probe key = r.probeFrom key (r.capacity - steps) := by
  induction steps with
  | zero => rfl
  | succ steps ih =>
    obtain ⟨b, hb, hne⟩ := h steps (by omega)
    rw [ih (by omega) fun s hs => h s (by omega), probeFrom_sub (by omega), hb]
    simp only [if_neg hne]

theorem probe_eq_full (h : ∀ s < r.capacity, r.Passes key s) : r.probe key = .full := by
  rw [probe_eq_probeFrom (le_refl _) h, Nat.sub_self, probeFrom]

theorem probe_eq_bound {steps : Nat} {b : Binding V} (hsteps : steps < r.capacity)
    (h : ∀ s < steps, r.Passes key s) (hb : r.slots[r.slotAt key steps]? = some (some b))
    (hkey : b.key = key) : r.probe key = .bound b.value := by
  rw [probe_eq_probeFrom (Nat.le_of_lt hsteps) h, probeFrom_sub hsteps, hb]
  simp only [if_pos hkey]

theorem probe_eq_vacant {steps : Nat} (hsteps : steps < r.capacity)
    (h : ∀ s < steps, r.Passes key s) (hnone : r.slots[r.slotAt key steps]? = some none) :
    r.probe key = .vacant (r.slotAt key steps) := by
  rw [probe_eq_probeFrom (Nat.le_of_lt hsteps) h, probeFrom_sub hsteps, hnone]

/-! ### What a table holds -/

/-- The bindings in a table, in the order of their slots. -/
def bindings (r : Registry V) : List (Binding V) := r.slots.toList.filterMap id

theorem keys_eq (r : Registry V) : r.keys = r.bindings.map Binding.key := by
  rw [keys, bindings, List.map_filterMap]
  rfl

theorem mem_bindings {b : Binding V} :
    b ∈ r.bindings ↔ ∃ slot : Nat, r.slots[slot]? = some (some b) := by
  rw [bindings, List.mem_filterMap]
  simp only [id, exists_eq_right, List.mem_iff_getElem?, Array.getElem?_toList]

theorem exists_of_probeFrom {v : V} {left : Nat} (h : r.probeFrom key left = .bound v) :
    ∃ b ∈ r.bindings, b.value = v := by
  induction left with
  | zero => cases h
  | succ left ih =>
    rw [probeFrom] at h
    rcases hslot : r.slots[r.slotAt key (r.capacity - (left + 1))]? with _ | (_ | b)
    · simp [hslot] at h
    · simp [hslot] at h
    · by_cases hkey : b.key = key
      · simp only [hslot, if_pos hkey, Probe.bound.injEq] at h
        exact ⟨b, mem_bindings.2 ⟨_, hslot⟩, h⟩
      · simp only [hslot, if_neg hkey] at h
        exact ih h

theorem exists_of_fetch {v : V} (h : r.fetch key = some v) : ∃ b ∈ r.bindings, b.value = v := by
  unfold fetch at h
  cases hprobe : r.probe key with
  | bound v' =>
    rw [hprobe] at h
    exact exists_of_probeFrom (hprobe.trans (congrArg Probe.bound (Option.some.inj h)))
  | vacant slot => rw [hprobe] at h; cases h
  | full => rw [hprobe] at h; cases h

/-- Registering adds no value but the given one to the table, and only if it says so. -/
theorem mem_bindings_of_register {value : V} {b : Binding V}
    (h : b ∈ (register key value r).state.bindings) :
    b ∈ r.bindings ∨ (register key value r).answer = .ok true ∧ b.value = value := by
  unfold register at h ⊢
  cases hprobe : r.probe key with
  | bound v => rw [hprobe] at h; exact .inl h
  | full => rw [hprobe] at h; exact .inl h
  | vacant slot =>
    rw [hprobe] at h
    obtain ⟨i, hi⟩ := mem_bindings.1 h
    rw [Array.getElem?_setIfInBounds] at hi
    by_cases hslot : slot = i
    · rw [if_pos hslot] at hi
      split at hi
      · exact .inr ⟨rfl, congrArg Binding.value (Option.some.inj (Option.some.inj hi)).symm⟩
      · cases hi
    · rw [if_neg hslot] at hi
      exact .inl (mem_bindings.2 ⟨i, hi⟩)

theorem length_bindings_eq_iff :
    r.bindings.length = r.capacity ↔ ∀ slot < r.capacity, ∃ b, r.slots[slot]? = some (some b) := by
  rw [bindings, capacity, ← Array.length_toList, List.filterMap_length_eq_length]
  constructor
  · intro h slot hslot
    obtain ⟨b, hb⟩ := Option.isSome_iff_exists.1 (h _ (List.getElem_mem hslot))
    refine ⟨b, ?_⟩
    rw [← Array.getElem?_toList, List.getElem?_eq_getElem hslot]
    exact congrArg some hb
  · intro h o ho
    obtain ⟨slot, hslot, rfl⟩ := List.getElem_of_mem ho
    obtain ⟨b, hb⟩ := h slot hslot
    rw [← Array.getElem?_toList, List.getElem?_eq_getElem hslot] at hb
    exact Option.isSome_iff_exists.2 ⟨b, Option.some.inj hb⟩

theorem length_bindings_le (r : Registry V) : r.bindings.length ≤ r.capacity := by
  rw [bindings, capacity, ← Array.length_toList]
  exact List.length_filterMap_le _ _

/-- The table with a binding in a slot. -/
def place (r : Registry V) (slot : Nat) (b : Binding V) : Registry V :=
  { r with slots := r.slots.setIfInBounds slot (some b), size := r.size + 1 }

@[simp] theorem capacity_place (r : Registry V) (slot : Nat) (b : Binding V) :
    (r.place slot b).capacity = r.capacity :=
  Array.size_setIfInBounds

@[simp] theorem slotAt_place (r : Registry V) (slot : Nat) (b : Binding V) (key : String)
    (steps : Nat) : (r.place slot b).slotAt key steps = r.slotAt key steps := by
  rw [slotAt, slotAt, capacity_place]
  rfl

theorem slots_place {slot : Nat} (h : slot < r.capacity) (b : Binding V) (i : Nat) :
    (r.place slot b).slots[i]? = if slot = i then some (some b) else r.slots[i]? := by
  show (r.slots.setIfInBounds slot (some b))[i]? = _
  rw [Array.getElem?_setIfInBounds]
  by_cases hi : slot = i
  · simp only [if_pos hi]
    exact if_pos (hi ▸ h)
  · simp only [if_neg hi]

theorem Occupied.place {slot steps : Nat} (h : slot < r.capacity) (b : Binding V)
    (ho : r.Occupied key steps) : (r.place slot b).Occupied key steps := by
  obtain ⟨b', hb'⟩ := ho
  rw [Occupied, slotAt_place, slots_place h]
  by_cases hi : slot = r.slotAt key steps
  · exact ⟨b, if_pos hi⟩
  · exact ⟨b', (if_neg hi).trans hb'⟩

theorem bindings_place {slot : Nat} (h : r.slots[slot]? = some none) (b : Binding V) :
    (r.place slot b).bindings.Perm (b :: r.bindings) := by
  rw [← Array.getElem?_toList] at h
  obtain ⟨hslot, hnone⟩ := List.getElem?_eq_some_iff.1 h
  have hset : (r.place slot b).slots.toList = r.slots.toList.set slot (some b) :=
    Array.toList_setIfInBounds
  have hsplit : r.slots.toList =
      r.slots.toList.take slot ++ none :: r.slots.toList.drop (slot + 1) := by
    rw [← hnone, List.getElem_cons_drop, List.take_append_drop]
  have hold : r.bindings = (r.slots.toList.take slot).filterMap id ++
      (r.slots.toList.drop (slot + 1)).filterMap id := by
    rw [bindings, congrArg (List.filterMap id) hsplit, List.filterMap_append]
    rfl
  rw [bindings, hset, List.set_eq_take_append_cons_drop, if_pos hslot, List.filterMap_append, hold]
  exact List.perm_middle

/-! ### Tables and maps -/

/-- The table of `r` holds `bound`, and a search finds each of these bindings: from the slot that
its hash points to, it is reached over slots that are not empty. -/
structure Represents (r : Registry V) (bound : List (Binding V)) : Prop where
  capacity_pos : 0 < r.capacity
  distinct : (bound.map Binding.key).Nodup
  holds : r.bindings.Perm bound
  size_eq : r.size = bound.length
  reached : ∀ (slot : Nat) b, r.slots[slot]? = some (some b) →
    ∃ steps < r.capacity, r.slotAt b.key steps = slot ∧ ∀ s < steps, r.Occupied b.key s

namespace Represents

variable {bound : List (Binding V)} {b : Binding V} {value : V}

theorem new (hash : String → Nat) (requested : Nat) :
    Represents (Registry.new hash requested : Registry V) [] where
  capacity_pos := by
    rw [capacity_new, capacityFor]
    exact Nat.pos_of_isPowerOfTwo (Nat.isPowerOfTwo_nextPowerOfTwo _)
  distinct := List.nodup_nil
  holds := by
    simp [bindings, Registry.new]
  size_eq := rfl
  reached slot b h := by
    rw [Registry.new, Array.getElem?_replicate] at h
    split at h <;> cases h

theorem mem_iff (h : Represents r bound) :
    b ∈ bound ↔ ∃ slot : Nat, r.slots[slot]? = some (some b) := by
  rw [← h.holds.mem_iff, mem_bindings]

theorem eq_of_key_eq (h : Represents r bound) {b b' : Binding V} (hb : b ∈ bound)
    (hb' : b' ∈ bound) (hkey : b.key = b'.key) : b = b' :=
  List.inj_on_of_nodup_map h.distinct hb hb' hkey

theorem length_le (h : Represents r bound) : bound.length ≤ r.capacity :=
  h.holds.length_eq ▸ r.length_bindings_le

theorem probe_bound (h : Represents r bound) (hb : b ∈ bound) : r.probe b.key = .bound b.value := by
  classical
  obtain ⟨slot, hslot⟩ := h.mem_iff.1 hb
  obtain ⟨steps, hlt, hat, hocc⟩ := h.reached slot b hslot
  have hex : ∃ s, ∃ b', r.slots[r.slotAt b.key s]? = some (some b') ∧ b'.key = b.key :=
    ⟨steps, b, hat ▸ hslot, rfl⟩
  have hfirst : Nat.find hex ≤ steps := Nat.find_min' hex ⟨b, hat ▸ hslot, rfl⟩
  obtain ⟨b', hb', hkey⟩ := Nat.find_spec hex
  have hpass : ∀ s < Nat.find hex, r.Passes b.key s := by
    intro s hs
    obtain ⟨b₀, hb₀⟩ := hocc s (by omega)
    exact ⟨b₀, hb₀, fun heq => Nat.find_min hex hs ⟨b₀, hb₀, heq⟩⟩
  have hsame : b' = b := h.eq_of_key_eq (h.mem_iff.2 ⟨_, hb'⟩) hb hkey
  rw [probe_eq_bound (by omega) hpass hb' hkey, hsame]

/-- The search for a name that is not bound ends at the first empty slot that it meets, if there
is an empty one at all. -/
theorem probe_unbound (h : Represents r bound) (hkey : key ∉ bound.map Binding.key) :
    (bound.length < r.capacity ∧ ∃ steps < r.capacity,
      r.slots[r.slotAt key steps]? = some none ∧ (∀ s < steps, r.Occupied key s) ∧
      r.probe key = .vacant (r.slotAt key steps)) ∨
    (bound.length = r.capacity ∧ r.probe key = .full) := by
  classical
  have hother : ∀ (slot : Nat) b, r.slots[slot]? = some (some b) → b.key ≠ key :=
    fun slot b hb heq => hkey (List.mem_map.2 ⟨b, h.mem_iff.2 ⟨slot, hb⟩, heq⟩)
  by_cases hall : ∀ s < r.capacity, r.Passes key s
  · refine .inr ⟨?_, probe_eq_full hall⟩
    rw [← h.holds.length_eq, length_bindings_eq_iff]
    intro slot hslot
    obtain ⟨steps, hsteps, rfl⟩ := exists_slotAt_eq hslot key
    exact (hall steps hsteps).occupied
  · have hex : ∃ s, s < r.capacity ∧ ¬ r.Passes key s := by
      simpa only [not_forall, exists_prop] using hall
    obtain ⟨hlt, hstop⟩ := Nat.find_spec hex
    have hpass : ∀ s < Nat.find hex, r.Passes key s := fun s hs =>
      Classical.not_not.1 fun hn => Nat.find_min hex hs ⟨by omega, hn⟩
    have hslot := slotAt_lt h.capacity_pos key (Nat.find hex)
    have hnone : r.slots[r.slotAt key (Nat.find hex)]? = some none := by
      rcases ho : r.slots[r.slotAt key (Nat.find hex)]? with _ | (_ | b)
      · exact absurd (Array.getElem?_eq_none_iff.1 ho) (Nat.not_le.2 hslot)
      · rfl
      · exact absurd ⟨b, ho, hother _ b ho⟩ hstop
    refine .inl ⟨?_, Nat.find hex, hlt, hnone, fun s hs => (hpass s hs).occupied,
      probe_eq_vacant hlt hpass hnone⟩
    refine Nat.lt_of_le_of_ne h.length_le fun heq => ?_
    rw [← h.holds.length_eq, length_bindings_eq_iff] at heq
    obtain ⟨b, hb⟩ := heq _ hslot
    cases hnone.symm.trans hb

/-- A binding under a new name, put where the search for it ends, is found there, and no other
binding gets out of reach. -/
theorem place (h : Represents r bound) {steps : Nat} (hsteps : steps < r.capacity)
    (hnone : r.slots[r.slotAt key steps]? = some none) (hocc : ∀ s < steps, r.Occupied key s)
    (hkey : key ∉ bound.map Binding.key) :
    Represents (r.place (r.slotAt key steps) ⟨key, value⟩) (bound ++ [⟨key, value⟩]) where
  capacity_pos := by
    rw [capacity_place]
    exact h.capacity_pos
  distinct := by
    rw [List.map_append, List.map_singleton]
    exact List.nodup_append_comm.1 (List.nodup_cons.2 ⟨hkey, h.distinct⟩)
  holds := (bindings_place hnone _).trans
    ((h.holds.cons _).trans (List.perm_append_singleton _ _).symm)
  size_eq := by
    rw [List.length_append, ← h.size_eq]
    rfl
  reached slot b hb := by
    have hslot := slotAt_lt h.capacity_pos key steps
    simp only [capacity_place, slotAt_place]
    rw [slots_place hslot] at hb
    by_cases hi : r.slotAt key steps = slot
    · rw [if_pos hi] at hb
      obtain rfl : (⟨key, value⟩ : Binding V) = b := Option.some.inj (Option.some.inj hb)
      exact ⟨steps, hsteps, hi, fun s hs => (hocc s hs).place hslot _⟩
    · rw [if_neg hi] at hb
      obtain ⟨steps', hlt, hat, hocc'⟩ := h.reached slot b hb
      exact ⟨steps', hlt, hat, fun s hs => (hocc' s hs).place hslot _⟩

/-- What registering does, by what is bound. -/
theorem register (h : Represents r bound) (key : String) (value : V) :
    (key ∈ bound.map Binding.key ∧ register key value r = ⟨r, .ok false, []⟩) ∨
    (key ∉ bound.map Binding.key ∧ bound.length < r.capacity ∧
      ∃ r', register key value r = ⟨r', .ok true, []⟩ ∧ r'.capacity = r.capacity ∧
        Represents r' (bound ++ [⟨key, value⟩])) ∨
    (key ∉ bound.map Binding.key ∧ bound.length = r.capacity ∧
      register key value r = Step.fault (.registryFull r.capacity) r) := by
  by_cases hkey : key ∈ bound.map Binding.key
  · obtain ⟨b, hb, rfl⟩ := List.mem_map.1 hkey
    refine .inl ⟨hkey, ?_⟩
    rw [Registry.register, h.probe_bound hb]
  · refine .inr ?_
    rcases h.probe_unbound hkey with ⟨hroom, steps, hsteps, hnone, hocc, hprobe⟩ | ⟨hfull, hprobe⟩
    · refine .inl ⟨hkey, hroom, r.place (r.slotAt key steps) ⟨key, value⟩, ?_,
        capacity_place _ _ _, h.place hsteps hnone hocc hkey⟩
      rw [Registry.register, hprobe]
      rfl
    · refine .inr ⟨hkey, hfull, ?_⟩
      rw [Registry.register, hprobe]

theorem state_register (h : Represents r bound) (key : String) (value : V) :
    ∃ more, Represents (Registry.register key value r).state (bound ++ more) ∧
      (Registry.register key value r).state.capacity = r.capacity := by
  have hsame : Represents r (bound ++ []) := by rwa [List.append_nil]
  rcases h.register key value with ⟨-, heq⟩ | ⟨-, -, r', heq, hcapacity, hrep⟩ | ⟨-, -, heq⟩
  · rw [heq]
    exact ⟨[], hsame, rfl⟩
  · rw [heq]
    exact ⟨_, hrep, hcapacity⟩
  · rw [heq]
    exact ⟨[], hsame, rfl⟩

theorem fetch_eq (h : Represents r bound) (key : String) :
    r.fetch key = (bound.find? (·.key = key)).map Binding.value := by
  cases hfind : bound.find? (·.key = key) with
  | some b =>
    have hkey : b.key = key := by simpa using List.find?_some hfind
    rw [fetch, ← hkey, h.probe_bound (List.mem_of_find?_eq_some hfind)]
    rfl
  | none =>
    have hnot : key ∉ bound.map Binding.key := by
      intro hmem
      obtain ⟨b, hb, hkey⟩ := List.mem_map.1 hmem
      exact List.find?_eq_none.1 hfind b hb (decide_eq_true hkey)
    rw [fetch]
    rcases h.probe_unbound hnot with ⟨-, steps, -, -, -, hprobe⟩ | ⟨-, hprobe⟩ <;>
      rw [hprobe] <;> rfl

end Represents

/-! ### Runs -/

/-- A call on a registry. -/
inductive Call (V : Type)
  | register (key : String) (value : V)
  | fetch (key : String)

/-- The registry after some calls.  The calls go on after one that was a fault. -/
def after (r : Registry V) : List (Call V) → Registry V
  | [] => r
  | .register key value :: calls => (register key value r).state.after calls
  | .fetch _ :: calls => r.after calls

/-- The bindings that were accepted in the course of some calls, in the order of the calls. -/
def accepted (r : Registry V) : List (Call V) → List (Binding V)
  | [] => []
  | .register key value :: calls =>
    let o := register key value r
    match o.answer with
    | .ok true => ⟨key, value⟩ :: o.state.accepted calls
    | _ => o.state.accepted calls
  | .fetch _ :: calls => r.accepted calls

/-- Calls add to the table what they answered to have bound, and nothing else. -/
theorem Represents.after {bound : List (Binding V)} (h : Represents r bound)
    (calls : List (Call V)) :
    Represents (r.after calls) (bound ++ r.accepted calls) ∧
      (r.after calls).capacity = r.capacity := by
  induction calls generalizing r bound with
  | nil => exact ⟨(List.append_nil bound).symm ▸ h, rfl⟩
  | cons call calls ih =>
    cases call with
    | fetch key => exact ih h
    | register key value =>
      rw [Registry.after, accepted]
      rcases h.register key value with ⟨-, heq⟩ | ⟨-, -, r', heq, hcap, h'⟩ | ⟨-, -, heq⟩
      · rw [heq]
        exact ih h
      · rw [heq]
        obtain ⟨hrep, hcap'⟩ := ih h'
        rw [List.append_assoc] at hrep
        exact ⟨hrep, hcap'.trans hcap⟩
      · rw [heq]
        exact ih h

/-- After any calls on a new registry, whatever the hash, its answers are those of the list of the
bindings that were accepted. -/
theorem answers_as_map (hash : String → Nat) (requested : Nat) (calls : List (Call V)) :
    let r := (Registry.new hash requested : Registry V).after calls
    let bound := (Registry.new hash requested : Registry V).accepted calls
    r.capacity = (max requested 1).nextPowerOfTwo ∧
    (∀ key value,
      ((register key value r).answer = .ok true ↔
        key ∉ bound.map Binding.key ∧ bound.length < r.capacity) ∧
      ((register key value r).answer = .ok false ↔ key ∈ bound.map Binding.key) ∧
      (register key value r = Step.fault (.registryFull r.capacity) r ↔
        key ∉ bound.map Binding.key ∧ bound.length = r.capacity) ∧
      ((register key value r).answer ≠ .ok true → (register key value r).state = r)) ∧
    (∀ key, r.fetch key = (bound.find? (·.key = key)).map Binding.value) ∧
    r.size = bound.length ∧ r.keys.Perm (bound.map Binding.key) ∧ r.keys.Nodup := by
  intro r bound
  obtain ⟨h, hcap⟩ : Represents r bound ∧ r.capacity = _ :=
    (Represents.new hash requested).after calls
  have hkeys : r.keys.Perm (bound.map Binding.key) := r.keys_eq ▸ h.holds.map Binding.key
  refine ⟨hcap.trans (capacity_new hash requested), fun key value => ?_, h.fetch_eq, h.size_eq,
    hkeys, hkeys.nodup_iff.2 h.distinct⟩
  rcases h.register key value with ⟨hmem, heq⟩ | ⟨hnot, hroom, r', heq, -, -⟩ | ⟨hnot, hfull, heq⟩
  · rw [heq]
    simp [hmem, Step.fault]
  · rw [heq]
    simp [hnot, hroom, Nat.ne_of_lt hroom, Step.fault]
  · rw [heq]
    simp [hnot, hfull, Step.fault]

end ObjectSystem.Registry
