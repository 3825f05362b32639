import ObjectSystem.Proofs.Class.Settled
import ObjectSystem.Proofs.Steps

/-! # Filling vtables

What the three lists of methods do to the class that takes its shares of them.  Offsets are passed
on along links (`passOn`); functions are put over the slots that the parent had, the last one for a
slot standing (`Ledger.installed`); and new functions go behind them, in order.  Nothing happens to
any other class (`Beside`). -/

namespace ObjectSystem

/-! ### One function -/

theorem Descriptor.install_slotOffset (d : Descriptor) {i : Nat} (h : i < d.vtable.length)
    (code : Code) :
    d.install code (slotOffset i) = .ok { d with vtable := d.vtable.set i (some code) } := by
  unfold Descriptor.install
  rw [slotIndex?_slotOffset h]

/-- A function put into the slot that `o` introduced. -/
theorem Descriptor.install_layout {d : Descriptor} {R : List MethodRef}
    {g : MethodRef → Option Code} {G : List (Option Code)} {i : Nat} {o : MethodRef}
    (hd : d.vtable = R.map g ++ G) (hR : R.Nodup) (hi : R[i]? = some o) (code : Code) :
    d.install code (slotOffset i) =
      .ok { d with vtable := R.map (fun q => if q = o then some code else g q) ++ G } := by
  obtain ⟨hlt, ho⟩ := List.getElem?_eq_some_iff.1 hi
  have hlt' : i < (R.map g).length := by rwa [List.length_map]
  have hset : (R.map g).set i (some code) = R.map fun q => if q = o then some code else g q := by
    refine List.ext_getElem (by simp) fun j hj hj' => ?_
    rw [List.length_map] at hj'
    rw [List.getElem_set, List.getElem_map, List.getElem_map]
    have hsame : i = j ↔ R[j] = o := by
      rw [← ho, hR.getElem_inj_iff, eq_comm]
    simp only [hsame]
  rw [d.install_slotOffset (by rw [hd, List.length_append]; omega), hd,
    List.set_append_left _ _ hlt', hset]

theorem Descriptor.install_next {d : Descriptor} {A G : List (Option Code)} {x : Option Code}
    (hd : d.vtable = A ++ x :: G) (code : Code) :
    d.install code (slotOffset A.length) = .ok { d with vtable := A ++ some code :: G } := by
  have hlt : A.length < d.vtable.length := by
    rw [hd, List.length_append, List.length_cons]
    omega
  rw [d.install_slotOffset hlt, hd, List.set_append_right _ _ (Nat.le_refl _), Nat.sub_self,
    List.set_cons_zero]

/-! ### Offsets -/

/-- The offsets after those of some references were passed on to others. -/
def passOn (f : MethodRef → Nat) : List (MethodRef × MethodRef) → MethodRef → Nat
  | [] => f
  | l :: rest => passOn (fun r => if r = l.1 then f l.2 else f r) rest

theorem passOn_append (f : MethodRef → Nat) (ls rest : List (MethodRef × MethodRef)) :
    passOn f (ls ++ rest) = passOn (passOn f ls) rest := by
  induction ls generalizing f with
  | nil => rfl
  | cons l ls ih => exact ih _

theorem passOn_of_not_mem {f : MethodRef → Nat} {ls : List (MethodRef × MethodRef)}
    {m : MethodRef} (h : m ∉ ls.map Prod.fst) : passOn f ls m = f m := by
  induction ls generalizing f with
  | nil => rfl
  | cons l ls ih =>
    rw [List.map_cons, List.mem_cons, not_or] at h
    rw [passOn, ih h.2]
    exact if_neg h.1

theorem passOn_of_mem {f : MethodRef → Nat} {ls : List (MethodRef × MethodRef)}
    {l : MethodRef × MethodRef} (hnodup : (ls.map Prod.fst).Nodup)
    (hsources : ∀ l ∈ ls, l.2 ∉ ls.map Prod.fst) (hl : l ∈ ls) : passOn f ls l.1 = f l.2 := by
  induction ls generalizing f with
  | nil => cases hl
  | cons l' ls ih =>
    rw [List.map_cons, List.nodup_cons] at hnodup
    rcases List.mem_cons.1 hl with rfl | hmem
    · rw [passOn, passOn_of_not_mem hnodup.1]
      exact if_pos rfl
    · have hne : l.2 ∉ (l' :: ls).map Prod.fst := hsources l hl
      rw [List.map_cons, List.mem_cons, not_or] at hne
      rw [passOn, ih hnodup.2 (fun l hl hk => hsources l (List.mem_cons_of_mem _ hl)
        (List.mem_cons_of_mem _ hk)) hmem]
      exact if_neg hne.1

namespace World

/-! ### Other classes -/

/-- Between two worlds only one class, offsets of methods and variables, and what is not about
classes differ. -/
structure Beside (c : Nat) (w w' : World) : Prop where
  length : w'.classes.length = w.classes.length
  get : ∀ d : Nat, d ≠ c → w'.get d = w.get d
  slots : w'.slots = w.slots
  registry : w'.registry = w.registry
  hook : w'.hook = w.hook

variable {w w' w'' w₁ w₂ : World} {c : Nat}

theorem Beside.refl (c : Nat) (w : World) : Beside c w w := ⟨rfl, fun _ _ => rfl, rfl, rfl, rfl⟩

theorem Beside.trans (h : Beside c w w') (h' : Beside c w' w'') : Beside c w w'' where
  length := h'.length.trans h.length
  get d hd := (h'.get d hd).trans (h.get d hd)
  slots := h'.slots.trans h.slots
  registry := h'.registry.trans h.registry
  hook := h'.hook.trans h.hook

/-- The descriptor of one class changes, and maybe what is not about classes. -/
theorem Beside.of_modify {f : Descriptor → Descriptor} (hc : c < w.classes.length)
    (hclasses : w₁.classes = w.classes) (hslots : w₁.slots = w.slots)
    (hregistry : w₁.registry = w.registry) (hhook : w₁.hook = w.hook)
    (h : w₂ = { w₁ with classes := w₁.classes.modify c f }) :
    Beside c w w₂ ∧ w₂.offsets = w₁.offsets ∧ w₂.get c = f (w.get c) ∧
      c < w₂.classes.length := by
  have hlength : w₂.classes.length = w.classes.length := by
    rw [h, ← hclasses]
    exact List.length_modify ..
  have hget : ∀ d, w₁.get d = w.get d := fun d => by unfold World.get; rw [hclasses]
  refine ⟨⟨hlength, fun d hd => ?_, ?_, ?_, ?_⟩, ?_, ?_, ?_⟩
  · rw [h, get_modify, if_neg fun hcd => hd hcd.1.symm, hget]
  · rw [h]
    exact hslots
  · rw [h]
    exact hregistry
  · rw [h]
    exact hhook
  · rw [h]
  · rw [h, get_modify, if_pos ⟨rfl, hclasses ▸ hc⟩, hget]
  · rw [hlength]
    exact hc

/-! ### The three lists -/

theorem gives_inheritAll (specs : List InheritedSpec) (w : World) (u : Unit) (w' : World) :
    (inheritAll specs).Gives w u w' ↔
      w' = { w with offsets := passOn w.offsets (specs.map fun s => (s.method, s.parent)) } := by
  induction specs generalizing w with
  | nil => simp [inheritAll, passOn]
  | cons s rest ih => simp [inheritAll, ih, passOn]

/-- Overriding functions stand where the slots are that their references come from. -/
theorem overrideAll_gives {L : Ledger} {R : List MethodRef} (hR : R.Nodup)
    {G : List (Option Code)} {specs : List OverriddenSpec} {g : MethodRef → Option Code}
    (h : (World.overrideAll c specs).Gives w () w') (hc : c < w.classes.length)
    (hv : (w.get c).vtable = R.map g ++ G)
    (hplaced : ∀ s ∈ specs, ∃ i, R[i]? = some (L.origin s.parent) ∧
      w.offsets s.parent = slotOffset i)
    (hsources : ∀ s ∈ specs, s.parent ∉ specs.map (·.method)) :
    Beside c w w' ∧ w'.offsets = passOn w.offsets (specs.map fun s => (s.method, s.parent)) ∧
      w'.get c = { w.get c with
        vtable := R.map (fun o =>
          (L.installed (specs.map fun s => (s.parent, s.code)) o).or (g o)) ++ G } := by
  induction specs generalizing w g with
  | nil =>
    obtain ⟨-, rfl⟩ := (Step.gives_pure _ _ _ _).1 h
    refine ⟨.refl c _, rfl, ?_⟩
    have hsame : (w'.get c).vtable = R.map (fun o => (L.installed [] o).or (g o)) ++ G := hv
    rw [List.map_nil, ← hsame]
  | cons s rest ih =>
    unfold World.overrideAll at h
    simp only [Step.gives_bind, Step.gives_gets, gives_setOffset, gives_tryModifyClass] at h
    obtain ⟨offset, w₀, ⟨rfl, rfl⟩, -, w₁, hw₁, -, w₂, ⟨d, hd, hw₂⟩, hrest⟩ := h
    obtain ⟨i, hi, hoffset⟩ := hplaced s List.mem_cons_self
    have hget : w₁.get c = w₀.get c := by rw [hw₁]; rfl
    rw [hget, hoffset, Descriptor.install_layout hv hR hi] at hd
    obtain ⟨hbeside, hf, hself, hc'⟩ :=
      Beside.of_modify hc (by rw [hw₁]) (by rw [hw₁]) (by rw [hw₁]) (by rw [hw₁]) hw₂
    rw [hw₁] at hf
    rw [← Except.ok.inj hd] at hself
    have hsources' : ∀ s' ∈ rest, s'.parent ∉ rest.map (·.method) := fun s' hs' hmem =>
      hsources s' (List.mem_cons_of_mem _ hs') (List.mem_cons_of_mem _ hmem)
    have hplaced' : ∀ s' ∈ rest, ∃ i, R[i]? = some (L.origin s'.parent) ∧
        w₂.offsets s'.parent = slotOffset i := by
      intro s' hs'
      obtain ⟨j, hj, hoffset'⟩ := hplaced s' (List.mem_cons_of_mem _ hs')
      have hne : s'.parent ≠ s.method := fun heq =>
        hsources s' (List.mem_cons_of_mem _ hs') (heq ▸ List.mem_cons_self)
      rw [hf]
      exact ⟨j, hj, (if_neg hne).trans hoffset'⟩
    obtain ⟨hbeside', hf', hself'⟩ := ih hrest hc' (by rw [hself]) hplaced' hsources'
    refine ⟨hbeside.trans hbeside', by rw [hf', hf]; rfl, ?_⟩
    rw [hself', hself]
    simp only [List.map_cons, Ledger.installed_cons_or]

/-- New functions stand behind the slots that are filled, in their order. -/
theorem introduceAll_gives {specs : List NovelSpec} {A G : List (Option Code)}
    (h : (World.introduceAll c (slotOffset A.length) specs).Gives w () w')
    (hc : c < w.classes.length) (hv : (w.get c).vtable = A ++ G)
    (hG : G.length = specs.length) :
    Beside c w w' ∧ (∀ m, m ∉ specs.map (·.method) → w'.offsets m = w.offsets m) ∧
      ((specs.map (·.method)).Nodup → ∀ (j : Nat) s, specs[j]? = some s →
        w'.offsets s.method = slotOffset (A.length + j)) ∧
      w'.get c = { w.get c with vtable := A ++ specs.map fun s => some s.code } := by
  induction specs generalizing w A G with
  | nil =>
    obtain ⟨-, rfl⟩ := (Step.gives_pure _ _ _ _).1 h
    refine ⟨.refl c _, fun _ _ => rfl, fun _ j s hs => (by cases hs), ?_⟩
    obtain rfl : G = [] := List.eq_nil_of_length_eq_zero hG
    rw [List.map_nil, ← hv]
  | cons s rest ih =>
    obtain ⟨x, G', rfl⟩ := List.exists_cons_of_length_eq_add_one hG
    unfold World.introduceAll at h
    simp only [Step.gives_bind, gives_setOffset, gives_tryModifyClass] at h
    obtain ⟨-, w₁, hw₁, -, w₂, ⟨d, hd, hw₂⟩, hrest⟩ := h
    have hget : w₁.get c = w.get c := by rw [hw₁]; rfl
    rw [hget, Descriptor.install_next hv] at hd
    obtain ⟨hbeside, hf, hself, hc'⟩ :=
      Beside.of_modify hc (by rw [hw₁]) (by rw [hw₁]) (by rw [hw₁]) (by rw [hw₁]) hw₂
    rw [hw₁] at hf
    rw [← Except.ok.inj hd] at hself
    have hlength : (A ++ [some s.code]).length = A.length + 1 := by
      rw [List.length_append, List.length_singleton]
    have hnext : slotOffset A.length + slotSize = slotOffset (A ++ [some s.code]).length := by
      rw [hlength]
      rfl
    rw [hnext] at hrest
    have hv' : (w₂.get c).vtable = (A ++ [some s.code]) ++ G' := by
      rw [hself]
      simp
    obtain ⟨hbeside', hother, hown, hself'⟩ := ih hrest hc' hv' (by simpa using hG)
    refine ⟨hbeside.trans hbeside', ?_, ?_, ?_⟩
    · intro m hm
      rw [List.map_cons, List.mem_cons, not_or] at hm
      rw [hother m hm.2, hf]
      exact if_neg hm.1
    · intro hnodup j s' hs'
      rw [List.map_cons, List.nodup_cons] at hnodup
      cases j with
      | zero =>
        obtain rfl : s = s' := Option.some.inj hs'
        rw [hother _ hnodup.1, hf]
        exact if_pos rfl
      | succ j =>
        have hj := hown hnodup.2 j s' hs'
        rw [hlength] at hj
        rw [hj, Nat.add_right_comm, Nat.add_assoc]
    · rw [hself', hself]
      simp

end World

end ObjectSystem
