import ObjectSystem.Proofs.Class.Ledger

/-! # Worlds that bear out their ledger

`Settled L w c` says that the descriptor of a class is what the ledger makes of it: the slots are
laid out as in `Ledger.layout`, each has what `Ledger.dispatch` says, and the offset of a reference
that introduced a slot is the offset of that slot.  `Sound L w` says so of all classes in the
ledger, and that every other reference has the offset of the one it comes from.

Of a sound world follows what a class does for a method (`Sound.resolve_eq`). -/

namespace ObjectSystem

theorem Descriptor.slot_slotOffset (d : Descriptor) {i : Nat} (h : i < d.vtable.length) :
    d.slot (slotOffset i) = .ok (d.vtable[i]?).join := by
  unfold Descriptor.slot
  rw [slotIndex?_slotOffset h]

namespace World

/-- The descriptor of a class bears out the ledger. -/
structure Settled (L : Ledger) (w : World) (c : Nat) : Prop where
  inside : c < w.classes.length
  parent : (w.get c).parent = (L.entry c).parent
  final : (w.get c).flags.final = (L.entry c).final
  vtable : (w.get c).vtable = (L.layout c).map (L.dispatch c)
  classSize : (w.get c).classSize = slotOffset (L.layout c).length
  placed : ∀ (i : Nat) o, (L.layout c)[i]? = some o → w.offsets o = slotOffset i

/-- A world bears out a ledger of classes. -/
structure Sound (L : Ledger) (w : World) : Prop where
  wellFormed : L.WellFormed
  settled : ∀ c : Nat, c < L.length → Settled L w c
  linked : ∀ m ∈ L.refs, w.offsets m = w.offsets (L.origin m)

/-- Nothing that the ledger speaks of changes from one world to another. -/
structure Preserves (L : Ledger) (w w' : World) : Prop where
  length_le : w.classes.length ≤ w'.classes.length
  parent : ∀ c : Nat, c < L.length → (w'.get c).parent = (w.get c).parent
  final : ∀ c : Nat, c < L.length → (w'.get c).flags.final = (w.get c).flags.final
  vtable : ∀ c : Nat, c < L.length → (w'.get c).vtable = (w.get c).vtable
  classSize : ∀ c : Nat, c < L.length → (w'.get c).classSize = (w.get c).classSize
  offsets : ∀ m ∈ L.refs, w'.offsets m = w.offsets m

variable {L : Ledger} {e : Entry} {w w' : World} {c d a : Nat} {m : MethodRef}

theorem Preserves.refl (L : Ledger) (w : World) : Preserves L w w :=
  ⟨Nat.le_refl _, fun _ _ => rfl, fun _ _ => rfl, fun _ _ => rfl, fun _ _ => rfl, fun _ _ => rfl⟩

theorem Preserves.of_get (hlength : w.classes.length ≤ w'.classes.length)
    (hget : ∀ c : Nat, c < L.length → w'.get c = w.get c)
    (hoffsets : ∀ m ∈ L.refs, w'.offsets m = w.offsets m) : Preserves L w w' where
  length_le := hlength
  parent c hc := congrArg Descriptor.parent (hget c hc)
  final c hc := congrArg (·.flags.final) (hget c hc)
  vtable c hc := congrArg Descriptor.vtable (hget c hc)
  classSize c hc := congrArg Descriptor.classSize (hget c hc)
  offsets := hoffsets

theorem Preserves.trans {w'' : World} (h : Preserves L w w') (h' : Preserves L w' w'') :
    Preserves L w w'' where
  length_le := Nat.le_trans h.length_le h'.length_le
  parent c hc := (h'.parent c hc).trans (h.parent c hc)
  final c hc := (h'.final c hc).trans (h.final c hc)
  vtable c hc := (h'.vtable c hc).trans (h.vtable c hc)
  classSize c hc := (h'.classSize c hc).trans (h.classSize c hc)
  offsets m hm := (h'.offsets m hm).trans (h.offsets m hm)

theorem Preserves.of_suffix {older : Ledger} (h : Preserves L w w') (hs : older <:+ L) :
    Preserves older w w' where
  length_le := h.length_le
  parent c hc := h.parent c (Nat.lt_of_lt_of_le hc hs.length_le)
  final c hc := h.final c (Nat.lt_of_lt_of_le hc hs.length_le)
  vtable c hc := h.vtable c (Nat.lt_of_lt_of_le hc hs.length_le)
  classSize c hc := h.classSize c (Nat.lt_of_lt_of_le hc hs.length_le)
  offsets m hm := by
    obtain ⟨e, he, hown⟩ := List.mem_flatMap.1 hm
    exact h.offsets m (List.mem_flatMap.2 ⟨e, hs.subset he, hown⟩)

theorem Settled.preserved (h : Settled L w c) (hp : Preserves L w w') (hc : c < L.length) :
    Settled L w' c where
  inside := Nat.lt_of_lt_of_le h.inside hp.length_le
  parent := (hp.parent c hc).trans h.parent
  final := (hp.final c hc).trans h.final
  vtable := (hp.vtable c hc).trans h.vtable
  classSize := (hp.classSize c hc).trans h.classSize
  placed i o ho :=
    (hp.offsets o (Ledger.mem_refs_of_mem_layout (List.mem_of_getElem? ho))).trans (h.placed i o ho)

theorem Sound.preserved (h : Sound L w) (hp : Preserves L w w') : Sound L w' where
  wellFormed := h.wellFormed
  settled c hc := (h.settled c hc).preserved hp hc
  linked m hm := by
    rw [hp.offsets m hm, hp.offsets _ (h.wellFormed.origin_mem_refs hm), h.linked m hm]

/-- One more class: what was settled stays so, and the class bears out its entry. -/
theorem Sound.cons (h : Sound L w) (hwf : Ledger.WellFormed (e :: L)) (hp : Preserves L w w')
    (hself : Settled (e :: L) w' L.length)
    (hlinked : ∀ m ∈ e.own, w'.offsets m = w'.offsets (Ledger.origin (e :: L) m)) :
    Sound (e :: L) w' where
  wellFormed := hwf
  settled c hc := by
    by_cases hc' : c = L.length
    · exact hc' ▸ hself
    · rw [List.length_cons] at hc
      have hold := (h.preserved hp).settled c (by omega)
      have hdispatch : Ledger.dispatch (e :: L) c = L.dispatch c :=
        funext (hwf.dispatch_cons hc')
      constructor
      · exact hold.inside
      · rw [Ledger.entry_cons hc']
        exact hold.parent
      · rw [Ledger.entry_cons hc']
        exact hold.final
      · rw [Ledger.layout_cons hc', hdispatch]
        exact hold.vtable
      · rw [Ledger.layout_cons hc']
        exact hold.classSize
      · rw [Ledger.layout_cons hc']
        exact hold.placed
  linked m hm := by
    rcases List.mem_append.1 (Ledger.refs_cons e L ▸ hm) with hown | hold
    · exact hlinked m hown
    · rw [hwf.origin_cons hold]
      exact (h.preserved hp).linked m hold

theorem Sound.agree {L' : Ledger} (h : Sound L w) (h' : Sound L' w') (hs : L <:+ L')
    (hc : c < L.length) :
    (w'.get c).vtable = (w.get c).vtable ∧ (w'.get c).classSize = (w.get c).classSize ∧
      (w'.get c).flags.final = (w.get c).flags.final := by
  have hold := h.settled c hc
  have hnew := h'.settled c (Nat.lt_of_lt_of_le hc hs.length_le)
  refine ⟨?_, ?_, ?_⟩
  · rw [hnew.vtable, hold.vtable, Ledger.layout_of_suffix hs hc,
      h'.wellFormed.dispatch_of_suffix hs hc]
  · rw [hnew.classSize, hold.classSize, Ledger.layout_of_suffix hs hc]
  · rw [hnew.final, hold.final, Ledger.entry_of_suffix hs hc]

/-! ### The forest -/

theorem Sound.ancestorsUpTo_eq (h : Sound L w) (n : Nat) (hc : c < L.length) (hn : c < n) :
    w.ancestorsUpTo n c = L.lineage c := by
  induction n generalizing c with
  | zero => omega
  | succ n ih =>
    rw [ancestorsUpTo, (h.settled c hc).parent, h.wellFormed.lineage_eq hc]
    cases hp : (L.entry c).parent with
    | none => rfl
    | some p =>
      have hlt := h.wellFormed.lt_of_parent hp
      exact congrArg (c :: ·) (ih (by omega) (by omega))

theorem Sound.ancestors_eq (h : Sound L w) (hc : c < L.length) :
    w.ancestors c = L.lineage c :=
  h.ancestorsUpTo_eq _ hc (h.settled c hc).inside

theorem descendsUpTo_iff (w : World) (n c a : Nat) :
    w.descendsUpTo n c a = true ↔ a ∈ w.ancestorsUpTo n c := by
  induction n generalizing c with
  | zero => simp [descendsUpTo, ancestorsUpTo]
  | succ n ih =>
    rw [descendsUpTo, ancestorsUpTo, Bool.or_eq_true_iff, List.mem_cons, decide_eq_true_iff,
      eq_comm]
    cases (w.get c).parent with
    | none => simp
    | some p => simp only [ih]

theorem isSubclassOf_iff (w : World) (c a : Nat) :
    w.isSubclassOf c a = true ↔ a ∈ w.ancestors c :=
  descendsUpTo_iff w _ c a

theorem lt_of_isSubclassOf (hc : c < w.classes.length) (hd : w.isSubclassOf d c = true) :
    d < w.classes.length := by
  by_contra hnot
  have hblank : w.get d = .blank 0 := by
    unfold World.get
    rw [List.getElem?_eq_none (by omega), Option.getD_none]
  have hmem := (isSubclassOf_iff w d c).1 hd
  have hself : c = d := by
    unfold ancestors at hmem
    cases hn : w.classes.length with
    | zero => omega
    | succ n =>
      rw [hn, ancestorsUpTo, hblank] at hmem
      exact List.mem_singleton.1 hmem
  omega

/-! ### Dispatch -/

theorem Sound.offsets_eq {q : MethodRef} (h : Sound L w) (hm : m ∈ L.refs)
    (hq : Relation.ReflTransGen L.StandsFor m q) : q ∈ L.refs ∧ w.offsets q = w.offsets m := by
  induction hq with
  | refl => exact ⟨hm, rfl⟩
  | @tail b q _ hlink ih =>
    obtain ⟨c, hl⟩ := hlink
    obtain ⟨a, -, ha⟩ := h.wellFormed.exists_ancestor hl
    have hq := Ledger.mem_refs_of_mem_own ha
    refine ⟨hq, ?_⟩
    rw [h.linked q hq, ← h.wellFormed.origin_standsFor ⟨c, hl⟩, ← h.linked b ih.1, ih.2]

theorem resolve_congr {q : MethodRef} {code : Code} (hq : w.offsets q = w.offsets m)
    (hm : w.resolve d m = .ok code) : w.resolve d q = .ok code := by
  unfold resolve at hm ⊢
  rw [hq]
  cases hslot : (w.get d).slot (w.offsets m) with
  | error f => simp [hslot] at hm
  | ok o =>
    cases o with
    | none => simp [hslot] at hm
    | some code' => simpa only [hslot] using hm

theorem Sound.resolve_layout {o : MethodRef} (h : Sound L w) (hd : d < L.length)
    (ho : o ∈ L.layout d) :
    ∃ code, L.dispatch d o = some code ∧ w.resolve d o = .ok code := by
  have hsettled := h.settled d hd
  obtain ⟨code, hcode⟩ := Option.isSome_iff_exists.1 (h.wellFormed.dispatch_isSome ho)
  obtain ⟨i, hi, horigin⟩ := List.getElem_of_mem ho
  have hget : (L.layout d)[i]? = some o := by
    rw [List.getElem?_eq_getElem hi, horigin]
  have hslot : (w.get d).slot (slotOffset i) = .ok (some code) := by
    rw [Descriptor.slot_slotOffset _ (by rwa [hsettled.vtable, List.length_map]), hsettled.vtable,
      List.getElem?_map, hget, Option.map_some, hcode]
    rfl
  refine ⟨code, hcode, ?_⟩
  rw [resolve, hsettled.placed i o hget, hslot]

/-- A class has a function for every method that one of its ancestors names, and it is the one
that the ledger tells. -/
theorem Sound.resolve_eq (h : Sound L w) (hm : m ∈ (L.entry a).own) (ha : a ∈ L.lineage d) :
    ∃ code, L.dispatch d (L.origin m) = some code ∧ w.resolve d m = .ok code := by
  have hlaid : L.origin m ∈ L.layout d :=
    (Ledger.layout_initial ha).subset (h.wellFormed.origin_mem_layout hm)
  obtain ⟨code, hcode, hresolve⟩ := h.resolve_layout (Ledger.lt_of_mem_lineage ha).2 hlaid
  exact ⟨code, hcode, resolve_congr (h.linked m (Ledger.mem_refs_of_mem_own hm)) hresolve⟩

end World

end ObjectSystem
