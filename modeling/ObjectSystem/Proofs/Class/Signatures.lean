import ObjectSystem.Core
import ObjectSystem.Proofs.Class.Dispatch
import ObjectSystem.Proofs.Class.Shape

/-! # Signatures

A method reference fixes the signature at which a slot is read, but nothing ties it to the classes
that have the slot.  Its offset is a number.  It is right for the class that introduced the method
and for all classes below it; a class elsewhere in the forest may have given the same number to a
method of its own.

`Ledger.WellSigned` is on the side of whoever writes specs: functions and references of one spec
have one signature.  In a world that was reached from such specs, a slot then holds a function of
the signature of the method that introduced the slot (`Reached.signature_of_dispatch`), callbacks of
the host included.  What this means for a class and a method anywhere in the forest is said by
`resolve_signed`: there is a function of another signature exactly where the class has a slot at the
offset of the method that was introduced at another signature. -/

namespace ObjectSystem

variable {e : Entry} {m q o : MethodRef} {code : Code}

/-! ### Specs of one signature -/

/-- The functions and references in each spec of a class have one signature. -/
structure Entry.WellSigned (e : Entry) : Prop where
  novel : ∀ s ∈ e.novel, s.wellSigned = true
  overridden : ∀ s ∈ e.overridden, s.wellSigned = true
  inherited : ∀ s ∈ e.inherited, s.wellSigned = true

theorem NovelSpec.signature_code {s : NovelSpec} (h : s.wellSigned = true) :
    s.code.signature = s.method.signature := by
  simp only [NovelSpec.wellSigned, Bool.and_eq_true, decide_eq_true_eq] at h
  exact h.1

theorem NovelSpec.signature_callback {s : NovelSpec} (h : s.wellSigned = true)
    (hc : s.callback = some code) : code.signature = s.method.signature := by
  simp only [NovelSpec.wellSigned, Bool.and_eq_true, hc, Option.all_some, decide_eq_true_eq] at h
  exact h.2

theorem OverriddenSpec.signature_eq {s : OverriddenSpec} (h : s.wellSigned = true) :
    s.parent.signature = s.method.signature ∧ s.code.signature = s.method.signature := by
  simpa [OverriddenSpec.wellSigned] using h

theorem InheritedSpec.signature_eq {s : InheritedSpec} (h : s.wellSigned = true) :
    s.parent.signature = s.method.signature := by
  simpa [InheritedSpec.wellSigned] using h

theorem Entry.WellSigned.links (h : e.WellSigned) (hl : (m, q) ∈ e.links) :
    q.signature = m.signature := by
  unfold Entry.links at hl
  rcases List.mem_append.1 hl with hl | hl
  · obtain ⟨s, hs, hlink⟩ := List.mem_map.1 hl
    cases hlink
    exact (OverriddenSpec.signature_eq (h.overridden s hs)).1
  · obtain ⟨s, hs, hlink⟩ := List.mem_map.1 hl
    cases hlink
    exact InheritedSpec.signature_eq (h.inherited s hs)

theorem Entry.WellSigned.installs (h : e.WellSigned)
    (hcallbacks : ∀ i ∈ e.callbacks, i.2.signature = i.1.signature) :
    ∀ i ∈ e.installs, i.2.signature = i.1.signature := by
  intro i hi
  unfold Entry.installs at hi
  rw [List.mem_append, List.mem_append] at hi
  rcases hi with hi | hi | hi
  · obtain ⟨s, hs, rfl⟩ := List.mem_map.1 hi
    obtain ⟨hparent, hcode⟩ := OverriddenSpec.signature_eq (h.overridden s hs)
    exact hcode.trans hparent.symm
  · obtain ⟨s, hs, rfl⟩ := List.mem_map.1 hi
    exact NovelSpec.signature_code (h.novel s hs)
  · exact hcallbacks i hi

namespace Ledger

variable {L : Ledger} {w : World} {slots : ClassSlot → Option ClassId} {specs : List ClassSpec}
  {novel : List NovelSpec} {overridden : List OverriddenSpec} {inherited : List InheritedSpec}

/-- The specs of all classes are of one signature each. -/
def WellSigned (L : Ledger) : Prop := ∀ e ∈ L, e.WellSigned

theorem mem_enter (h : e ∈ enter slots specs novel overridden inherited L) :
    e ∈ L ∨ ∃ s n o i, n ⊆ novel ∧ o ⊆ overridden ∧ i ⊆ inherited ∧ e = .built slots s n o i := by
  induction specs generalizing novel overridden inherited L with
  | nil => exact .inl h
  | cons s rest ih =>
    rcases ih h with hold | ⟨s', n, o, i, hn, ho, hi, he⟩
    · rcases List.mem_cons.1 hold with he | hold
      · right
        exact ⟨s, _, _, _, List.take_subset _ _, List.take_subset _ _, List.take_subset _ _, he⟩
      · exact .inl hold
    · right
      exact ⟨s', n, o, i, List.Subset.trans hn (List.drop_subset _ _),
        List.Subset.trans ho (List.drop_subset _ _), List.Subset.trans hi (List.drop_subset _ _), he⟩

theorem WellSigned.withParcel {p : ParcelSpec} (h : L.WellSigned) (w : World)
    (hp : p.wellSigned = true) : (L.withParcel w p).WellSigned := by
  simp only [ParcelSpec.wellSigned, Bool.and_eq_true, List.all_eq_true] at hp
  obtain ⟨⟨hnovel, hoverridden⟩, hinherited⟩ := hp
  intro e he
  rcases mem_enter he with hold | ⟨s, n, o, i, hn, ho, hi, rfl⟩
  · exact h e hold
  · constructor
    · exact fun t ht => hnovel t (hn ht)
    · exact fun t ht => hoverridden t (ho ht)
    · exact fun t ht => hinherited t (hi ht)

theorem entry_mem {c : Nat} (hc : c < L.length) : L.entry c ∈ L := by
  induction L with
  | nil => cases hc
  | cons e older ih =>
    by_cases hself : c = older.length
    · rw [hself, entry_self]
      exact List.mem_cons_self
    · rw [entry_cons hself]
      rw [List.length_cons] at hc
      exact List.mem_cons_of_mem _ (ih (by omega))

theorem WellSigned.signature_origin (h : L.WellSigned) (m : MethodRef) :
    (L.origin m).signature = m.signature := by
  induction L generalizing m with
  | nil => rfl
  | cons e older ih =>
    rw [origin, ih fun e' he' => h e' (List.mem_cons_of_mem _ he')]
    cases hlookup : e.links.lookup m with
    | none => rfl
    | some q =>
      obtain ⟨l, r, hlinks, -⟩ := List.lookup_eq_some_iff.1 hlookup
      apply (h e List.mem_cons_self).links
      rw [hlinks]
      exact List.mem_append_right _ List.mem_cons_self

theorem WellSigned.signature_installed (h : L.WellSigned) {is : List (MethodRef × Code)}
    (his : ∀ i ∈ is, i.2.signature = i.1.signature) (hcode : L.installed is o = some code) :
    code.signature = o.signature := by
  unfold installed at hcode
  obtain ⟨i, hfind, rfl⟩ := Option.map_eq_some_iff.1 hcode
  have hmem : i ∈ is := List.mem_reverse.1 (List.mem_of_find?_eq_some hfind)
  have horigin : L.origin i.1 = o := by simpa using List.find?_some hfind
  rw [his i hmem, ← horigin, h.signature_origin]

end Ledger

namespace World

variable {L : Ledger} {w : World} {d parent : Nat} {fresh : List String}

/-! ### Functions of the host -/

theorem Standing.callback_eq (hs : Standing L w) {a : Nat} (ha : a < L.length) {s : NovelSpec}
    {t : Method} (hst : (s, t) ∈ (L.entry a).novel.zip (w.get a).methods) :
    s.callback = t.callback := by
  obtain ⟨i, hi, hget⟩ := List.getElem_of_mem hst
  rw [List.getElem_zip] at hget
  obtain ⟨rfl, rfl⟩ := Prod.mk.inj hget
  have hlisted := hs.listed a ha
  unfold Listed at hlisted
  rw [List.length_zip] at hi
  have hpatch := congrArg (·[i]?) hlisted
  simp only [List.getElem?_map] at hpatch
  rw [List.getElem?_eq_getElem (by omega), List.getElem?_eq_getElem (by omega)] at hpatch
  exact (congrArg Prod.fst (Option.some.inj hpatch)).symm

/-- What the host takes the place of are methods that came with a callback. -/
theorem Standing.exists_callback (hs : Standing L w) :
    ∀ i ∈ L.callbacks w parent fresh, ∃ a < L.length, ∃ s ∈ (L.entry a).novel,
      s.method = i.1 ∧ s.callback = some i.2 := by
  intro i hi
  obtain ⟨a, ha, hi⟩ := List.mem_flatMap.1 hi
  obtain ⟨⟨s, t⟩, hst, hi⟩ := List.mem_filterMap.1 hi
  have hlt := (Ledger.lt_of_mem_lineage ha).1
  have hcallback := hs.callback_eq hlt hst
  cases hcode : t.callback with
  | none => simp [hcode] at hi
  | some code =>
    simp only [hcode] at hi
    split at hi
    · cases hi
    · obtain rfl := Option.some.inj hi
      exact ⟨a, hlt, s, (List.of_mem_zip hst).1, rfl, hcallback.trans hcode⟩

theorem Standing.signature_callbacks (hs : Standing L w) (hL : L.WellSigned) :
    ∀ i ∈ L.callbacks w parent fresh, i.2.signature = i.1.signature := by
  intro i hi
  obtain ⟨a, hlt, s, hmem, hmethod, hcallback⟩ := hs.exists_callback i hi
  have hsigned := (hL _ (Ledger.entry_mem hlt)).novel s hmem
  exact hmethod ▸ NovelSpec.signature_callback hsigned hcallback

/-- Whatever the host takes the place of, it does so at the signature of the method. -/
theorem Reached.signature_callbacks (h : Reached L w) (hL : L.WellSigned) :
    ∀ e ∈ L, ∀ i ∈ e.callbacks, i.2.signature = i.1.signature := by
  induction h with
  | start => simp
  | bootstrap before call hook enough once anchored ih =>
    intro e he
    rcases Ledger.mem_enter he with hold | ⟨s, n, o, i, -, -, -, rfl⟩
    · exact ih (fun e' he' => hL e' (Ledger.suffix_enter.subset he')) e hold
    · simp [Entry.built]
  | subclass before inside call ih =>
    have hold : Ledger.WellSigned _ := fun e' he' => hL e' (List.mem_cons_of_mem _ he')
    intro e he
    rcases List.mem_cons.1 he with rfl | he
    · exact before.standing.signature_callbacks hold
    · exact ih hold e he
  | alike before same ih => exact ih hL

/-! ### Slots -/

/-- A slot holds a function of the signature of the method that introduced it. -/
theorem Reached.signature_of_dispatch (h : Reached L w) (hL : L.WellSigned)
    (hcode : L.dispatch d o = some code) : code.signature = o.signature := by
  unfold Ledger.dispatch at hcode
  obtain ⟨a, ha, hinstalled⟩ := List.exists_of_findSome?_eq_some hcode
  have hmem := Ledger.entry_mem (Ledger.lt_of_mem_lineage ha).1
  apply hL.signature_installed _ hinstalled
  exact (hL _ hmem).installs (h.signature_callbacks hL _ hmem)

/-- A class answers a method with what is in its slot at the offset of the method.  If it has no
such slot it stops; no slot is empty. -/
theorem Sound.resolve_cases (h : Sound L w) (hd : d < L.length) (m : MethodRef) :
    (∃ o ∈ L.layout d, ∃ code, w.offsets o = w.offsets m ∧ L.dispatch d o = some code ∧
        w.resolve d m = .ok code) ∨
      (∀ o ∈ L.layout d, w.offsets o ≠ w.offsets m) ∧
        w.resolve d m = .error (.slotOutOfRange (w.nameOf d) (w.offsets m)) := by
  have hsettled := h.settled d hd
  have hlength : (w.get d).vtable.length = (L.layout d).length := by
    rw [hsettled.vtable, List.length_map]
  cases hindex : slotIndex? (w.get d).vtable.length (w.offsets m) with
  | none =>
    refine .inr ⟨fun o ho heq => ?_, ?_⟩
    · obtain ⟨i, hi⟩ := List.mem_iff_getElem?.1 ho
      have hlt := (List.getElem?_eq_some_iff.1 hi).1
      rw [← heq, hsettled.placed i o hi, slotIndex?_slotOffset (by omega)] at hindex
      cases hindex
    · simp only [resolve, Descriptor.slot, hindex]
      rfl
  | some i =>
    obtain ⟨hlt, hoffset⟩ := slotIndex?_eq_some hindex
    rw [hlength] at hlt
    have hget := List.getElem?_eq_getElem hlt
    have hplaced := hsettled.placed i _ hget
    obtain ⟨code, hcode, hresolve⟩ := h.resolve_layout hd (List.getElem_mem hlt)
    refine .inl ⟨_, List.getElem_mem hlt, code, hplaced.trans hoffset.symm, hcode, ?_⟩
    exact resolve_congr (hoffset.trans hplaced.symm) hresolve

/-- Slots and the signatures at which they are read.  A class of a reached world answers any method
with what its slot at the offset of the method holds, a function of the signature of the method that
introduced that slot; if there is no such slot it stops.  A method that the class or an ancestor
names is answered at its own signature.  Any other method is answered at another signature exactly
if the slot at its offset was introduced at another signature. -/
theorem resolve_signed (h : Reached L w) (hL : L.WellSigned) (hd : d < L.length) (m : MethodRef) :
    ((∃ o ∈ L.layout d, ∃ code, w.offsets o = w.offsets m ∧ L.dispatch d o = some code ∧
        code.signature = o.signature ∧ w.resolve d m = .ok code) ∨
      (∀ o ∈ L.layout d, w.offsets o ≠ w.offsets m) ∧
        w.resolve d m = .error (.slotOutOfRange (w.nameOf d) (w.offsets m))) ∧
    (∀ c : Nat, m ∈ (L.entry c).own → w.isSubclassOf d c = true →
      ∃ code, w.resolve d m = .ok code ∧ code.signature = m.signature) ∧
    ((∃ code, w.resolve d m = .ok code ∧ code.signature ≠ m.signature) ↔
      ∃ o ∈ L.layout d, w.offsets o = w.offsets m ∧ o.signature ≠ m.signature) := by
  have hs := h.standing.sound
  refine ⟨?_, ?_, ?_⟩
  · rcases hs.resolve_cases hd m with ⟨o, ho, code, hoffset, hcode, hresolve⟩ | hnone
    · exact .inl ⟨o, ho, code, hoffset, hcode, h.signature_of_dispatch hL hcode, hresolve⟩
    · exact .inr hnone
  · intro c hm hbelow
    rw [isSubclassOf_iff, hs.ancestors_eq hd] at hbelow
    obtain ⟨code, hcode, hresolve⟩ := hs.resolve_eq hm hbelow
    refine ⟨code, hresolve, ?_⟩
    rw [h.signature_of_dispatch hL hcode, hL.signature_origin]
  · constructor
    · rintro ⟨code, hresolve, hne⟩
      rcases hs.resolve_cases hd m with ⟨o, ho, code', hoffset, hcode, hresolve'⟩ | ⟨-, hstops⟩
      · rw [hresolve] at hresolve'
        obtain rfl := Except.ok.inj hresolve'
        rw [h.signature_of_dispatch hL hcode] at hne
        exact ⟨o, ho, hoffset, hne⟩
      · rw [hresolve] at hstops
        cases hstops
    · rintro ⟨o, ho, hoffset, hne⟩
      obtain ⟨code, hcode, hresolve⟩ := hs.resolve_layout hd ho
      refine ⟨code, resolve_congr hoffset.symm hresolve, ?_⟩
      rwa [h.signature_of_dispatch hL hcode]

end World

namespace Village

open World

/-- What a crier says. -/
def say : MethodRef := ⟨"Crier.Say", "Say", .text⟩

/-- What a guard counts. -/
def count : MethodRef := ⟨"Guard.Count", "Count", .number⟩

/-- Criers and guards, neither below the other. -/
def parcel : ParcelSpec where
  classes :=
    [⟨⟨"Crier"⟩, some .obj, "Crier", 0, none, 1, 0, 0, {}⟩,
      ⟨⟨"Guard"⟩, some .obj, "Guard", 0, none, 1, 0, 0, {}⟩]
  novel := [⟨say, .custom (.tag 0), none⟩, ⟨count, .custom (.constant 0), none⟩]

/-- The world with the core classes. -/
def outskirts : World := (bootstrap Core.parcel {}).state

/-- The world with criers and guards as well. -/
def village : World := (bootstrap parcel outskirts).state

/-- What went into the classes of the village. -/
def census : Ledger := Ledger.withParcel (Ledger.withParcel [] {} Core.parcel) outskirts parcel

theorem reached_village : Reached census village := by
  have houtskirts : Reached (Ledger.withParcel [] {} Core.parcel) outskirts :=
    .bootstrap .start (n := 1) ⟨by decide +kernel, rfl⟩ (fun hook h => by cases h) (by decide)
      (by decide +kernel) (by decide +kernel)
  have hhook : outskirts.hook.isSome = false := by decide +kernel
  refine .bootstrap houtskirts (n := 2) ⟨by decide +kernel, rfl⟩ (fun hook h => ?_) (by decide)
    (by decide +kernel) (by decide +kernel)
  rw [h] at hhook
  cases hhook

theorem wellSigned_census : census.WellSigned := by
  have hempty : Ledger.WellSigned [] := fun e he => by cases he
  exact (hempty.withParcel {} (by decide)).withParcel outskirts (by decide)

/-- A crier who is told to count says something: the slot of the one method is at the offset of the
other. -/
theorem crier_counts_text :
    Reached census village ∧ census.WellSigned ∧ village.nameOf 5 = "Crier" ∧
      village.offsets count ≠ 0 ∧ village.resolve 5 count = .ok (.custom (.tag 0)) ∧
      (Code.custom (.tag 0)).signature = .text ∧ count.signature = .number :=
  ⟨reached_village, wellSigned_census, by decide +kernel, by decide +kernel, by decide +kernel, rfl,
    rfl⟩

/-- A crier says texts, as does every object, and counts at the wrong signature; a bare object stops
when it is told to count. -/
theorem resolve_signed_village :
    (∃ code, village.resolve 5 say = .ok code ∧ code.signature = .text) ∧
      (∃ code, village.resolve 5 CoreMethod.objToString = .ok code ∧ code.signature = .text) ∧
      (∃ code, village.resolve 5 count = .ok code ∧ code.signature ≠ .number) ∧
      village.resolve 0 count = .error (.slotOutOfRange "Clownfish::Obj" 136) := by
  have hsigned := fun d (hd : d < census.length) m =>
    resolve_signed reached_village wellSigned_census hd m
  have hlength : census.length = 7 := by decide +kernel
  have hcrier := hsigned 5 (by omega)
  have hname : village.nameOf 0 = "Clownfish::Obj" := by decide +kernel
  have hoffset : village.offsets count = 136 := by decide +kernel
  refine ⟨?_, ?_, ?_, ?_⟩
  · exact (hcrier say).2.1 5 (by decide +kernel) (by decide +kernel)
  · exact (hcrier _).2.1 0 (by decide +kernel) (by decide +kernel)
  · exact (hcrier count).2.2.2 ⟨say, by decide +kernel, by decide +kernel, by decide⟩
  · have hnone : ∀ o ∈ census.layout 0, village.offsets o ≠ village.offsets count := by
      decide +kernel
    rw [← hname, ← hoffset]
    rcases (hsigned 0 (by omega) count).1 with ⟨o, ho, -, heq, -⟩ | ⟨-, hstops⟩
    · exact absurd heq (hnone o ho)
    · exact hstops

end Village

end ObjectSystem
