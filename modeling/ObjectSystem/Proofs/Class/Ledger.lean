import Mathlib.Data.List.Nodup
import Mathlib.Data.List.Find
import Mathlib.Logic.Relation
import ObjectSystem.Class.Bootstrap

/-! # Ledgers

A `Ledger` lists what went into the classes of a world, the last class first.  It says nothing of
offsets, sizes and vtables; what a class does for a method is read off the ledger alone.

`origin` follows a reference that overrides or keeps a method to the reference that introduced it.
`layout` lists the references that the slots of a class were introduced by, and `dispatch` is the
function that the nearest class on the way up has put into such a slot.

Two conditions are on the side of whoever writes specs: no reference is named twice (`refs`), and
what is overridden or kept was named by a proper ancestor (`Anchored`).  `Grounded` is what the
building of classes sees to. -/

namespace ObjectSystem

/-- What went into a class. -/
structure Entry where
  parent : Option ClassId := none
  final : Bool := false
  novel : List NovelSpec := []
  overridden : List OverriddenSpec := []
  inherited : List InheritedSpec := []
  /-- The functions of the host that took the place of others, in order. -/
  callbacks : List (MethodRef × Code) := []

namespace Entry

/-- The references that a class names as its own. -/
def own (e : Entry) : List MethodRef :=
  e.novel.map (·.method) ++ (e.overridden.map (·.method) ++ e.inherited.map (·.method))

/-- The references of a class that stand for one of an ancestor, with the one they stand for. -/
def links (e : Entry) : List (MethodRef × MethodRef) :=
  e.overridden.map (fun s => (s.method, s.parent)) ++
    e.inherited.map (fun s => (s.method, s.parent))

/-- The functions that a class puts into slots, in order, with a reference to the slot. -/
def installs (e : Entry) : List (MethodRef × Code) :=
  e.overridden.map (fun s => (s.parent, s.code)) ++
    (e.novel.map (fun s => (s.method, s.code)) ++ e.callbacks)

theorem keys_links (e : Entry) :
    e.links.map Prod.fst = e.overridden.map (·.method) ++ e.inherited.map (·.method) := by
  simp [links, Function.comp_def]

end Entry

/-- What went into the classes of a world, the last class first. -/
abbrev Ledger := List Entry

namespace Ledger

/-- What went into a class. -/
def entry : Ledger → ClassId → Entry
  | [], _ => {}
  | e :: older, c => if c = older.length then e else entry older c

/-- A class and its ancestors, the nearest first. -/
def lineage : Ledger → ClassId → List ClassId
  | [], _ => []
  | e :: older, c =>
    if c = older.length then c :: e.parent.elim [] (lineage older) else lineage older c

/-- The references that introduced the slots of a class, in the order of the slots. -/
def layout : Ledger → ClassId → List MethodRef
  | [], _ => []
  | e :: older, c =>
    if c = older.length then e.parent.elim [] (layout older) ++ e.novel.map (·.method)
    else layout older c

/-- The reference that introduced the slot that a reference stands for. -/
def origin : Ledger → MethodRef → MethodRef
  | [], m => m
  | e :: older, m => origin older ((e.links.lookup m).getD m)

/-- The last of some functions that are put into the slot that `o` introduced. -/
def installed (L : Ledger) (is : List (MethodRef × Code)) (o : MethodRef) : Option Code :=
  (is.reverse.find? fun i => L.origin i.1 = o).map Prod.snd

/-- What a class has in the slot that `o` introduced: what the nearest class on the way up has put
there. -/
def dispatch (L : Ledger) (c : ClassId) (o : MethodRef) : Option Code :=
  (L.lineage c).findSome? fun a => L.installed (L.entry a).installs o

/-- All references that some class names as its own. -/
def refs (L : Ledger) : List MethodRef := L.flatMap Entry.own

/-- What a class overrides or keeps was named by one of its proper ancestors. -/
def Anchored : Ledger → Prop
  | [] => True
  | e :: older => Anchored older ∧
    ∀ l ∈ e.links, ∃ a ∈ e.parent.elim [] (lineage older), l.2 ∈ (entry older a).own

instance decidableAnchored : (L : Ledger) → Decidable L.Anchored
  | [] => .isTrue trivial
  | e :: older =>
    have := decidableAnchored older
    inferInstanceAs (Decidable (Anchored older ∧
      ∀ l ∈ e.links, ∃ a ∈ e.parent.elim [] (lineage older), l.2 ∈ (entry older a).own))

/-- A parent is older than its child, and what the host took the place of are slots that the parent
has. -/
def Grounded : Ledger → Prop
  | [] => True
  | e :: older => Grounded older ∧ (∀ p : Nat, e.parent = some p → p < older.length) ∧
    ∀ i ∈ e.callbacks, i.1 ∈ e.parent.elim [] (layout older)

/-- The reference `m` overrides or keeps `q`. -/
def StandsFor (L : Ledger) (m q : MethodRef) : Prop := ∃ c, (m, q) ∈ (L.entry c).links

structure WellFormed (L : Ledger) : Prop where
  once : L.refs.Nodup
  anchored : L.Anchored
  grounded : L.Grounded

variable {L older : Ledger} {e : Entry} {c a p : Nat} {m q o : MethodRef}

/-! ### Newer and older classes -/

@[simp] theorem entry_self (e : Entry) (older : Ledger) : entry (e :: older) older.length = e :=
  if_pos rfl

theorem entry_cons (h : c ≠ older.length) : entry (e :: older) c = entry older c := if_neg h

@[simp] theorem lineage_self (e : Entry) (older : Ledger) :
    lineage (e :: older) older.length = older.length :: e.parent.elim [] older.lineage :=
  if_pos rfl

theorem lineage_cons (h : c ≠ older.length) : lineage (e :: older) c = lineage older c := if_neg h

@[simp] theorem layout_self (e : Entry) (older : Ledger) :
    layout (e :: older) older.length =
      e.parent.elim [] older.layout ++ e.novel.map (·.method) :=
  if_pos rfl

theorem layout_cons (h : c ≠ older.length) : layout (e :: older) c = layout older c := if_neg h

theorem mem_above {α : Type} {f : ClassId → List α} {x : α} {parent : Option ClassId} :
    x ∈ parent.elim [] f ↔ ∃ p : Nat, parent = some p ∧ x ∈ f p := by
  cases parent with
  | none => simp
  | some p => simp

/-- A class that is not in the ledger has no lineage, and every other one begins it. -/
theorem lt_of_mem_lineage (h : a ∈ L.lineage c) : a < L.length ∧ c < L.length := by
  induction L generalizing a c with
  | nil => cases h
  | cons e older ih =>
    rw [List.length_cons]
    by_cases hc : c = older.length
    · subst hc
      rw [lineage_self, List.mem_cons] at h
      rcases h with rfl | h
      · omega
      · obtain ⟨p, -, hmem⟩ := mem_above.1 h
        have := ih hmem
        omega
    · rw [lineage_cons hc] at h
      have := ih h
      omega

theorem refs_cons (e : Entry) (older : Ledger) : refs (e :: older) = e.own ++ refs older := rfl

theorem mem_refs_of_mem_own (h : m ∈ (L.entry c).own) : m ∈ L.refs := by
  induction L with
  | nil => cases h
  | cons e older ih =>
    rw [refs_cons, List.mem_append]
    by_cases hc : c = older.length
    · subst hc
      rw [entry_self] at h
      exact .inl h
    · rw [entry_cons hc] at h
      exact .inr (ih h)

theorem lt_of_mem_own (h : m ∈ (L.entry c).own) : c < L.length := by
  induction L with
  | nil => cases h
  | cons e older ih =>
    rw [List.length_cons]
    by_cases hc : c = older.length
    · omega
    · rw [entry_cons hc] at h
      have := ih h
      omega

theorem exists_of_mem_refs (h : m ∈ L.refs) : ∃ c : Nat, m ∈ (L.entry c).own := by
  induction L with
  | nil => cases h
  | cons e older ih =>
    rw [refs_cons, List.mem_append] at h
    rcases h with h | h
    · exact ⟨older.length, by rwa [entry_self]⟩
    · obtain ⟨c, hc⟩ := ih h
      exact ⟨c, by rwa [entry_cons (Nat.ne_of_lt (lt_of_mem_own hc))]⟩

theorem mem_refs_of_mem_layout (h : m ∈ L.layout c) : m ∈ L.refs := by
  induction L generalizing c with
  | nil => cases h
  | cons e older ih =>
    rw [refs_cons, List.mem_append]
    by_cases hc : c = older.length
    · subst hc
      rw [layout_self, List.mem_append] at h
      rcases h with h | h
      · obtain ⟨p, -, hmem⟩ := mem_above.1 h
        exact .inr (ih hmem)
      · exact .inl (List.mem_append_left _ h)
    · rw [layout_cons hc] at h
      exact .inr (ih h)

theorem mem_refs_of_mem_above {parent : Option ClassId} (h : m ∈ parent.elim [] L.layout) :
    m ∈ L.refs := by
  obtain ⟨p, -, hmem⟩ := mem_above.1 h
  exact mem_refs_of_mem_layout hmem

namespace WellFormed

theorem tail (h : WellFormed (e :: older)) : WellFormed older where
  once := (List.nodup_append.1 h.once).2.1
  anchored := h.anchored.1
  grounded := h.grounded.1

theorem own_nodup (h : WellFormed (e :: older)) : e.own.Nodup := (List.nodup_append.1 h.once).1

theorem not_mem_own (h : WellFormed (e :: older)) (hm : m ∈ older.refs) : m ∉ e.own :=
  fun hown => (List.nodup_append.1 h.once).2.2 m hown m hm rfl

theorem parent_lt (h : WellFormed (e :: older)) (hp : e.parent = some p) :
    p < older.length :=
  h.grounded.2.1 p hp

end WellFormed

/-! ### Where a reference comes from -/

theorem origin_cons (h : m ∉ e.links.map Prod.fst) : origin (e :: older) m = origin older m := by
  have hnone : e.links.lookup m = none := by
    rw [List.lookup_eq_none_iff]
    intro l hl
    exact bne_iff_ne.2 fun heq => h (List.mem_map.2 ⟨l, hl, heq.symm⟩)
  rw [origin, hnone, Option.getD_none]

theorem not_mem_links_of_not_mem_own (h : m ∉ e.own) : m ∉ e.links.map Prod.fst := by
  rw [Entry.keys_links]
  exact fun hm => h (List.mem_append_right _ hm)

theorem WellFormed.origin_cons (h : WellFormed (e :: older)) (hm : m ∈ older.refs) :
    origin (e :: older) m = origin older m :=
  Ledger.origin_cons (not_mem_links_of_not_mem_own (h.not_mem_own hm))

theorem origin_of_not_mem (h : m ∉ L.refs) : L.origin m = m := by
  induction L with
  | nil => rfl
  | cons e older ih =>
    rw [refs_cons, List.mem_append, not_or] at h
    rw [Ledger.origin_cons (not_mem_links_of_not_mem_own h.1), ih h.2]

theorem WellFormed.origin_link (h : WellFormed (e :: older)) (hl : (m, q) ∈ e.links) :
    origin (e :: older) m = origin older q := by
  have hkeys : (e.links.map Prod.fst).Nodup := by
    rw [Entry.keys_links]
    exact (List.nodup_append.1 h.own_nodup).2.1
  obtain ⟨s, t, hst⟩ := List.append_of_mem hl
  have hlookup : e.links.lookup m = some q := by
    refine List.lookup_eq_some_iff.2 ⟨s, t, hst, fun l hls => bne_iff_ne.2 fun heq => ?_⟩
    rw [hst, List.map_append, List.map_cons] at hkeys
    exact (List.nodup_append.1 hkeys).2.2 l.1 (List.mem_map_of_mem hls) m List.mem_cons_self
      heq.symm
  rw [origin, hlookup, Option.getD_some]

theorem WellFormed.link_mem_refs (h : WellFormed (e :: older)) (hl : (m, q) ∈ e.links) :
    q ∈ older.refs := by
  obtain ⟨a, -, ha⟩ := h.anchored.2 _ hl
  exact mem_refs_of_mem_own ha

theorem Entry.fst_mem_own_of_mem_links (hl : (m, q) ∈ e.links) : m ∈ e.own :=
  List.mem_append_right _ (e.keys_links ▸ List.mem_map_of_mem hl)

/-- What a class overrides or keeps was named by one of its ancestors. -/
theorem WellFormed.exists_ancestor (h : L.WellFormed) (hl : (m, q) ∈ (L.entry c).links) :
    ∃ a ∈ L.lineage c, q ∈ (L.entry a).own := by
  induction L with
  | nil => cases hl
  | cons e older ih =>
    by_cases hc : c = older.length
    · subst hc
      rw [entry_self] at hl
      obtain ⟨a, ha, hq⟩ := h.anchored.2 _ hl
      obtain ⟨p, -, hmem⟩ := mem_above.1 ha
      refine ⟨a, ?_, ?_⟩
      · rw [lineage_self]
        exact List.mem_cons_of_mem _ ha
      · rwa [entry_cons (Nat.ne_of_lt (lt_of_mem_lineage hmem).1)]
    · rw [entry_cons hc] at hl
      obtain ⟨a, ha, hq⟩ := ih h.tail hl
      refine ⟨a, by rwa [lineage_cons hc], ?_⟩
      rwa [entry_cons (Nat.ne_of_lt (lt_of_mem_lineage ha).1)]

theorem WellFormed.origin_standsFor (h : L.WellFormed) (hl : L.StandsFor m q) :
    L.origin m = L.origin q := by
  obtain ⟨c, hl⟩ := hl
  induction L with
  | nil => cases hl
  | cons e older ih =>
    by_cases hc : c = older.length
    · subst hc
      rw [entry_self] at hl
      rw [h.origin_link hl, h.origin_cons (h.link_mem_refs hl)]
    · rw [entry_cons hc] at hl
      obtain ⟨a, -, hq⟩ := h.tail.exists_ancestor hl
      have hm := mem_refs_of_mem_own (Entry.fst_mem_own_of_mem_links hl)
      rw [h.origin_cons hm, h.origin_cons (mem_refs_of_mem_own hq), ih h.tail hl]

theorem WellFormed.origin_novel (h : WellFormed (e :: older)) {s : NovelSpec} (hs : s ∈ e.novel) :
    origin (e :: older) s.method = s.method := by
  have hown : s.method ∈ e.own := List.mem_append_left _ (List.mem_map_of_mem hs)
  have hlinks : s.method ∉ e.links.map Prod.fst := by
    rw [Entry.keys_links]
    intro hmem
    exact (List.nodup_append.1 h.own_nodup).2.2 _ (List.mem_map_of_mem hs) _ hmem rfl
  rw [Ledger.origin_cons hlinks]
  exact origin_of_not_mem fun hm => h.not_mem_own hm hown

/-! ### The slots of a class -/

theorem WellFormed.lt_of_parent (h : L.WellFormed) (hp : (L.entry c).parent = some p) :
    p < c ∧ c < L.length := by
  induction L with
  | nil => cases hp
  | cons e older ih =>
    rw [List.length_cons]
    by_cases hc : c = older.length
    · subst hc
      rw [entry_self] at hp
      have := h.parent_lt hp
      omega
    · rw [entry_cons hc] at hp
      have := ih h.tail hp
      omega

/-- The lineage of a class is the class and then the lineage of its parent. -/
theorem WellFormed.lineage_eq (h : L.WellFormed) (hc : c < L.length) :
    L.lineage c = c :: (L.entry c).parent.elim [] L.lineage := by
  induction L with
  | nil => cases hc
  | cons e older ih =>
    have hparent : ∀ p : Nat, (entry (e :: older) c).parent = some p → p ≠ older.length := by
      intro p hp
      have := h.lt_of_parent hp
      rw [List.length_cons] at hc
      omega
    have hsame : (entry (e :: older) c).parent.elim [] (lineage (e :: older)) =
        (entry (e :: older) c).parent.elim [] (lineage older) := by
      cases hp : (entry (e :: older) c).parent with
      | none => rfl
      | some p => exact lineage_cons (hparent p hp)
    rw [hsame]
    by_cases hc' : c = older.length
    · subst hc'
      rw [lineage_self, entry_self]
    · rw [lineage_cons hc', entry_cons hc']
      rw [List.length_cons] at hc
      exact ih h.tail (by omega)

theorem layout_initial (h : a ∈ L.lineage c) : L.layout a <+: L.layout c := by
  induction L generalizing a c with
  | nil => cases h
  | cons e older ih =>
    by_cases hc : c = older.length
    · subst hc
      rw [lineage_self, List.mem_cons] at h
      rcases h with rfl | h
      · exact List.prefix_rfl
      · obtain ⟨p, hp, hmem⟩ := mem_above.1 h
        rw [layout_cons (Nat.ne_of_lt (lt_of_mem_lineage hmem).1), layout_self, hp]
        exact (ih hmem).trans (List.prefix_append _ _)
    · rw [lineage_cons hc] at h
      rw [layout_cons hc, layout_cons (Nat.ne_of_lt (lt_of_mem_lineage h).1)]
      exact ih h

theorem method_mem_layout {s : NovelSpec} (hs : s ∈ (L.entry c).novel) :
    s.method ∈ L.layout c := by
  induction L with
  | nil => cases hs
  | cons e older ih =>
    by_cases hc : c = older.length
    · subst hc
      rw [entry_self] at hs
      rw [layout_self]
      exact List.mem_append_right _ (List.mem_map_of_mem hs)
    · rw [entry_cons hc] at hs
      rw [layout_cons hc]
      exact ih hs

/-- What introduced the slot of a reference introduced a slot of every class that names it. -/
theorem WellFormed.origin_mem_layout (h : L.WellFormed) (hm : m ∈ (L.entry c).own) :
    L.origin m ∈ L.layout c := by
  induction L generalizing m c with
  | nil => cases hm
  | cons e older ih =>
    by_cases hc : c = older.length
    · subst hc
      rw [entry_self, Entry.own, ← e.keys_links] at hm
      rw [layout_self]
      rcases List.mem_append.1 hm with hnovel | hlink
      · obtain ⟨s, hs, rfl⟩ := List.mem_map.1 hnovel
        rw [h.origin_novel hs]
        exact List.mem_append_right _ hnovel
      · obtain ⟨⟨m, q⟩, hl, rfl⟩ := List.mem_map.1 hlink
        obtain ⟨a, ha, hq⟩ := h.anchored.2 _ hl
        obtain ⟨p, hp, hmem⟩ := mem_above.1 ha
        rw [h.origin_link hl, hp]
        exact List.mem_append_left _ ((layout_initial hmem).subset (ih h.tail hq))
    · rw [entry_cons hc] at hm
      rw [layout_cons hc, h.origin_cons (mem_refs_of_mem_own hm)]
      exact ih h.tail hm

theorem WellFormed.origin_mem_refs (h : L.WellFormed) (hm : m ∈ L.refs) : L.origin m ∈ L.refs := by
  obtain ⟨c, hown⟩ := exists_of_mem_refs hm
  exact mem_refs_of_mem_layout (h.origin_mem_layout hown)

theorem WellFormed.origin_of_mem_layout (h : L.WellFormed) (ho : o ∈ L.layout c) :
    L.origin o = o := by
  induction L generalizing c with
  | nil => cases ho
  | cons e older ih =>
    by_cases hc : c = older.length
    · subst hc
      rw [layout_self] at ho
      rcases List.mem_append.1 ho with habove | hnovel
      · obtain ⟨p, -, hmem⟩ := mem_above.1 habove
        rw [h.origin_cons (mem_refs_of_mem_layout hmem)]
        exact ih h.tail hmem
      · obtain ⟨s, hs, rfl⟩ := List.mem_map.1 hnovel
        exact h.origin_novel hs
    · rw [layout_cons hc] at ho
      rw [h.origin_cons (mem_refs_of_mem_layout ho)]
      exact ih h.tail ho

theorem WellFormed.layout_nodup (h : L.WellFormed) (c : Nat) : (L.layout c).Nodup := by
  induction L generalizing c with
  | nil => exact List.nodup_nil
  | cons e older ih =>
    by_cases hc : c = older.length
    · subst hc
      rw [layout_self, List.nodup_append]
      refine ⟨?_, (List.nodup_append.1 h.own_nodup).1, fun o ho r hr heq => ?_⟩
      · cases hp : e.parent with
        | none => exact List.nodup_nil
        | some p => exact ih h.tail p
      · exact h.not_mem_own (mem_refs_of_mem_above ho) (heq ▸ List.mem_append_left _ hr)
    · rw [layout_cons hc]
      exact ih h.tail c

/-! ### What is in a slot -/

theorem installed_append (is js : List (MethodRef × Code)) (o : MethodRef) :
    L.installed (is ++ js) o = (L.installed js o).or (L.installed is o) := by
  rw [installed, List.reverse_append, List.find?_append]
  cases h : js.reverse.find? fun i => L.origin i.1 = o with
  | none => simp [installed, h]
  | some i => simp [installed, h]

theorem installed_singleton (q : MethodRef) (code : Code) (o : MethodRef) :
    L.installed [(q, code)] o = if L.origin q = o then some code else none := by
  by_cases h : L.origin q = o <;> simp [installed, h]

theorem installed_cons_or (i : MethodRef × Code) (is : List (MethodRef × Code)) (o : MethodRef)
    (x : Option Code) :
    (L.installed (i :: is) o).or x =
      (L.installed is o).or (if o = L.origin i.1 then some i.2 else x) := by
  rw [← List.singleton_append, installed_append, installed_singleton, Option.or_assoc]
  by_cases ho : L.origin i.1 = o
  · rw [if_pos ho, if_pos ho.symm, Option.some_or]
  · rw [if_neg ho, if_neg (Ne.symm ho), Option.none_or]

theorem installed_eq_none {is : List (MethodRef × Code)} (h : ∀ i ∈ is, L.origin i.1 ≠ o) :
    L.installed is o = none := by
  rw [installed, Option.map_eq_none_iff, List.find?_eq_none]
  intro i hi
  simpa using h i (List.mem_reverse.1 hi)

theorem installed_congr {L' : Ledger} {is : List (MethodRef × Code)}
    (h : ∀ i ∈ is, L'.origin i.1 = L.origin i.1) : L'.installed is o = L.installed is o := by
  rw [installed, installed, List.find?_congr]
  intro i hi
  rw [h i (List.mem_reverse.1 hi)]

theorem WellFormed.mem_refs_of_mem_installs (h : L.WellFormed) {i : MethodRef × Code}
    (hi : i ∈ (L.entry c).installs) : i.1 ∈ L.refs := by
  induction L with
  | nil => cases hi
  | cons e older ih =>
    rw [refs_cons, List.mem_append]
    by_cases hc : c = older.length
    · subst hc
      rw [entry_self, Entry.installs, List.mem_append, List.mem_append] at hi
      rcases hi with hi | hi | hi
      · obtain ⟨s, hs, rfl⟩ := List.mem_map.1 hi
        exact .inr (h.link_mem_refs (List.mem_append_left _ (List.mem_map_of_mem hs)))
      · obtain ⟨s, hs, rfl⟩ := List.mem_map.1 hi
        exact .inl (List.mem_append_left _ (List.mem_map_of_mem hs))
      · exact .inr (mem_refs_of_mem_above (h.grounded.2.2 i hi))
    · rw [entry_cons hc] at hi
      exact .inr (ih h.tail hi)

theorem WellFormed.dispatch_cons (h : WellFormed (e :: older)) (hc : c ≠ older.length)
    (o : MethodRef) : dispatch (e :: older) c o = dispatch older c o := by
  have hsame : ∀ a ∈ lineage older c, installed (e :: older) (entry (e :: older) a).installs o =
      installed older (entry older a).installs o := by
    intro a ha
    rw [entry_cons (Nat.ne_of_lt (lt_of_mem_lineage ha).1)]
    exact installed_congr fun i hi => h.origin_cons (h.tail.mem_refs_of_mem_installs hi)
  rw [dispatch, lineage_cons hc, dispatch]
  generalize lineage older c = l at hsame
  induction l with
  | nil => rfl
  | cons a l ih =>
    rw [List.findSome?_cons, List.findSome?_cons, hsame a List.mem_cons_self,
      ih fun b hb => hsame b (List.mem_cons_of_mem _ hb)]

/-- The newest class has in a slot what it put there, or else what its parent has. -/
theorem WellFormed.dispatch_self (h : WellFormed (e :: older)) (o : MethodRef) :
    dispatch (e :: older) older.length o =
      (installed (e :: older) e.installs o).or
        (e.parent.elim none fun p => dispatch older p o) := by
  rw [dispatch, lineage_self, List.findSome?_cons, entry_self]
  have habove : (e.parent.elim [] (lineage older)).findSome?
      (fun a => installed (e :: older) (entry (e :: older) a).installs o) =
        e.parent.elim none fun p => dispatch older p o := by
    cases hp : e.parent with
    | none => rfl
    | some p =>
      have hne := Nat.ne_of_lt (h.parent_lt hp)
      have := h.dispatch_cons hne o
      rwa [dispatch, lineage_cons hne] at this
  rw [habove]
  cases installed (e :: older) e.installs o <;> rfl

theorem WellFormed.installed_novel_above (h : WellFormed (e :: older))
    (ho : o ∈ e.parent.elim [] (layout older)) :
    installed (e :: older) (e.novel.map fun s => (s.method, s.code)) o = none := by
  refine installed_eq_none fun i hi heq => ?_
  obtain ⟨s, hs, rfl⟩ := List.mem_map.1 hi
  rw [h.origin_novel hs] at heq
  subst heq
  exact h.not_mem_own (mem_refs_of_mem_above ho) (List.mem_append_left _ (List.mem_map_of_mem hs))

/-- In the slot of a method that a class introduces is the function that it came with. -/
theorem WellFormed.installed_novel (h : WellFormed (e :: older)) {s : NovelSpec}
    (hs : s ∈ e.novel) : installed (e :: older) e.installs s.method = some s.code := by
  have hown : s.method ∈ e.own := List.mem_append_left _ (List.mem_map_of_mem hs)
  have hcallbacks : installed (e :: older) e.callbacks s.method = none := by
    refine installed_eq_none fun i hi heq => ?_
    obtain ⟨p, -, hmem⟩ := mem_above.1 (h.grounded.2.2 i hi)
    have hrefs := mem_refs_of_mem_layout hmem
    rw [h.origin_cons hrefs, h.tail.origin_of_mem_layout hmem] at heq
    exact h.not_mem_own hrefs (heq ▸ hown)
  have hnovel : installed (e :: older) (e.novel.map fun s => (s.method, s.code)) s.method =
      some s.code := by
    have hnodup := (List.nodup_append.1 h.own_nodup).1
    cases hfind : (e.novel.map fun s => (s.method, s.code)).reverse.find?
        fun i => origin (e :: older) i.1 = s.method with
    | none =>
      have := List.find?_eq_none.1 hfind (s.method, s.code)
        (List.mem_reverse.2 (List.mem_map_of_mem hs))
      simp [h.origin_novel hs] at this
    | some i =>
      obtain ⟨s', hs', rfl⟩ := List.mem_map.1 (List.mem_reverse.1 (List.mem_of_find?_eq_some hfind))
      have heq : s'.method = s.method := by
        rw [← h.origin_novel hs']
        simpa using List.find?_some hfind
      rw [installed, hfind, List.inj_on_of_nodup_map hnodup hs' hs heq]
      rfl
  rw [Entry.installs, installed_append, installed_append, hcallbacks, hnovel]
  rfl

/-- No slot of a class is empty. -/
theorem WellFormed.dispatch_isSome (h : L.WellFormed) (ho : o ∈ L.layout c) :
    (L.dispatch c o).isSome := by
  induction L generalizing c with
  | nil => cases ho
  | cons e older ih =>
    by_cases hc : c = older.length
    · subst hc
      rw [layout_self] at ho
      rw [h.dispatch_self]
      rcases List.mem_append.1 ho with habove | hnovel
      · obtain ⟨p, hp, hmem⟩ := mem_above.1 habove
        rw [hp, Option.isSome_or]
        exact Bool.or_eq_true_iff.2 (.inr (ih h.tail hmem))
      · obtain ⟨s, hs, rfl⟩ := List.mem_map.1 hnovel
        rw [h.installed_novel hs]
        rfl
    · rw [layout_cons hc] at ho
      rw [h.dispatch_cons hc]
      exact ih h.tail ho

theorem WellFormed.filled (h : WellFormed (e :: older))
    (hcallbacks : e.callbacks = []) :
    (e.parent.elim [] (layout older)).map (fun o =>
        (installed (e :: older) (e.overridden.map fun s => (s.parent, s.code)) o).or
          (e.parent.elim none fun p => dispatch older p o)) ++
        e.novel.map (fun s => some s.code) =
      (layout (e :: older) older.length).map (dispatch (e :: older) older.length) := by
  rw [layout_self, List.map_append, List.map_map]
  congr 1
  · refine List.map_congr_left fun o ho => ?_
    rw [h.dispatch_self, Entry.installs, hcallbacks, List.append_nil, installed_append,
      h.installed_novel_above ho, Option.none_or]
  · refine List.map_congr_left fun s hs => ?_
    rw [Function.comp_apply, h.dispatch_self, h.installed_novel hs, Option.some_or]

/-! ### Longer ledgers -/

theorem WellFormed.of_suffix (h : L.WellFormed) (hs : older <:+ L) : older.WellFormed := by
  obtain ⟨l, rfl⟩ := hs
  induction l with
  | nil => exact h
  | cons e l ih => exact ih h.tail

theorem ne_length_append {l : Ledger} (hc : c < older.length) : c ≠ (l ++ older).length := by
  rw [List.length_append]
  omega

theorem entry_of_suffix (hs : older <:+ L) (hc : c < older.length) : L.entry c = older.entry c := by
  obtain ⟨l, rfl⟩ := hs
  induction l with
  | nil => rfl
  | cons e l ih => exact (entry_cons (ne_length_append hc)).trans ih

theorem layout_of_suffix (hs : older <:+ L) (hc : c < older.length) :
    L.layout c = older.layout c := by
  obtain ⟨l, rfl⟩ := hs
  induction l with
  | nil => rfl
  | cons e l ih => exact (layout_cons (ne_length_append hc)).trans ih

theorem lineage_of_suffix (hs : older <:+ L) (hc : c < older.length) :
    L.lineage c = older.lineage c := by
  obtain ⟨l, rfl⟩ := hs
  induction l with
  | nil => rfl
  | cons e l ih => exact (lineage_cons (ne_length_append hc)).trans ih

theorem WellFormed.dispatch_of_suffix (h : L.WellFormed) (hs : older <:+ L)
    (hc : c < older.length) : L.dispatch c = older.dispatch c := by
  obtain ⟨l, rfl⟩ := hs
  induction l with
  | nil => rfl
  | cons e l ih => exact (funext (h.dispatch_cons (ne_length_append hc))).trans (ih h.tail)

end Ledger

end ObjectSystem
