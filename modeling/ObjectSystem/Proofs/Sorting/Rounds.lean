import ObjectSystem.Proofs.Sorting.Ready

/-! # Rounds

Items that are tied with each other need not come out of a run at once.  Whenever a run is refilled
it has one portion of them at most, and the next portion is there only when the run was refilled
again.  Merging takes the first portions of all runs, then the second ones, and so on
(`alongside`), and what it takes at a time is one portion of the engine that merges.

`Engine.portions p c e` goes through a tree of runs in this way and lists the portions in which the
items tied with `c` are still to come out of it. -/

namespace ObjectSystem.Sorting

variable {α : Type}

/-! ### Rows of portions -/

/-- The portions of one row with those of another one behind them, place by place. -/
def alongside : List (List α) → List (List α) → List (List α)
  | [], others => others
  | row, [] => row
  | a :: row, b :: others => (a ++ b) :: alongside row others

/-- The first portions of all rows, the second ones, and so on. -/
def weave (rows : List (List (List α))) : List (List α) := rows.foldr alongside []

/-- A portion before others, if there is anything in it. -/
def lead (portion : List α) (later : List (List α)) : List (List α) :=
  if portion = [] then later else portion :: later

theorem headD_alongside (row others : List (List α)) :
    (alongside row others).headD [] = row.headD [] ++ others.headD [] := by
  cases row <;> cases others <;> simp [alongside]

theorem tail_alongside (row others : List (List α)) :
    (alongside row others).tail = alongside row.tail others.tail := by
  cases row with
  | nil => rfl
  | cons a row =>
    cases others with
    | nil => cases row <;> rfl
    | cons b others => rfl

theorem not_mem_alongside {row others : List (List α)} (h : [] ∉ row) (h' : [] ∉ others) :
    [] ∉ alongside row others := by
  fun_induction alongside row others with
  | case1 others => exact h'
  | case2 row => exact h
  | case3 a row b others ih =>
    simp only [List.mem_cons, not_or] at h h' ⊢
    refine ⟨fun hab => ?_, ih h.2 h'.2⟩
    exact h.1 (List.append_eq_nil_iff.mp hab.symm).1.symm

theorem headD_weave (rows : List (List (List α))) :
    (weave rows).headD [] = rows.flatMap (·.headD []) := by
  induction rows with
  | nil => rfl
  | cons row rows ih => rw [weave, List.foldr_cons, headD_alongside, ← weave, ih, List.flatMap_cons]

theorem tail_weave (rows : List (List (List α))) :
    (weave rows).tail = weave (rows.map List.tail) := by
  induction rows with
  | nil => rfl
  | cons row rows ih =>
    rw [weave, List.foldr_cons, tail_alongside, ← weave, ih, List.map_cons, weave, weave,
      List.foldr_cons]

theorem not_mem_weave {rows : List (List (List α))} (h : ∀ row ∈ rows, [] ∉ row) :
    [] ∉ weave rows := by
  induction rows with
  | nil => simp [weave]
  | cons row rows ih =>
    rw [List.forall_mem_cons] at h
    exact not_mem_alongside h.1 (ih h.2)

theorem weave_eq_nil {rows : List (List (List α))} (h : ∀ row ∈ rows, row = []) :
    weave rows = [] := by
  induction rows with
  | nil => rfl
  | cons row rows ih =>
    rw [List.forall_mem_cons] at h
    rw [weave, List.foldr_cons, h.1]
    exact ih h.2

theorem not_mem_lead {portion : List α} {later : List (List α)} (h : [] ∉ later) :
    [] ∉ lead portion later := by
  unfold lead
  split
  · exact h
  · next hne =>
    simp only [List.mem_cons, not_or]
    exact ⟨fun heq => hne heq.symm, h⟩

theorem lead_headD_tail {row : List (List α)} (h : [] ∉ row) :
    lead (row.headD []) row.tail = row := by
  cases row with
  | nil => rfl
  | cons a row =>
    have ha : a ≠ [] := fun heq => h (heq ▸ List.mem_cons_self)
    exact if_neg ha

theorem flatten_lead (portion : List α) (later : List (List α)) :
    (lead portion later).flatten = portion ++ later.flatten := by
  unfold lead
  split
  · next hnil => rw [hnil, List.nil_append]
  · rfl

theorem flatten_weave {rows : List (List (List α))} (h : ∀ row ∈ rows, row.length ≤ 1) :
    (weave rows).flatten = rows.flatMap List.flatten := by
  have htail : weave (rows.map List.tail) = [] := weave_eq_nil <| List.forall_mem_map.mpr
    fun row hrow => List.eq_nil_of_length_eq_zero <| by
      have hone := h row hrow
      rw [List.length_tail]
      omega
  have hsplit : ∀ row : List (List α), row.flatten = row.headD [] ++ row.tail.flatten := by
    intro row
    cases row <;> rfl
  rw [hsplit, headD_weave, tail_weave, htail, List.flatten_nil, List.append_nil]
  refine List.flatMap_congr fun row hrow => ?_
  match row, h row hrow with
  | [], _ => rfl
  | [a], _ => simp

/-! ### Portions of a class of ties -/

variable {p : Policy α} {c : α}

/-- The portions in which the items tied with `c` are in the batches before the first empty one. -/
def Reader.portions (p : Policy α) (c : α) (r : Reader α) : List (List α) :=
  ((r.pending.takeWhile (!·.items.isEmpty)).map fun b => b.items.filter (p.tied c)).filter
    (!·.isEmpty)

theorem Reader.portions_eq (r : Reader α) :
    r.portions p c = lead (r.next.1.items.filter (p.tied c))
      (if r.next.1.items = [] then [] else r.next.2.portions p c) := by
  rcases r with ⟨_ | ⟨b, rest⟩⟩
  · rfl
  · by_cases h : b.items = []
    · simp [portions, next, lead, h]
    · by_cases h' : b.items.filter (p.tied c) = [] <;> simp [portions, next, lead, h, h']

theorem Reader.flatten_portions (r : Reader α) :
    (r.portions p c).flatten = r.promised.filter (p.tied c) := by
  rw [portions, promised, List.flatten_filter_not_isEmpty, ← List.flatMap_def, List.filter_flatMap]

namespace Engine

mutual

/-- The portions in which the items tied with `c` are still to come out of an engine. -/
def portions (p : Policy α) (c : α) (e : Engine α) : List (List α) :=
  match e with
  | ⟨core, runs⟩ =>
    lead (core.live.filter (p.tied c))
      (match core.reader with
      | some r => r.portions p c
      | none => portionsAll p c runs)

/-- The portions in which the items tied with `c` are still to come out of some runs. -/
def portionsAll (p : Policy α) (c : α) : List (Engine α) → List (List α)
  | [] => []
  | r :: rs => alongside (portions p c r) (portionsAll p c rs)

end

/-- The portions of what is not buffered yet. -/
def later (p : Policy α) (c : α) (e : Engine α) : List (List α) :=
  match e.reader with
  | some r => r.portions p c
  | none => portionsAll p c e.runs

theorem portions_eq (p : Policy α) (c : α) (e : Engine α) :
    e.portions p c = lead (e.live.filter (p.tied c)) (e.later p c) := by
  rcases e with ⟨core, runs⟩
  rw [portions]
  rfl

theorem portionsAll_eq (p : Policy α) (c : α) (runs : List (Engine α)) :
    portionsAll p c runs = weave (runs.map (portions p c)) := by
  induction runs with
  | nil => rfl
  | cons r rs ih =>
    rw [portionsAll, ih]
    rfl

mutual

theorem portions_eq_nil (e : Engine α) (h : e.due.filter (p.tied c) = []) :
    e.portions p c = [] := by
  match e with
  | ⟨core, runs⟩ =>
    rw [due, List.filter_append, List.append_eq_nil_iff] at h
    rw [portions, h.1, lead, if_pos rfl]
    cases hr : core.reader with
    | some r =>
      rw [hr] at h
      have hflat := r.flatten_portions.trans h.2
      rw [List.flatten_eq_nil_iff] at hflat
      refine List.eq_nil_iff_forall_not_mem.mpr fun portion hmem => ?_
      have hne := (List.mem_filter.mp hmem).2
      rw [hflat portion hmem] at hne
      cases hne
    | none =>
      rw [hr] at h
      exact portionsAll_eq_nil runs h.2

theorem portionsAll_eq_nil (runs : List (Engine α)) (h : (dueAll runs).filter (p.tied c) = []) :
    portionsAll p c runs = [] := by
  match runs with
  | [] => rfl
  | r :: rs =>
    rw [dueAll, List.filter_append, List.append_eq_nil_iff] at h
    rw [portionsAll, portions_eq_nil r h.1]
    exact portionsAll_eq_nil rs h.2

end

theorem later_eq_nil {e : Engine α} (h : e.beyond.filter (p.tied c) = []) : e.later p c = [] := by
  have hrest : (⟨{ e.toCore with buffer := {}, tick := 0 }, e.runs⟩ : Engine α).portions p c =
      e.later p c := portions_eq p c _
  rw [← hrest]
  refine portions_eq_nil _ ?_
  rw [due_eq]
  exact h

theorem not_mem_reader_portions (r : Reader α) : [] ∉ r.portions p c := by
  intro hmem
  have hne := (List.mem_filter.mp hmem).2
  cases hne

mutual

theorem not_mem_portions (e : Engine α) : [] ∉ e.portions p c := by
  match e with
  | ⟨core, runs⟩ =>
    rw [portions]
    refine not_mem_lead ?_
    cases core.reader with
    | some r => exact not_mem_reader_portions r
    | none => exact not_mem_portionsAll runs

theorem not_mem_portionsAll (runs : List (Engine α)) : [] ∉ portionsAll p c runs := by
  match runs with
  | [] => exact List.not_mem_nil
  | r :: rs =>
    rw [portionsAll]
    exact not_mem_alongside (not_mem_portions r) (not_mem_portionsAll rs)

end

/-! ### Taking slots off the front -/

section

variable [Std.TransCmp p.compare] {steady : Prop} {e : Engine α} {post last : α}

theorem Ready.portions_dropFront_of_gt (h : Ready p steady e) (hc : ¬ p.le c post = true) :
    (e.live.filter (p.le · post)).filter (p.tied c) = [] ∧
      (Engine.dropFront (sliceSize p post e) e).portions p c = e.portions p c := by
  have hgt : ∀ x, p.tied c x → ¬ p.le x post = true := fun x hx hle =>
    hc (Policy.le_trans _ _ _ (Policy.le_of_tied hx) hle)
  constructor
  · refine List.filter_eq_nil_iff.mpr fun x hx htied => ?_
    exact hgt x htied (List.mem_filter.mp hx).2
  · rw [portions_eq, portions_eq, h.inRow.live_dropFront, List.filter_filter]
    refine congrArg (lead · _) (List.filter_congr fun x _ => ?_)
    by_cases htied : p.tied c x
    · simp [htied, hgt x htied]
    · simp [htied]

/-- The first portion of what does not come after `post` is in a front that ends with it, and the
other ones are left. -/
theorem Ready.portions_dropFront_of_le (h : Ready p steady e) (hlast : last ∈ e.live)
    (hle : p.le post last) (hc : p.le c post) :
    (e.portions p c).headD [] = (e.live.filter (p.le · post)).filter (p.tied c) ∧
      (e.portions p c).tail = (Engine.dropFront (sliceSize p post e) e).portions p c := by
  have hlow : ∀ x, p.tied c x → p.le x post := fun x hx =>
    Policy.le_trans _ _ _ (Policy.le_of_tied (Policy.tied_symm hx)) hc
  have hfront : (e.live.filter (p.le · post)).filter (p.tied c) = e.live.filter (p.tied c) := by
    rw [List.filter_filter]
    refine List.filter_congr fun x _ => ?_
    by_cases htied : p.tied c x
    · simp [htied, hlow x htied]
    · simp [htied]
  have hrest : (e.live.filter (!p.le · post)).filter (p.tied c) = [] := by
    refine List.filter_eq_nil_iff.mpr fun x hx htied => ?_
    have hgt := (List.mem_filter.mp hx).2
    rw [hlow x htied] at hgt
    cases hgt
  have hdrop : (Engine.dropFront (sliceSize p post e) e).portions p c = e.later p c := by
    rw [portions_eq, h.inRow.live_dropFront, hrest]
    exact if_pos rfl
  have hover : e.live.filter (p.tied c) = [] → e.later p c = [] := by
    intro hnone
    refine later_eq_nil (List.filter_eq_nil_iff.mpr fun y hy htied => ?_)
    have hcl : p.le c last := Policy.le_trans _ _ _ hc hle
    have hlc : p.le last c := Policy.le_trans _ _ _ (h.live_precedes last hlast y hy).1
      (Policy.le_of_tied (Policy.tied_symm htied))
    exact List.filter_eq_nil_iff.mp hnone last hlast (Policy.tied_of_le_of_le hcl hlc)
  rw [hfront, hdrop, portions_eq, lead]
  split
  · next hnone =>
    rw [hnone, hover hnone]
    exact ⟨rfl, rfl⟩
  · exact ⟨rfl, rfl⟩

end

end Engine

end ObjectSystem.Sorting
