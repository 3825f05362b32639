import Mathlib.Data.List.Perm.Basic
import ObjectSystem.Proofs.Sorting.Refill

/-! # Runs that lose nothing

For merging to lose nothing it is enough that the buffer of every run is in order, and so is every
batch of a reader; nothing need be said of how the buffers and batches of an engine compare with
what comes after them.  `Tame p e` says this of all levels of a tree.

A refill keeps an engine tame and keeps what is due from it (`refill_tame`).  Only a reader that
goes on after an empty batch brings something that was not promised before (`renewed`). -/

namespace ObjectSystem.Sorting.Engine

variable {α : Type} {p : Policy α}

/-- At every level what is buffered is in order, and so is every batch of a reader. -/
inductive Tame (p : Policy α) : Engine α → Prop
  | merging {core : Core α} {runs : List (Engine α)} (row : core.InRow p)
      (reader : core.reader = none) (runs_tame : ∀ r ∈ runs, Tame p r) : Tame p ⟨core, runs⟩
  | serving {core : Core α} {runs : List (Engine α)} {r : Reader α} (row : core.InRow p)
      (reader : core.reader = some r) (batches : ∀ b ∈ r.pending, b.items.Pairwise (p.le · ·)) :
      Tame p ⟨core, runs⟩

/-- What the reader of an engine would hand out after the empty batch that comes next. -/
def renewed (e : Engine α) : List α :=
  match e.reader with
  | none => []
  | some r => if e.buffered = 0 ∧ r.next.1.items = [] then r.next.2.promised else []

theorem renewed_of_no_reader {e : Engine α} (h : e.reader = none) : e.renewed = [] := by
  rw [renewed, h]

namespace Tame

variable {e : Engine α}

theorem row (h : Tame p e) : e.toCore.InRow p := by
  cases h <;> assumption

theorem of_row (h : Tame p e) {core : Core α} (hr : core.reader = e.reader)
    (hrow : core.InRow p) : Tame p ⟨core, e.runs⟩ := by
  cases h with
  | merging _ reader runs_tame => exact .merging hrow (hr.trans reader) runs_tame
  | serving _ reader batches => exact .serving hrow (hr.trans reader) batches

theorem leaf {core : Core α} (hrow : core.InRow p) (hr : core.reader = none) :
    Tame p ⟨core, []⟩ :=
  .merging hrow hr (by simp)

theorem append (h : Tame p e) {r : Engine α} (hr : e.reader = none → Tame p r) :
    Tame p { e with runs := e.runs ++ [r] } := by
  cases h with
  | merging row reader runs_tame =>
    refine .merging row reader fun s hs => ?_
    rcases List.mem_append.mp hs with hs | hs
    · exact runs_tame s hs
    · exact List.mem_singleton.mp hs ▸ hr reader
  | serving row reader batches => exact .serving row reader batches

theorem shrunk (h : Tame p e) : Tame p (Engine.shrunk e) ∧ (Engine.shrunk e).due = e.due := by
  induction h with
  | @merging core runs row reader _ ih =>
    have hruns : dueAll (runs.map Engine.shrunk) = dueAll runs :=
      dueAll_map fun r hr => (ih r hr).2
    have htame : ∀ r ∈ runs.map Engine.shrunk, Tame p r :=
      List.forall_mem_map.mpr fun r hr => (ih r hr).1
    rw [Engine.shrunk, shrunkAll_eq_map]
    refine ⟨.merging ⟨row.window, row.sorted⟩ reader htame, ?_⟩
    rw [due, due, hruns]
    rfl
  | @serving core runs r row reader batches =>
    rw [Engine.shrunk]
    refine ⟨.serving ⟨row.window, row.sorted⟩ reader batches, ?_⟩
    have hreader : core.reader = some r := reader
    rw [due, due, hreader]
    rfl

end Tame

/-- What is still to come is the same, and the engine is tame. -/
structure Stays (p : Policy α) (e' e : Engine α) : Prop where
  tame : Tame p e'
  due : e'.due.Perm e.due

/-- What a refill leaves alone. -/
structure Framed (e' e : Engine α) : Prop where
  reader : e'.reader.isSome = e.reader.isSome
  flipped : e'.flipped = e.flipped
  fetched : e'.fetched = e.fetched
  tick : e'.tick = 0
  draining : e'.draining = true
  runs : e.runs = [] → e'.runs = []

/-- What a refill that answers `n` makes of a tame engine. -/
structure Kept (p : Policy α) (e e' : Engine α) (n : Nat) : Prop where
  refilled : Refilled (Stays p) e e' n
  framed : Framed e' e
  tame : Tame p e'
  due : e'.due.Perm (e.due ++ e.renewed)

/-- An engine that serves a reader takes the next batch. -/
theorem refill_serving {core : Core α} {runs : List (Engine α)} {r : Reader α}
    (reader : core.reader = some r) (batches : ∀ b ∈ r.pending, b.items.Pairwise (p.le · ·))
    (hb : core.buffered = 0) (hlive : core.live = []) :
    ∃ e' n, refill p ⟨core, runs⟩ = ⟨e', .ok n, []⟩ ∧ Kept p ⟨core, runs⟩ e' n := by
  obtain ⟨c, heq, hw, hreader, hflipped, hfetched, htick, hdraining, -⟩ :=
    @refill_of_reader _ p runs core r reader hb
  have hl := Core.live_eq hw
  have hisSome : c.reader.isSome = core.reader.isSome := by
    rw [hreader, reader]
    rfl
  have hbatches : r.next.1.items.Pairwise (p.le · ·) ∧
      ∀ b ∈ r.next.2.pending, b.items.Pairwise (p.le · ·) := by
    rcases r with ⟨_ | ⟨b, rest⟩⟩
    · exact ⟨.nil, batches⟩
    · exact List.forall_mem_cons.mp batches
  have htame : Tame p ⟨c, runs⟩ := .serving (.of_window hw hbatches.1) hreader hbatches.2
  have hdue : (⟨core, runs⟩ : Engine α).due = r.promised := due_of_reader reader hlive
  have hrenewed : (⟨core, runs⟩ : Engine α).renewed =
      if r.next.1.items = [] then r.next.2.promised else [] := by
    have hbuffered : (⟨core, runs⟩ : Engine α).buffered = 0 := hb
    rw [renewed]
    simp only [reader, hbuffered, true_and]
  have hperm : (⟨c, runs⟩ : Engine α).due.Perm
      ((⟨core, runs⟩ : Engine α).due ++ (⟨core, runs⟩ : Engine α).renewed) := by
    rw [hdue, hrenewed, r.promised_eq, due, hl, hreader]
    by_cases hnil : r.next.1.items = [] <;> simp [hnil]
  refine ⟨⟨c, runs⟩, _, heq, ⟨congrArg List.length hl.symm, fun hn => ?_, hisSome, hdraining,
    fun hsame => ⟨htame, ?_⟩⟩, ⟨hisSome, hflipped, hfetched, htick, hdraining, id⟩, htame, hperm⟩
  · rw [hdue, r.promised_eq, List.eq_nil_of_length_eq_zero hn]
    rfl
  · rcases hsame with hn | hn
    · rwa [hrenewed, if_neg (List.length_pos_iff.mp hn), List.append_nil] at hperm
    · have hnone : core.reader = none := hn
      rw [hnone] at reader
      cases reader

variable [Std.TransCmp p.compare]

theorem Tame.dropFront {e : Engine α} (h : Tame p e) (post : α) :
    Tame p (Engine.dropFront (sliceSize p post e) e) :=
  h.of_row rfl (h.row.dropFront post)

/-- Merging from tame runs that all have something buffered loses nothing, and leaves nothing only
if nothing is due. -/
theorem mergeRuns_tame {core : Core α} {runs : List (Engine α)} (hr : core.reader = none)
    (hb : core.buffer.slots = []) (ht : core.tick = 0) (hd : core.draining = true)
    (h : ∀ r ∈ runs, Tame p r ∧ r.live ≠ []) :
    ∃ e es, mergeRuns p ⟨core, runs⟩ = ⟨e, .ok (), es⟩ ∧ Stays p e ⟨core, runs⟩ ∧
      Framed e ⟨core, runs⟩ ∧ (e.live = [] → dueAll runs = []) := by
  have hlive : core.live = [] := by simp [Core.live, Core.window, hb]
  have hrow : core.InRow p := ⟨by simp [hlive, Core.window, hb], hlive ▸ .nil⟩
  by_cases hruns : runs = []
  · subst hruns
    exact ⟨_, [], rfl, ⟨.leaf hrow hr, .refl _⟩, ⟨rfl, rfl, rfl, ht, hd, fun _ => rfl⟩,
      fun _ => rfl⟩
  · have hrows : ∀ r ∈ runs, r.toCore.InRow p := fun r hr => (h r hr).1.row
    obtain ⟨post, es, heq, ⟨r, hrmem, hmem⟩, -⟩ :=
      mergeRuns_eq (fun r hr => ⟨hrows r hr, (h r hr).2⟩) hruns
    obtain ⟨hinRow, hmerged⟩ := absorb_row ht hrows
    refine ⟨_, es, heq, ⟨.merging hinRow hr ?_, ?_⟩,
      ⟨rfl, rfl, rfl, ht, hd, fun hnil => absurd hnil hruns⟩, fun hnil => ?_⟩
    · exact List.forall_mem_map.mpr fun r hr => (h r hr).1.dropFront post
    · rw [(used_up p runs hr hlive).1, dueAll_split post hrows]
      exact (due_absorb hr ▸ hmerged.perm.append_right _).trans (List.flatMap_append_perm _ _ _)
    · have hpost := (mem_absorb ht hrows post).mpr ⟨r, hrmem, hmem, Policy.le_refl post⟩
      rw [hnil] at hpost
      cases hpost

/-- A refill of a tame engine. -/
theorem refill_tame {e : Engine α} (h : Tame p e) (hb : e.buffered = 0) :
    ∃ e' n es, refill p e = ⟨e', .ok n, es⟩ ∧ Kept p e e' n := by
  have hlive : e.live = [] :=
    List.eq_nil_of_length_eq_zero (Core.buffered_eq h.row.window ▸ hb)
  induction h with
  | @merging core runs row reader runs_tame ih =>
    have hself : ∀ r ∈ runs, Stays p r r := fun r hr => ⟨runs_tame r hr, .refl _⟩
    have hrefill : ∀ r ∈ runs, r.buffered = 0 → r.live = [] →
        ∃ r' n es, refill p r = ⟨r', .ok n, es⟩ ∧ Refilled (Stays p) r r' n := by
      intro r hr hb hlive
      obtain ⟨r', n, es, heq, hkept⟩ := ih r hr hb hlive
      exact ⟨r', n, es, heq, hkept.refilled⟩
    obtain ⟨rs, es, heq, hrs⟩ := refillRuns_survivors fun r hr =>
      ⟨Core.buffered_eq (runs_tame r hr).row.window, hself r hr, hrefill r hr⟩
    have hfit : ∀ r ∈ rs, Tame p r ∧ r.live ≠ [] := fun r hr => by
      obtain ⟨hlive, _, _, hsame⟩ := hrs.exists_of_mem r hr
      exact ⟨hsame.tame, hlive⟩
    have hdue : p.Rearranges False (dueAll rs) (dueAll runs) :=
      hrs.due fun _ _ h => ⟨h.due, False.elim⟩
    obtain ⟨e', es', heq', hstays, hframed, hnil⟩ :=
      @mergeRuns_tame _ p _ { core.clear with draining := true } rs reader rfl rfl rfl hfit
    have hperm : e'.due.Perm (⟨core, runs⟩ : Engine α).due := by
      have hcleared := (@used_up _ p { core.clear with draining := true } rs reader rfl).1
      rw [(used_up p runs reader hlive).1]
      exact (hcleared ▸ hstays.due).trans hdue.perm
    have hlen := Core.buffered_eq hstays.tame.row.window
    refine ⟨e', e'.buffered, es ++ es', refill_of_runs reader hb heq heq',
      ⟨hlen, fun hn => ?_, hframed.reader, hframed.draining, fun _ => ⟨hstays.tame, hperm⟩⟩,
      ⟨hframed.reader, hframed.flipped, hframed.fetched, hframed.tick, hframed.draining,
        fun hruns => hframed.runs ?_⟩, hstays.tame, ?_⟩
    · have hrest := hnil (List.eq_nil_of_length_eq_zero (hlen ▸ hn))
      rw [(used_up p runs reader hlive).1]
      exact (hrest ▸ hdue.perm).nil_eq.symm
    · have hnone : runs = [] := hruns
      subst hnone
      cases hrs
      rfl
    · rw [renewed_of_no_reader reader, List.append_nil]
      exact hperm
  | @serving core runs r row reader batches =>
    obtain ⟨e', n, heq, hkept⟩ := @refill_serving _ p core runs r reader batches hb hlive
    exact ⟨e', n, [], heq, hkept⟩

end ObjectSystem.Sorting.Engine
