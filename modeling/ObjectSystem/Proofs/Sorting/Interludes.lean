import ObjectSystem.Proofs.Sorting.Room

/-! # Between fetches

Looking at the next item, refilling a used-up buffer, and making or giving back room are no part of
what an engine is read for.  `fetches_of_interludes` says that they make no difference: a flipped
engine answers the same fetches with the same items, whatever of this is called in between, and
every peek shows what the next fetch takes.  While an engine is put together, making and giving back
room changes no later answer of any kind.

A peek may merge from the runs long before the fetch that would have done so.  What carries the
proof is `SameReads`: after such a call the engine may be another one, but answers all reads as
before (`Opened.interlude`).  That needs an engine that has nothing left to stay that way
(`Spent.readAll_eq`), and so a reader that goes on being empty once it was. -/

namespace ObjectSystem.Sorting

variable {α : Type}

/-- A reader that has handed out an empty batch goes on handing out empty ones. -/
def Reader.StaysEmpty (r : Reader α) : Prop :=
  r.pending.Pairwise fun b b' => b.items = [] → b'.items = []

theorem Reader.StaysEmpty.next {r : Reader α} (h : r.StaysEmpty) : r.next.2.StaysEmpty := by
  rcases r with ⟨_ | ⟨b, rest⟩⟩
  · exact h
  · exact List.Pairwise.of_cons h

theorem Reader.StaysEmpty.items_next {r : Reader α} (h : r.StaysEmpty)
    (hnone : r.next.1.items = []) : r.next.2.items = [] := by
  rcases r with ⟨_ | ⟨b, rest⟩⟩
  · rfl
  · exact List.flatMap_eq_nil_iff.mpr fun b' hb' => List.rel_of_pairwise_cons h hb' hnone

namespace Engine

variable {p : Policy α} {e e' : Engine α}

namespace Call

/-- Whether an item is asked for. -/
def isFetch : Call α → Bool
  | fetch => true
  | _ => false

/-- Whether the call is no part of what an engine is read for: it looks at the next item, refills
the buffer, or is about room. -/
def isInterlude : Call α → Bool
  | peek | refill | shrink | growBuffer _ => true
  | _ => false

theorem isFetch_iff {c : Call α} : c.isFetch = true ↔ c = fetch := by
  cases c <;> simp [isFetch]

theorem not_isFetch {c : Call α} (h : c.isInterlude = true) : ¬ c.isFetch = true := by
  intro hf
  obtain rfl := isFetch_iff.mp hf
  cases h

end Call

/-! ### Engines with nothing left -/

/-- An engine that has nothing to give, now or later: its reader has no items left, or merging from
its runs leaves it as it is. -/
structure Spent (p : Policy α) (e : Engine α) : Prop where
  settled : e.flipped = true ∨ e.runs = []
  used_up : e.buffered = 0
  draining : e.draining = true
  still : (∃ r, e.reader = some r ∧ r.items = []) ∨
    e.reader = none ∧ ∃ es, refill p e = ⟨e, .ok 0, es⟩

theorem setDraining_self (h : e.draining = true) :
    ({ e with draining := true } : Engine α) = e := by
  rcases e with ⟨core, runs⟩
  show (⟨{ core with draining := true }, runs⟩ : Engine α) = ⟨core, runs⟩
  rw [← show core.draining = true from h]

theorem ready_of_refill_none {es : List Event} (hsettled : e.flipped = true ∨ e.runs = [])
    (hb : e.buffered = 0) (hd : e.draining = true) (heq : refill p e = ⟨e', .ok 0, es⟩) :
    ready p e = ⟨e', .ok false, es⟩ := by
  rw [ready_of_used_up hsettled hb ((setDraining_self hd).symm ▸ heq)]
  rfl

theorem Spent.ready_eq (h : Spent p e) : ∃ e' es, ready p e = ⟨e', .ok false, es⟩ ∧ Spent p e' := by
  obtain ⟨hsettled, hb, hd, ⟨r, hr, hitems⟩ | ⟨hr, es, hrefill⟩⟩ := h
  · rcases e with ⟨core, runs⟩
    obtain ⟨c, heq, hw, hreader, hflipped, -, -, hdraining, -⟩ :=
      @refill_of_reader _ p runs core r hr hb
    have hnext := r.next_items
    rw [hitems] at hnext
    obtain ⟨hbatch, hrest⟩ := List.append_eq_nil_iff.mp hnext
    rw [hbatch] at hw heq
    have hused : c.buffered = 0 := by
      rw [← Core.length_window, hw]
      rfl
    exact ⟨⟨c, runs⟩, [], ready_of_refill_none hsettled hb hd heq,
      hsettled.imp_left hflipped.trans, hused, hdraining, .inl ⟨_, hreader, hrest⟩⟩
  · exact ⟨e, es, ready_of_refill_none hsettled hb hd hrefill, hsettled, hb, hd,
      .inr ⟨hr, es, hrefill⟩⟩

theorem read_of_ready_none {es : List Event} (h : ready p e = ⟨e', .ok false, es⟩) (r : Read) :
    read p r e = ⟨e', .ok none, es⟩ := by
  obtain ⟨hpeek, hfetch⟩ := read_of_ready h
  cases r
  · exact hfetch
  · exact hpeek

theorem Spent.yields_nil (h : Spent p e) : Yields p e [] := by
  intro rs
  induction rs generalizing e with
  | nil => rfl
  | cons r rs ih =>
    obtain ⟨e', es, heq, h'⟩ := h.ready_eq
    rw [readAll_cons (read_of_ready_none heq r), ih h']
    cases r <;> rfl

/-- To find out that nothing is left makes no difference to what is answered. -/
theorem Spent.readAll_eq {es : List Event} (h : Spent p e') (heq : ready p e = ⟨e', .ok false, es⟩)
    (rs : List Read) : (readAll p rs e').answer = (readAll p rs e).answer := by
  cases rs with
  | nil => rfl
  | cons r rs =>
    rw [readAll_cons (read_of_ready_none heq r), h.yields_nil, h.yields_nil]
    cases r <;> rfl

theorem dropFront_zero (e : Engine α) : dropFront 0 e = e := by
  rcases e with ⟨⟨⟨slots, capacity⟩, tick⟩, runs⟩
  simp [dropFront, Core.window]

/-- Absorbing from no run leaves everything where it is. -/
theorem absorb_of_no_slices {core : Core α} {runs : List (Engine α)} {post : α}
    (hs : core.buffer.slots = []) (hscratch : core.scratch.slots = [])
    (h : slices p post ⟨core, runs⟩ = []) : absorb p post ⟨core, runs⟩ = ⟨core, runs⟩ := by
  have hruns : runs.map (fun r => dropFront (sliceSize p post r) r) = runs := by
    refine (List.map_congr_left fun r hr => ?_).trans (List.map_id runs)
    have hnone : front (sliceSize p post r) r = [] := by
      by_contra hsome
      have hmem : front (sliceSize p post r) r ∈ slices p post ⟨core, runs⟩ :=
        List.mem_filter.mpr ⟨List.mem_map_of_mem hr, by simpa using hsome⟩
      rw [h] at hmem
      cases hmem
    have hsize : sliceSize p post r = 0 := by
      have hlen := congrArg List.length hnone
      rwa [front, List.length_take_of_le (i := sliceSize p post r) (partitionPoint_le _ _)] at hlen
    rw [hsize, dropFront_zero]
    rfl
  rcases core with ⟨⟨slots, capacity⟩, tick, ⟨slots', capacity'⟩⟩
  obtain rfl : slots = [] := hs
  obtain rfl : slots' = [] := hscratch
  rw [absorb, absorbed, h, hruns]
  simp [mergePasses, mergeAll]

/-- Merging that gives nothing changes nothing. -/
theorem mergeRuns_still {core : Core α} {runs : List (Engine α)} {es : List Event}
    (hs : core.buffer.slots = []) (ht : core.tick = 0) (hscratch : core.scratch.slots = [])
    (h : ∀ r ∈ runs, Intact r ∧ 0 < r.buffered)
    (heq : mergeRuns p ⟨core, runs⟩ = ⟨e', .ok (), es⟩) (hb : e'.buffered = 0) :
    e' = ⟨core, runs⟩ := by
  obtain ⟨post, hpost⟩ := endpost_intact (p := p) h
  cases post with
  | none =>
    have hsame : mergeRuns p ⟨core, runs⟩ = ⟨⟨core, runs⟩, .ok (), []⟩ := by
      unfold mergeRuns
      rw [hpost]
    exact congrArg Outcome.state (heq.symm.trans hsame)
  | some post =>
    obtain ⟨es', habsorb⟩ := mergeRuns_of_endpost core hpost
    obtain rfl : absorb p post ⟨core, runs⟩ = e' :=
      congrArg Outcome.state (habsorb.symm.trans heq)
    refine absorb_of_no_slices hs hscratch ?_
    have hlen : (mergeAll p.leSlots (slices p post ⟨core, runs⟩)).length = 0 := by
      rw [← hb, Core.buffered]
      show _ = (mergeAll p.leSlots (slices p post ⟨core, runs⟩)).length - core.tick
      rw [ht, Nat.sub_zero]
    have hflat : (slices p post ⟨core, runs⟩).flatten = [] := by
      rw [← List.length_eq_zero_iff, ← (mergeAll_perm p.leSlots _).length_eq, hlen]
    refine List.eq_nil_iff_forall_not_mem.mpr fun slice hslice => ?_
    have hnil := List.flatten_eq_nil_iff.mp hflat slice hslice
    have hsome := (List.mem_filter.mp hslice).2
    rw [hnil] at hsome
    cases hsome

theorem refillRuns_of_buffered : ∀ {runs : List (Engine α)}, (∀ r ∈ runs, 0 < r.buffered) →
    refillRuns p runs = ⟨runs, .ok (), []⟩
  | [], _ => rfl
  | r :: runs, h => by
    obtain ⟨hr, htail⟩ := List.forall_mem_cons.mp h
    rw [refillRuns, if_pos hr, refillRuns_of_buffered htail]
    rfl

/-- After a refill that gave nothing there is nothing left, unless a reader goes on later. -/
theorem spent_of_refill {es : List Event} (h : Intact e) (hb : e.buffered = 0)
    (hsettled : e.flipped = true ∨ e.runs = []) (hstays : ∀ r, e.reader = some r → r.StaysEmpty)
    (heq : refill p e = ⟨e', .ok 0, es⟩) : Spent p e' := by
  obtain ⟨e₁, n, es₁, heq₁, hn, -, hframed⟩ := refill_intact (p := p) h hb
  obtain ⟨rfl, hanswer, rfl⟩ := Outcome.mk.inj (heq₁.symm.trans heq)
  obtain rfl : n = 0 := Except.ok.inj hanswer
  refine ⟨hsettled.imp hframed.flipped.trans hframed.runs, hn.symm, hframed.draining, ?_⟩
  rcases e with ⟨core, runs⟩
  cases hreader : core.reader with
  | some r =>
    obtain ⟨c, heq', -, hnext, -⟩ := @refill_of_reader _ p runs core r hreader hb
    obtain ⟨rfl, hanswer, -⟩ := Outcome.mk.inj (heq.symm.trans heq')
    have hbatch : r.next.1.items = [] :=
      List.eq_nil_of_length_eq_zero (Except.ok.inj hanswer).symm
    exact .inl ⟨_, hnext, (hstays r hreader).items_next hbatch⟩
  | none =>
    obtain ⟨esr, hruns⟩ := refillRuns_intact (p := p) h.runs_intact
    set rs := (runs.map (stocked p)).filter (0 < ·.buffered) with hrs
    have hstocked : ∀ r ∈ rs, Intact r ∧ 0 < r.buffered := mem_stocked h.runs_intact
    obtain ⟨e₂, esm, hagree, -, -⟩ := strictMerge_eq (p := p) .halving core.restart rs rfl rfl
      h.filled.scratch rfl hstocked
    have hmerge := hagree.plain_eq rfl
    have hrefill := refill_of_runs hreader hb hruns hmerge
    obtain ⟨rfl, -, -⟩ := Outcome.mk.inj (heq.symm.trans hrefill)
    have hstill : e₁ = ⟨core.restart, rs⟩ :=
      mergeRuns_still rfl rfl h.filled.scratch hstocked hmerge hn.symm
    subst hstill
    have hsame : refillRuns p rs = ⟨rs, .ok (), []⟩ :=
      refillRuns_of_buffered fun r hr => (hstocked r hr).2
    exact .inr ⟨hreader, _, @refill_of_runs _ p _ _ core.restart _ _ _ hreader rfl hsame hmerge⟩

theorem refill_setDraining (hb : e.buffered = 0) :
    refill p { e with draining := true } = refill p e := by
  rcases e with ⟨core, runs⟩
  have hb' : ({ core with draining := true } : Core α).buffered = 0 := hb
  show refill p ⟨{ core with draining := true }, runs⟩ = _
  rw [refill_of_used_up runs hb, refill_of_used_up runs hb']
  rfl

/-! ### Engines that are read alike -/

/-- Both answer alike, whatever is asked of them. -/
def SameReads (p : Policy α) (e' e : Engine α) : Prop :=
  ∀ rs, (readAll p rs e').answer = (readAll p rs e).answer

namespace SameReads

theorem refl (e : Engine α) : SameReads p e e := fun _ => rfl

theorem trans {e'' : Engine α} (h : SameReads p e'' e') (h' : SameReads p e' e) :
    SameReads p e'' e := fun rs => (h rs).trans (h' rs)

end SameReads

theorem Coherent.read_eq (h : Coherent e) (r : Read) :
    ∃ e' item es, read p r e = ⟨e', .ok item, es⟩ ∧ Coherent e' := by
  cases r with
  | fetch =>
    obtain ⟨e', item, es, heq, h', -⟩ := h.fetch_eq (p := p)
    exact ⟨e', item, es, heq, h'⟩
  | peek =>
    obtain ⟨e', item, es, heq, hbegun⟩ := h.peek_eq (p := p)
    exact ⟨e', item, es, heq, hbegun.coherent⟩

/-- Where the items are kept makes no difference to what is answered. -/
theorem SameReads.of_alike (h' : Coherent e') (h : Coherent e) (ha : Alike e' e) :
    SameReads p e' e := by
  intro rs
  induction rs generalizing e' e with
  | nil => rfl
  | cons r rs ih =>
    obtain ⟨s', item', es', heq', hs'⟩ := h'.read_eq (p := p) r
    obtain ⟨s, item, es, heq, hs⟩ := h.read_eq (p := p) r
    have hmatch : Matches (read p r e') (read p r e) := by
      cases r
      · exact fetch_matches h' h ha
      · exact peek_matches h' h ha
    rw [heq, heq'] at hmatch
    obtain ⟨hstate, hanswer, -⟩ := hmatch
    obtain rfl : item' = item := Except.ok.inj hanswer
    rw [readAll_cons heq, readAll_cons heq', ih hs' hs hstate]

/-- Engines that answer alike answer the next read alike, and go on to answer alike. -/
theorem SameReads.read {s s' : Engine α} {r : Read} {item item' : Option α} {es es' : List Event}
    (h : SameReads p e' e) (heq' : Engine.read p r e' = ⟨s', .ok item', es'⟩)
    (heq : Engine.read p r e = ⟨s, .ok item, es⟩) : item' = item ∧ SameReads p s' s := by
  have hcons : ∀ rs, (readAll p rs s').answer.map (item' :: ·) =
      (readAll p rs s).answer.map (item :: ·) := by
    intro rs
    rw [← readAll_cons heq, ← readAll_cons heq', h]
  have hitem : item' = item := (List.cons.inj (Except.ok.inj (hcons []))).1
  subst hitem
  have hinj : ∀ a b : Except Stop (List (Option α)),
      a.map (item' :: ·) = b.map (item' :: ·) → a = b := by
    rintro (stop | items) (stop' | items') hab <;> simp_all [Except.map]
  exact ⟨rfl, fun rs => hinj _ _ (hcons rs)⟩

/-- An engine that can be read: it is flipped, and its reader stays empty once it is. -/
structure Opened (e : Engine α) : Prop where
  coherent : Coherent e
  flipped : e.flipped = true
  stays : ∀ r, e.reader = some r → r.StaysEmpty

namespace Opened

theorem setDraining (h : Opened e) : Opened { e with draining := true } :=
  ⟨h.coherent.setDraining, h.flipped, h.stays⟩

theorem refill (h : Opened e) (hb : e.buffered = 0) :
    ∃ e' n es, Engine.refill p e = ⟨e', .ok n, es⟩ ∧ n = e'.buffered ∧ Opened e' ∧ Framed e' e := by
  obtain ⟨e', n, es, heq, hn, h', hframed⟩ := h.coherent.refill_eq (p := p) hb
  refine ⟨e', n, es, heq, hn, ⟨h', hframed.flipped.trans h.flipped, fun r hr => ?_⟩, hframed⟩
  rcases e with ⟨core, runs⟩
  cases hreader : core.reader with
  | none =>
    have hsome := hframed.reader
    rw [hr, show (⟨core, runs⟩ : Engine α).reader = none from hreader] at hsome
    cases hsome
  | some r₀ =>
    obtain ⟨c, heq', -, hnext, -⟩ := @refill_of_reader _ p runs core r₀ hreader hb
    obtain ⟨rfl, -, -⟩ := Outcome.mk.inj (heq.symm.trans heq')
    obtain rfl : r₀.next.2 = r := Option.some.inj (hnext.symm.trans hr)
    exact (h.stays r₀ hreader).next

/-- Getting ready makes no difference to what is read. -/
theorem ready (h : Opened e) : ∃ e' es,
    Engine.ready p e = ⟨e', .ok (decide (0 < e'.buffered)), es⟩ ∧ Opened e' ∧ e'.fetched = e.fetched ∧ SameReads p e' e := by
  by_cases hb : 0 < e.buffered
  · have heq := ready_of_buffered (p := p) (.inl h.flipped) hb
    have hagain := ready_again (p := p) (e := { e with draining := true }) (.inl h.flipped) rfl hb
    refine ⟨{ e with draining := true }, [], ?_, h.setDraining, rfl, readAll_of_ready heq hagain⟩
    rw [heq]
    exact congrArg (fun found => (⟨_, .ok found, []⟩ : Outcome (Engine α) Bool))
      (decide_eq_true hb).symm
  · obtain ⟨e', n, es, heq, hn, h', hframed⟩ :=
      h.setDraining.refill (p := p) (by show e.buffered = 0; omega)
    have hready := ready_of_used_up (.inl h.flipped) (by omega) heq
    rw [hn] at hready
    refine ⟨e', es, hready, h', hframed.fetched, ?_⟩
    by_cases hpos : 0 < e'.buffered
    · rw [decide_eq_true hpos] at hready
      exact readAll_of_ready hready (ready_again (.inl h'.flipped) hframed.draining hpos)
    · have hnone : n = 0 := hn.trans (Nat.eq_zero_of_not_pos hpos)
      have hspent : Spent p e' := spent_of_refill h.setDraining.coherent.intact
        (by show e.buffered = 0; omega) (.inl h.flipped) h.stays (hnone ▸ heq)
      rw [decide_eq_false hpos] at hready
      exact hspent.readAll_eq hready

theorem refill_eq_ready (h : Opened e) (hb : e.buffered = 0) :
    (Engine.refill p e).state = (Engine.ready p e).state := by
  obtain ⟨e', n, es, heq, -⟩ := h.refill (p := p) hb
  rw [ready_of_used_up (.inl h.flipped) hb ((refill_setDraining hb).trans heq), heq]

/-- A call between fetches leaves an engine that answers as before. -/
theorem interlude (h : Opened e) {c : Call α} (hc : c.isInterlude) :
    Opened (perform p c e).state ∧ (perform p c e).state.fetched = e.fetched ∧
      SameReads p (perform p c e).state e := by
  have hready : Opened (Engine.ready p e).state ∧ (Engine.ready p e).state.fetched = e.fetched ∧
      SameReads p (Engine.ready p e).state e := by
    obtain ⟨e', es, heq, h', hf, hsame⟩ := h.ready (p := p)
    rw [heq]
    exact ⟨h', hf, hsame⟩
  cases c with
  | peek =>
    have hstate : (perform p .peek e).state = (Engine.ready p e).state := by
      obtain ⟨e', es, heq, -⟩ := h.ready (p := p)
      rw [perform, Coherent.silent_ok (read_of_ready heq).1, heq]
    rw [hstate]
    exact hready
  | refill =>
    by_cases hb : e.buffered = 0
    · have hstate : (perform p .refill e).state = (Engine.ready p e).state := by
        rw [← h.refill_eq_ready hb]
        obtain ⟨e', n, es, heq, -⟩ := h.refill (p := p) hb
        rw [perform, Coherent.silent_ok heq, heq]
      rw [hstate]
      exact hready
    · rw [perform, silent_fault (refill_refused (Nat.pos_of_ne_zero hb))]
      exact ⟨h, rfl, .refl e⟩
  | growBuffer n =>
    have hgrown : Coherent { e with buffer := e.buffer.grow n } :=
      h.coherent.congr rfl rfl rfl rfl rfl rfl rfl
    exact ⟨⟨hgrown, h.flipped, h.stays⟩, rfl, .of_alike hgrown h.coherent (alike_growBuffer n e)⟩
  | shrink =>
    obtain ⟨hshrunk, hphase⟩ := h.coherent.shrunk
    have halike := alike_shrunk e
    refine ⟨⟨hshrunk, hphase.flipped.trans h.flipped, fun r hr => ?_⟩, hphase.fetched,
      .of_alike hshrunk h.coherent halike⟩
    exact h.stays r (halike.core.reader.symm.trans hr)
  | feed | sortBuffer | flush | flip | addRun | fetch | clearBuffer | setMemThresh | setItemCost =>
    cases hc

/-- An item is fetched, unless there is none left. -/
theorem fetch (h : Opened e) : ∃ e' item es, Engine.fetch p e = ⟨e', .ok item, es⟩ ∧ Opened e' ∧
    e'.fetched = e.fetched + item.toList.length := by
  obtain ⟨e', item, es, heq, h', hf, -⟩ := h.coherent.fetch_eq (p := p)
  obtain ⟨e₁, es₁, hready, h₁, -⟩ := h.ready (p := p)
  obtain ⟨rfl, -, -⟩ := Outcome.mk.inj (heq.symm.trans (read_of_ready hready).2)
  refine ⟨_, item, es, heq, ⟨h', ?_, fun r hr => ?_⟩, hf⟩
  · split
    · exact h₁.flipped
    · exact h₁.flipped
  · refine h₁.stays r ?_
    split at hr
    · exact hr
    · exact hr

end Opened

/-! ### Calls between fetches -/

/-- Of two engines that answer alike one goes through some calls, and the other through the fetches
among them.  They go on to answer alike. -/
theorem after_interludes {s t : Engine α} (hs : Opened s) (ht : Opened t) (hsame : SameReads p s t)
    (hf : s.fetched = t.fetched) {cs : List (Call α)} (hcs : ∀ c ∈ cs, c.isFetch ∨ c.isInterlude) :
    Opened (after p cs s) ∧ Opened (after p (cs.filter Call.isFetch) t) ∧
      SameReads p (after p cs s) (after p (cs.filter Call.isFetch) t) ∧
      (after p cs s).fetched = (after p (cs.filter Call.isFetch) t).fetched := by
  induction cs generalizing s t with
  | nil => exact ⟨hs, ht, hsame, hf⟩
  | cons c cs ih =>
    obtain ⟨hc, hrest⟩ := List.forall_mem_cons.mp hcs
    rcases hc with hc | hc
    · obtain rfl := Call.isFetch_iff.mp hc
      obtain ⟨s', item', es', heq', hs', hf'⟩ := hs.fetch (p := p)
      obtain ⟨t', item, es, heq, ht', hf''⟩ := ht.fetch (p := p)
      obtain ⟨rfl, hreads⟩ := hsame.read (r := .fetch) heq' heq
      have hstate' : (perform p .fetch s).state = s' := congrArg Outcome.state heq'
      have hstate : (perform p .fetch t).state = t' := congrArg Outcome.state heq
      have hcount : s'.fetched = t'.fetched := by rw [hf', hf'', hf]
      rw [List.filter_cons_of_pos hc, after, after, hstate, hstate']
      exact ih hs' ht' hreads hcount hrest
    · obtain ⟨hs', hcount, hreads⟩ := hs.interlude (p := p) hc
      rw [List.filter_cons_of_neg (Call.not_isFetch hc), after]
      exact ih hs' ht (hreads.trans hsame) (hcount.trans hf) hrest

/-- Of two engines everything that can be asked has the same answer, apart from how much room they
have. -/
structure SameAnswers (p : Policy α) (e' e : Engine α) : Prop where
  call : ∀ c, (perform p c e').answer = (perform p c e).answer
  events : ∀ c, (perform p c e').events = (perform p c e).events
  peek : (Engine.peek p e').answer = (Engine.peek p e).answer
  refill : (Engine.refill p e').answer = (Engine.refill p e).answer
  buffered : e'.buffered = e.buffered
  numRuns : e'.numRuns = e.numRuns
  fetched : e'.fetched = e.fetched
  flipped : e'.flipped = e.flipped
  memThresh : e'.memThresh = e.memThresh
  describe : e'.describe = e.describe
  contents : e'.contents = e.contents

/-- Looking, refilling, and making or giving back room change nothing about what is read.

A flipped engine, whose own reader stays empty once it is, goes through any calls of this kind and
any fetches.  The next fetch hands over what it hands over after the fetches alone, a peek shows
just that, the count of fetched items is the same, and a used-up buffer can be refilled.

An engine that is put together with room being made and given back anywhere, in its runs too,
answers everything as without that. -/
theorem fetches_of_interludes :
    (∀ {e : Engine α} {taken : List α} {read : Bool}, Called p e taken read → e.flipped = true →
      (∀ r, e.reader = some r → r.StaysEmpty) →
      ∀ cs : List (Call α), (∀ c ∈ cs, c.isFetch ∨ c.isInterlude) →
        let s := after p cs e
        let t := after p (cs.filter Call.isFetch) e
        (∃ item, (fetch p s).answer = .ok item ∧ (fetch p t).answer = .ok item ∧
          (peek p s).answer = .ok item) ∧
        s.fetched = t.fetched ∧
        (s.live = [] → ∃ n, (refill p s).answer = .ok n)) ∧
    ∀ {e' e : Engine α}, Padded p e' e → SameAnswers p e' e := by
  constructor
  · intro e taken read hcalled hflipped hstays cs hcs s t
    have hopened : Opened e := ⟨hcalled.coherent.1, hflipped, hstays⟩
    obtain ⟨hs, ht, hsame, hcount⟩ := after_interludes hopened hopened (.refl e) rfl hcs
    obtain ⟨s', item', es', heq', -⟩ := hs.fetch (p := p)
    obtain ⟨t', item, es, heq, -⟩ := ht.fetch (p := p)
    obtain ⟨rfl, -⟩ := hsame.read (r := .fetch) heq' heq
    obtain ⟨e₁, es₁, hready, -⟩ := hs.ready (p := p)
    obtain ⟨hpeek, hfetch⟩ := read_of_ready hready
    have hitem := congrArg Outcome.answer (heq'.symm.trans hfetch)
    refine ⟨⟨item', congrArg Outcome.answer heq', congrArg Outcome.answer heq, ?_⟩, hcount, ?_⟩
    · exact (congrArg Outcome.answer hpeek).trans hitem.symm
    · intro hlive
      have hb : s.buffered = 0 := by rw [hs.coherent.buffered_eq, hlive]; rfl
      obtain ⟨e₂, n, es₂, hrefill, -⟩ := hs.refill (p := p) hb
      exact ⟨n, congrArg Outcome.answer hrefill⟩
  · intro e' e hpadded
    obtain ⟨h', h⟩ := hpadded.coherent
    have ha := hpadded.alike
    exact {
      call := fun c => (perform_matches h' h ha c).answer
      events := fun c => (perform_matches h' h ha c).events
      peek := (peek_matches h' h ha).answer
      refill := (refill_matches h' h ha).answer
      buffered := ha.core.buffered
      numRuns := ha.numRuns
      fetched := ha.core.fetched
      flipped := ha.core.flipped
      memThresh := ha.core.memThresh
      describe := ha.describe
      contents := ha.contents }

/-- An engine with the runs 2 and 1 and a reader that serves 3 below it.  Whether it is peeked at,
shrunk and grown before and after the first fetch or not, the second fetch is the same; and it does
not matter whether room was made and given back while it was fed. -/
theorem fetches_of_interludes_merging :
    ∃ e e' : Engine Nat, Called ⟨compare, 8, []⟩ e [] false ∧ Padded ⟨compare, 8, []⟩ e' e ∧
      (fetch ⟨compare, 8, []⟩
        (after ⟨compare, 8, []⟩ [.peek, .shrink, .fetch, .growBuffer 9, .peek, .refill] e)).answer =
        (fetch ⟨compare, 8, []⟩ (after ⟨compare, 8, []⟩ [.fetch] e)).answer ∧
      SameAnswers ⟨compare, 8, []⟩ e' e := by
  have below : Called (⟨compare, 8, []⟩ : Policy Nat) _ [] false :=
    .fromReader 1 (fun _ => 1) (.ofItems [3] 1)
  have fed : Called (⟨compare, 8, []⟩ : Policy Nat) _ [] false :=
    (((Called.new 1 fun _ => 1).call (.feed 2) rfl).call (.feed 1) rfl).adopt below
  have padded : Padded (⟨compare, 8, []⟩ : Policy Nat) _ _ :=
    ((((((Padded.new 1 fun _ => 1).growBuffer 40).call (.feed 2) rfl).shrink).call
      (.feed 1) rfl).adopt (.growBuffer 7 (.fromReader 1 (fun _ => 1) (.ofItems [3] 1)))).call
        .flip rfl
  refine ⟨_, _, fed.call .flip rfl, padded, ?_, fetches_of_interludes.2 padded⟩
  have hreads := fetches_of_interludes.1 (fed.call .flip rfl) rfl (fun r hr => by cases hr)
    [.peek, .shrink, .fetch, .growBuffer 9, .peek, .refill]
    (by simp [Call.isFetch, Call.isInterlude])
  obtain ⟨⟨item, hs, ht, -⟩, -⟩ := hreads
  exact hs.trans ht.symm

end Engine

end ObjectSystem.Sorting
