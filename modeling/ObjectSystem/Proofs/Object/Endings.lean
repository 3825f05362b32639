import ObjectSystem.Proofs.Class.Signatures
import ObjectSystem.Proofs.Object.Runs

/-! # The functions at the end of an object

A Destroy function of the user's own does its part and leaves the rest to the parent of the class
that owns it, while the object keeps the class that it had.  `Calls` lists the functions that are run
one after the other, each with the world that it finds.

Dispatch leads from a class to the nearest function on the way up, past the classes that put none
into the slot of Destroy, so what comes after the function of a class is what its parent has.  By
induction from the root class downward (`Farewell`) all functions on the way are run, each once, and
the memory is given back at the end (`Run.destroyed_in_turn`). -/

namespace ObjectSystem

open World CoreMethod

/-- The number of a Destroy function of the user's own. -/
def Code.teardown? : Code → Option Nat
  | .custom (.teardown k) => some k
  | _ => none

theorem Code.teardown?_eq_some {code : Code} {k : Nat} :
    code.teardown? = some k ↔ code = .custom (.teardown k) := by
  unfold teardown?
  split <;> simp_all

namespace Ledger

variable {L older : Ledger} {a b c : Nat} {m o : MethodRef} {s : NovelSpec}

/-- No two classes name the same reference. -/
theorem WellFormed.eq_of_mem_own (h : L.WellFormed) (ha : m ∈ (L.entry a).own)
    (hb : m ∈ (L.entry b).own) : a = b := by
  induction L with
  | nil => cases ha
  | cons e older ih =>
    by_cases ha' : a = older.length <;> by_cases hb' : b = older.length
    · exact ha'.trans hb'.symm
    · rw [ha', entry_self] at ha
      rw [entry_cons hb'] at hb
      exact absurd ha (h.not_mem_own (mem_refs_of_mem_own hb))
    · rw [entry_cons ha'] at ha
      rw [hb', entry_self] at hb
      exact absurd hb (h.not_mem_own (mem_refs_of_mem_own ha))
    · rw [entry_cons ha'] at ha
      rw [entry_cons hb'] at hb
      exact ih h.tail ha hb

theorem mem_own_of_mem_novel (hs : s ∈ (L.entry c).novel) : s.method ∈ (L.entry c).own :=
  List.mem_append_left _ (List.mem_map_of_mem hs)

theorem WellFormed.dispatch_eq (h : L.WellFormed) (hc : c < L.length) (o : MethodRef) :
    L.dispatch c o = (L.installed (L.entry c).installs o).or
      ((L.entry c).parent.elim none fun p => L.dispatch p o) := by
  rw [dispatch, h.lineage_eq hc, List.findSome?_cons]
  cases L.installed (L.entry c).installs o with
  | some code => rfl
  | none => cases (L.entry c).parent <;> rfl

theorem WellFormed.dispatch_novel (h : L.WellFormed) (hs : s ∈ (L.entry c).novel) :
    L.dispatch c s.method = some s.code := by
  induction L with
  | nil => cases hs
  | cons e older ih =>
    by_cases hc : c = older.length
    · rw [hc, entry_self] at hs
      rw [hc, h.dispatch_self, h.installed_novel hs, Option.some_or]
    · rw [entry_cons hc] at hs
      rw [h.dispatch_cons hc]
      exact ih h.tail hs

/-- The function that a class itself has put into the slot of Destroy. -/
def destroyer (L : Ledger) (c : ClassId) : Option Code :=
  L.installed (L.entry c).installs objDestroy

/-- What a class puts in the place of Destroy are functions of the user's own that it owns. -/
def OwnsDestroy (L : Ledger) (w : World) (c : ClassId) : Prop :=
  ∀ s ∈ (L.entry c).overridden, L.origin s.parent = objDestroy →
    (s.code.teardown?.bind w.owners).bind w.slots = some c

instance (L : Ledger) (w : World) (c : ClassId) : Decidable (L.OwnsDestroy w c) :=
  inferInstanceAs (Decidable (∀ s ∈ (L.entry c).overridden, _ → _))

end Ledger

namespace World

variable {L : Ledger} {w w' : World} {c p r k : Nat} {o : ObjRef} {code next : Code}
  {calls : List (Code × World)} {ks : List Nat}

/-- What the host took the place of are methods that some class came with a callback for. -/
theorem Reached.exists_callback (h : Reached L w) :
    ∀ e ∈ L, ∀ i ∈ e.callbacks, ∃ a < L.length, ∃ s ∈ (L.entry a).novel,
      s.method = i.1 ∧ s.callback = some i.2 := by
  have honward : ∀ {older L : Ledger} {i : MethodRef × Code}, older <:+ L →
      (∃ a < older.length, ∃ s ∈ (older.entry a).novel, s.method = i.1 ∧ s.callback = some i.2) →
        ∃ a < L.length, ∃ s ∈ (L.entry a).novel, s.method = i.1 ∧ s.callback = some i.2 := by
    rintro older L i hs ⟨a, ha, s, hmem, hcallback⟩
    refine ⟨a, Nat.lt_of_lt_of_le ha hs.length_le, s, ?_, hcallback⟩
    rwa [Ledger.entry_of_suffix hs ha]
  induction h with
  | start => nofun
  | bootstrap before call hook enough once anchored ih =>
    intro e he i hi
    rcases Ledger.mem_enter he with hold | ⟨s, n, o, _, -, -, -, rfl⟩
    · exact honward Ledger.suffix_enter (ih e hold i hi)
    · cases hi
  | subclass before inside call ih =>
    intro e he i hi
    refine honward (List.suffix_cons _ _) ?_
    rcases List.mem_cons.1 he with rfl | he
    · exact before.standing.exists_callback i hi
    · exact ih e he i hi
  | alike before same ih => exact ih

/-- What a class other than the root has put into the slot of Destroy is what it overrides it
with. -/
theorem Reached.overridden_of_destroyer (h : Reached L w)
    (hroot : L.entry r = { novel := Core.novel }) (hlt : c < L.length) (hc : c ≠ r)
    (hcode : L.destroyer c = some code) :
    ∃ s ∈ (L.entry c).overridden, L.origin s.parent = objDestroy ∧ s.code = code := by
  have hwf := h.standing.sound.wellFormed
  have honly : ∀ a, ∀ s ∈ (L.entry a).novel, L.origin s.method = objDestroy →
      s.method = objDestroy ∧ a = r := by
    intro a s hs horigin
    rw [hwf.origin_of_mem_layout (Ledger.method_mem_layout hs)] at horigin
    refine ⟨horigin, hwf.eq_of_mem_own (horigin ▸ Ledger.mem_own_of_mem_novel hs) ?_⟩
    rw [hroot]
    decide
  unfold Ledger.destroyer Ledger.installed at hcode
  obtain ⟨i, hfind, rfl⟩ := Option.map_eq_some_iff.1 hcode
  have hmem : i ∈ (L.entry c).installs := List.mem_reverse.1 (List.mem_of_find?_eq_some hfind)
  have horigin : L.origin i.1 = objDestroy := by simpa using List.find?_some hfind
  unfold Entry.installs at hmem
  rw [List.mem_append, List.mem_append] at hmem
  rcases hmem with hi | hi | hi
  · obtain ⟨s, hs, rfl⟩ := List.mem_map.1 hi
    exact ⟨s, hs, horigin, rfl⟩
  · obtain ⟨s, hs, rfl⟩ := List.mem_map.1 hi
    exact absurd (honly c s hs horigin).2 hc
  · -- no host takes the place of Destroy, since it came without a callback
    obtain ⟨a, -, s, hs, hmethod, hcallback⟩ := h.exists_callback _ (Ledger.entry_mem hlt) i hi
    obtain ⟨hdestroy, rfl⟩ := honly a s hs (hmethod ▸ horigin)
    have hnone : ∀ s ∈ Core.novel, s.method = objDestroy → s.callback = none := by decide
    rw [hroot] at hs
    rw [hnone s hs hdestroy] at hcallback
    cases hcallback

/-! ### Functions one after the other -/

/-- The functions that are run on an object from a Destroy function on, each with the world that it
finds, and the world in which they leave the object.  The function of a class takes a note and then
runs what the parent of the class has for Destroy; the last one gives the memory back. -/
inductive Calls (o : ObjRef) : Code → World → List (Code × World) → World → Prop
  | last (w : World) : Calls o .objDestroy w [(.objDestroy, w)] (free o w).state
  | next {k : Nat} {slot : ClassSlot} {owner parent : ClassId} {next : Code} {w w' : World}
    {calls : List (Code × World)} (owned : w.owners k = some slot)
    (seated : w.slots slot = some owner) (below : (w.get owner).parent = some parent)
    (found : w.resolve parent objDestroy = .ok next)
    (rest : Calls o next { w with notes := w.notes ++ [w.teardownNote k o] } calls w') :
    Calls o (.custom (.teardown k)) w ((.custom (.teardown k), w) :: calls) w'

/-- What a function of the user's own does, and what it leads to. -/
theorem runDestroy_teardown {n : Nat} {slot : ClassSlot} {owner parent : ClassId}
    (owned : w.owners k = some slot) (seated : w.slots slot = some owner)
    (below : (w.get owner).parent = some parent) (found : w.resolve parent objDestroy = .ok next) :
    runDestroy (n + 1) (.custom (.teardown k)) o w =
      runDestroy n next o { w with notes := w.notes ++ [w.teardownNote k o] } := by
  let noted : World := { w with notes := w.notes ++ [w.teardownNote k o] }
  have howned : noted.owners k = some slot := owned
  have hslot : slotClass slot noted = ⟨noted, .ok owner, []⟩ := slotClass_of_some seated
  have hbelow : (noted.get owner).parent = some parent := below
  have hfound : noted.resolve parent objDestroy = .ok next := found
  refine (Step.gets_bind (·.teardownNote k o) _ w).trans ?_
  refine (Step.modify_bind _ _ w).trans ?_
  refine (Step.gets_bind (·.owners k) _ noted).trans ?_
  rw [howned]
  refine (Step.bind_of_ok _ hslot).trans ?_
  rw [Step.gets_bind, hbelow]
  refine (Step.get_bind _ _).trans ?_
  rw [hfound]
  exact Step.bind_of_ok _ rfl

theorem Calls.runDestroy_eq (h : Calls o code w calls w') {n : Nat} (hn : calls.length ≤ n + 1) :
    runDestroy n code o w = ⟨w', .ok (), []⟩ := by
  induction h generalizing n with
  | last w =>
    have hfree : runDestroy n .objDestroy o w = free o w := by cases n <;> rfl
    rw [hfree]
    cases o <;> rfl
  | next owned seated below found rest ih =>
    rw [List.length_cons] at hn
    have hpos : 0 < n := by
      cases rest <;> simp only [List.length_cons] at hn <;> omega
    obtain ⟨n, rfl⟩ := Nat.exists_eq_add_one.2 hpos
    rw [runDestroy_teardown owned seated below found]
    exact ih (by omega)

/-- What the Destroy functions from a class upward come to, in a world in which notes do not
matter. -/
structure Farewell (L : Ledger) (w : World) (o : ObjRef) (c : Nat) (ks : List Nat) : Prop where
  destroyers : (L.lineage c).filterMap L.destroyer =
    ks.map (.custom <| .teardown ·) ++ [.objDestroy]
  owners : ∀ k ∈ ks, ∃ slot a, w.owners k = some slot ∧ w.slots slot = some a ∧ a ≤ c
  nodup : ks.Nodup
  length_le : ks.length ≤ c
  calls : ∃ code, w.resolve c objDestroy = .ok code ∧ ∀ notes, ∃ calls,
    Calls o code { w with notes := notes } calls
        (free o { w with notes := notes ++ ks.map (w.teardownNote · o) }).state ∧
      calls.map Prod.fst = ks.map (.custom <| .teardown ·) ++ [.objDestroy] ∧
      ∀ call ∈ calls, ∃ notes, call.2 = { w with notes := notes }

theorem Farewell.owners_mono (hends : Farewell L w o p ks) (hlt : p < c) :
    ∀ k ∈ ks, ∃ slot a, w.owners k = some slot ∧ w.slots slot = some a ∧ a ≤ c := by
  intro k hk
  obtain ⟨slot, a, howner, hslot, hle⟩ := hends.owners k hk
  exact ⟨slot, a, howner, hslot, Nat.le_trans hle (Nat.le_of_lt hlt)⟩

theorem Farewell.not_mem {slot : ClassSlot} (hends : Farewell L w o p ks) (hlt : p < c)
    (howner : w.owners k = some slot) (hslot : w.slots slot = some c) : k ∉ ks := by
  intro hk
  obtain ⟨slot', a, howner', hslot', hle⟩ := hends.owners k hk
  obtain rfl := Option.some.inj (howner.symm.trans howner')
  obtain rfl := Option.some.inj (hslot.symm.trans hslot')
  exact absurd hle (Nat.not_le_of_lt hlt)

section Farewell

variable (h : Reached L w) (hroot : L.entry r = { novel := Core.novel })

include h hroot

theorem Reached.resolve_destroy (hr : r ∈ L.lineage c) :
    w.resolve c objDestroy = .ok code ↔ L.dispatch c objDestroy = some code := by
  have hmem : (⟨objDestroy, .objDestroy, none⟩ : NovelSpec) ∈ (L.entry r).novel :=
    hroot ▸ List.mem_cons_self
  obtain ⟨own, hdispatch, hresolve⟩ := h.standing.sound.resolve_layout
    (Ledger.lt_of_mem_lineage hr).2
    ((Ledger.layout_initial hr).subset (Ledger.method_mem_layout hmem))
  rw [hdispatch, hresolve, Except.ok.injEq, Option.some.injEq]

/-- At the root class the memory is given back. -/
theorem Farewell.root (o : ObjRef) (hr : r < L.length) : Farewell L w o r [] := by
  have hwf := h.standing.sound.wellFormed
  have hparent : (L.entry r).parent = none := hroot ▸ rfl
  have hlineage : L.lineage r = [r] := by rw [hwf.lineage_eq hr, hparent, Option.elim_none]
  have hdispatch : L.dispatch r objDestroy = some .objDestroy :=
    hwf.dispatch_novel (s := ⟨objDestroy, .objDestroy, none⟩) (hroot ▸ List.mem_cons_self)
  have hdestroyer : L.destroyer r = some .objDestroy := by
    rwa [hwf.dispatch_eq hr, hparent, Option.elim_none, Option.or_none] at hdispatch
  have hresolve : w.resolve r objDestroy = .ok .objDestroy :=
    (h.resolve_destroy hroot (hlineage ▸ List.mem_singleton_self r)).2 hdispatch
  refine ⟨?_, nofun, List.nodup_nil, Nat.zero_le r, .objDestroy, hresolve, fun notes => ?_⟩
  · rw [hlineage, List.filterMap_cons, hdestroyer]
    rfl
  · have hlast := Calls.last (o := o) { w with notes := notes }
    refine ⟨[(.objDestroy, { w with notes := notes })], ?_, rfl, fun call hcall => ⟨notes, ?_⟩⟩
    · rwa [List.map_nil, List.append_nil]
    · rw [List.mem_singleton.1 hcall]

variable (hc : c < L.length) (hp : (L.entry c).parent = some p) (hr : r ∈ L.lineage p)
  (hends : Farewell L w o p ks)

omit hroot in
include hc hp in
theorem Reached.lineage_child : L.lineage c = c :: L.lineage p := by
  rw [h.standing.sound.wellFormed.lineage_eq hc, hp, Option.elim_some]

include hc hp hr hends

theorem Farewell.inherit (hnone : L.destroyer c = none) : Farewell L w o c ks := by
  have hwf := h.standing.sound.wellFormed
  have hlt := (hwf.lt_of_parent hp).1
  have hlineage := h.lineage_child hc hp
  have hdispatch : L.dispatch c objDestroy = L.dispatch p objDestroy := by
    rw [hwf.dispatch_eq hc, hp]
    exact congrArg (Option.or · _) hnone
  obtain ⟨code, hcode, hrest⟩ := hends.calls
  have hresolve : w.resolve c objDestroy = .ok code :=
    (h.resolve_destroy hroot (hlineage ▸ List.mem_cons_of_mem _ hr)).2
      (hdispatch.trans ((h.resolve_destroy hroot hr).1 hcode))
  refine ⟨?_, hends.owners_mono hlt, hends.nodup,
    Nat.le_trans hends.length_le (Nat.le_of_lt hlt), code, hresolve, hrest⟩
  rw [hlineage, List.filterMap_cons, hnone]
  exact hends.destroyers

/-- A class with a function of its own runs that and leaves the rest to its parent. -/
theorem Farewell.override {slot : ClassSlot} (hcode : L.destroyer c = some (.custom (.teardown k)))
    (howner : w.owners k = some slot) (hslot : w.slots slot = some c) :
    Farewell L w o c (k :: ks) := by
  have hs := h.standing.sound
  have hlt := (hs.wellFormed.lt_of_parent hp).1
  have hlineage := h.lineage_child hc hp
  have hdispatch : L.dispatch c objDestroy = some (.custom (.teardown k)) := by
    rw [hs.wellFormed.dispatch_eq hc]
    exact congrArg (Option.or · _) hcode
  have hresolve : w.resolve c objDestroy = .ok (.custom (.teardown k)) :=
    (h.resolve_destroy hroot (hlineage ▸ List.mem_cons_of_mem _ hr)).2 hdispatch
  obtain ⟨next, hnext, hrest⟩ := hends.calls
  have hnew : k ∉ ks := hends.not_mem hlt howner hslot
  refine ⟨?_, fun k' hk => ?_, List.nodup_cons.2 ⟨hnew, hends.nodup⟩,
    Nat.lt_of_le_of_lt hends.length_le hlt, _, hresolve, fun notes => ?_⟩
  · rw [hlineage, List.filterMap_cons, hcode]
    exact congrArg _ hends.destroyers
  · rcases List.mem_cons.1 hk with rfl | hk
    · exact ⟨slot, c, howner, hslot, Nat.le_refl c⟩
    · exact hends.owners_mono hlt k' hk
  · obtain ⟨calls, hcalls, hcodes, hworlds⟩ := hrest (notes ++ [w.teardownNote k o])
    rw [List.append_assoc, List.singleton_append] at hcalls
    have hparent : (w.get c).parent = some p := (hs.settled c hc).parent.trans hp
    refine ⟨_, .next (w := { w with notes := notes }) howner hslot hparent hnext hcalls, ?_,
      fun call hcall => ?_⟩
    · rw [List.map_cons, hcodes]
      rfl
    · rcases List.mem_cons.1 hcall with rfl | hcall
      · exact ⟨notes, rfl⟩
      · exact hworlds call hcall

end Farewell

/-- From every class below the root class the functions come to an end, if all are owned by the
classes that they stand for. -/
theorem Reached.farewell (h : Reached L w) (hroot : L.entry r = { novel := Core.novel })
    (hr : r ∈ L.lineage c) (hown : ∀ a ∈ L.lineage c, L.OwnsDestroy w a) (o : ObjRef) :
    ∃ ks, Farewell L w o c ks := by
  induction c using Nat.strongRecOn with
  | ind c ih =>
    by_cases hcr : c = r
    · subst hcr
      exact ⟨[], .root h hroot o (Ledger.lt_of_mem_lineage hr).1⟩
    have hc := (Ledger.lt_of_mem_lineage hr).2
    have hwf := h.standing.sound.wellFormed
    have habove : r ∈ (L.entry c).parent.elim [] L.lineage :=
      (List.mem_cons.1 (hwf.lineage_eq hc ▸ hr)).resolve_left (Ne.symm hcr)
    obtain ⟨p, hp, hrp⟩ := Ledger.mem_above.1 habove
    have hlineage := h.lineage_child hc hp
    rw [hlineage] at hown
    obtain ⟨ks, hends⟩ := ih p (hwf.lt_of_parent hp).1 hrp fun a ha =>
      hown a (List.mem_cons_of_mem _ ha)
    cases hcode : L.destroyer c with
    | none => exact ⟨ks, hends.inherit h hroot hc hp hrp hcode⟩
    | some code =>
      obtain ⟨s, hs, horigin, rfl⟩ := h.overridden_of_destroyer hroot hc hcr hcode
      have howned := hown c List.mem_cons_self s hs horigin
      obtain ⟨slot, howner, hslot⟩ := Option.bind_eq_some_iff.1 howned
      obtain ⟨k, hk, howner⟩ := Option.bind_eq_some_iff.1 howner
      rw [Code.teardown?_eq_some] at hk
      rw [hk] at hcode
      exact ⟨k :: ks, hends.override h hroot hc hp hrp hcode howner hslot⟩

/-! ### The object -/

theorem modify_objects {i : Nat} {x : Instance} (hx : w.objects[i]? = some x)
    (f : Instance → Instance) : w.objects.modify i f = w.objects.set i (f x) := by
  rw [List.modify_eq_set_getElem?, hx]
  rfl

theorem objects_uncounted {i : Nat} {x : Instance} (hx : w.objects[i]? = some x) :
    (w.uncounted i).objects[i]? = some { x with count := x.count - 1 } := by
  unfold uncounted
  rw [modify_objects hx, List.getElem?_set_self (List.getElem?_eq_some_iff.1 hx).1]

theorem Reached.uncounted (h : Reached L w) (i : Nat) : Reached L (w.uncounted i) := by
  have hsame : SameClasses w (w.uncounted i) := ⟨rfl, rfl, rfl, rfl⟩
  exact .alike h (hsame.alike h.standing.names)

theorem classOf_allocated {i : Nat} {x : Instance} (hx : w.objects[i]? = some x) :
    w.classOf (.allocated i) = x.cls :=
  congrArg (Option.getD · 0) (classOf?_allocated hx)

theorem teardownNote_uncounted {i : Nat} {x : Instance} (hx : w.objects[i]? = some x)
    (hlast : x.count = 1) (k : Nat) :
    (w.uncounted i).teardownNote k (.allocated i) =
      (Body.teardown k).label ++ ":" ++ w.nameOf x.cls ++ ":" ++ toString 0 := by
  have hname : (w.uncounted i).classNameOf (.allocated i) = w.nameOf x.cls :=
    congrArg w.nameOf ((classOf_uncounted w i (.allocated i)).trans (classOf_allocated hx))
  unfold teardownNote
  rw [hname, count_allocated (objects_uncounted hx), hlast]

theorem free_uncounted {i : Nat} {x : Instance} (hx : w.objects[i]? = some x)
    (hlast : x.count = 1) (notes : List String) :
    (free (.allocated i) { w.uncounted i with notes := notes }).state =
      { w with
        objects := w.objects.set i { x with count := 0, freed := true }
        notes := notes } := by
  have hset : (w.uncounted i).objects.modify i ({ · with freed := true }) =
      w.objects.set i { x with count := 0, freed := true } := by
    rw [modify_objects (objects_uncounted hx), uncounted, modify_objects hx, List.set_set, hlast]
  rw [← hset]
  rfl

end World

variable {L : Ledger} {s : Holding} {t : List Deed} {i : Nat} {x : Instance}

theorem Run.reached (h : Run L s t) : Reached L s.world := by
  induction h with
  | start => exact .start
  | bootstrap _ call hook enough once anchored _ ih =>
    exact .bootstrap ih call hook enough once anchored
  | subclass _ inside call ih => exact .subclass ih inside call
  | aside _ same ih => exact .alike ih same.toAlike
  | act before allowed ih =>
    obtain ⟨htallied, -⟩ := before.tallied
    obtain ⟨-, ends, heffect⟩ := htallied.perform allowed
    exact .alike ih (heffect.same.alike htallied.standing.names)

theorem Run.settleOwners (h : Run L s t) (specs : List ClassSpec) (novel : List NovelSpec)
    (overridden : List OverriddenSpec) :
    Run L { s with world := World.settleOwners specs novel overridden s.world } t := by
  obtain ⟨owners, heq⟩ := World.settleOwners_eq specs novel overridden s.world
  have hsame : SameClasses s.world { s.world with owners := owners } := ⟨rfl, rfl, rfl, rfl⟩
  rw [heq]
  exact h.aside ⟨hsame.alike h.tallied.1.standing.names, fun _ => rfl, fun _ => rfl, fun _ => rfl,
    fun _ => rfl, rfl⟩

/-- The root class is that of the core parcel. -/
theorem Run.root_entry (h : Run L s t) :
    ∀ r : Nat, s.world.slots .obj = some r → L.entry r = { novel := Core.novel } := by
  induction h with
  | start => nofun
  | @bootstrap L s t w' p _ before call hook _ _ _ root ih =>
    obtain ⟨htallied, -⟩ := before.tallied
    obtain ⟨-, hslots, -⟩ := htallied.marked.bootstrap htallied.standing.slots call hook
    exact root_withParcel (P := (· = { novel := Core.novel })) htallied.standing rfl ih root hslots
  | @subclass L s t w' fresh name parent before inside call ih =>
    have hstanding := before.tallied.1.standing
    obtain ⟨-, _, _, hw'⟩ := createSubclass_copy hstanding.names call
    intro r hr
    rw [hw'] at hr
    have hlt : r < L.length := hstanding.length_eq ▸ hstanding.slots _ r hr
    rw [Ledger.entry_of_suffix (List.suffix_cons _ _) hlt]
    exact ih r hr
  | aside _ same ih => exact fun r hr => ih r (same.slots ▸ hr)
  | act before allowed ih =>
    obtain ⟨-, ends, heffect⟩ := before.tallied.1.perform allowed
    exact fun r hr => ih r (heffect.same.slots ▸ hr)

/-- The last handle on an object is released, of a class that is below the root class and below none
of the classes whose instances are immortal, and all classes on the way up that override Destroy do
so with functions of their own.

The functions that these classes have put into the slot of Destroy are run one after the other, from
the class of the object up to the root class, each once, and the last one gives the memory back.
Every one of them finds the object with its class, no handle and its memory.  They are no more than
there are classes, and nothing stops them. -/
theorem Run.destroyed_in_turn (h : Run L s t) (hx : s.world.objects[i]? = some x)
    (hlast : x.count = 1) (hrooted : s.world.Rooted x.cls)
    (hmortal : ∀ slot (k : Nat), slot.isSpecial = true → s.world.slots slot = some k →
      s.world.isSubclassOf x.cls k = false)
    (hown : ∀ a ∈ s.world.ancestors x.cls, L.OwnsDestroy s.world a) :
    ∃ (ks : List Nat) (code : Code) (calls : List (Code × World)) (w' : World),
      (s.world.ancestors x.cls).filterMap L.destroyer =
          ks.map (.custom <| .teardown ·) ++ [.objDestroy] ∧
        ks.Nodup ∧
        s.world.resolve x.cls objDestroy = .ok code ∧
        Calls (.allocated i) code (s.world.uncounted i) calls w' ∧
        calls.map Prod.fst = (s.world.ancestors x.cls).filterMap L.destroyer ∧
        (∀ call ∈ calls, call.2.objects[i]? = some { x with count := 0, freed := false }) ∧
        w' = { s.world with
          objects := s.world.objects.set i { x with count := 0, freed := true }
          notes := s.world.notes ++ ks.map fun k =>
            (Body.teardown k).label ++ ":" ++ s.world.nameOf x.cls ++ ":" ++ toString 0 } ∧
        (∀ n, ks.length ≤ n →
          runDestroy n code (.allocated i) (s.world.uncounted i) = ⟨w', .ok (), []⟩) ∧
        ks.length < s.world.classes.length ∧
        World.release (.allocated i) s.world =
          ⟨w', .ok 0, [.objectDestroyed (s.world.nameOf x.cls)]⟩ := by
  obtain ⟨htallied, -⟩ := h.tallied
  have hsound := htallied.standing.sound
  have hcounted := htallied.counted i x hx
  have hspecial : (s.world.get x.cls).flags.special = false := by
    refine Bool.eq_false_iff.2 fun hspecial => ?_
    obtain ⟨slot, k, hslot, hslotSpecial, hbelow⟩ := htallied.special_below hspecial
    rw [hmortal slot k hslotSpecial hslot] at hbelow
    cases hbelow
  have halive : x.freed = false := hcounted.alive hspecial (hlast ▸ Nat.one_pos)
  have hancestors := hsound.ancestors_eq hcounted.inside
  obtain ⟨r, hr, hbelow⟩ := hrooted
  rw [isSubclassOf_iff, hancestors] at hbelow
  rw [hancestors] at hown ⊢
  obtain ⟨ks, hends⟩ := (h.reached.uncounted i).farewell (h.root_entry r hr) hbelow hown (.allocated i)
  obtain ⟨code, hcode, hcalls⟩ := hends.calls
  obtain ⟨calls, hcalls, hcodes, hworlds⟩ := hcalls s.world.notes
  have hleft : (s.world.uncounted i).objects[i]? = some { x with count := 0, freed := false } := by
    rw [objects_uncounted hx, hlast, ← halive]
  have hlength : calls.length = ks.length + 1 := by
    rw [← List.length_map Prod.fst, hcodes, List.length_append, List.length_map]
    rfl
  have hlt : ks.length < s.world.classes.length :=
    Nat.lt_of_le_of_lt hends.length_le (htallied.standing.length_eq ▸ hcounted.inside)
  rw [free_uncounted hx hlast,
    List.map_congr_left fun k _ => teardownNote_uncounted hx hlast k] at hcalls
  have hrun : ∀ n, ks.length ≤ n →
      runDestroy n code (.allocated i) (s.world.uncounted i) = ⟨_, .ok (), []⟩ := fun n hn =>
    hcalls.runDestroy_eq (hlength ▸ Nat.succ_le_succ hn)
  have hrelease := release_last ((isImmortal_allocated hx).trans hspecial)
    ((count_allocated hx).trans hlast) ((classOf_allocated hx).symm ▸ hcode)
  refine ⟨ks, code, calls, _, hends.destroyers, hends.nodup, hcode, hcalls,
    hcodes.trans hends.destroyers.symm, fun call hcall => ?_, rfl, hrun, hlt, ?_⟩
  · obtain ⟨notes, hworld⟩ := hworlds call hcall
    rw [hworld]
    exact hleft
  · rw [hrelease, hrun _ (Nat.le_of_lt hlt), classNameOf, classOf_allocated hx]
    rfl

namespace Forest

open Orchard (ground run_ground)

/-- What a tree does at its end. -/
def fall : MethodRef := ⟨"Tree.Destroy", "Destroy", .destroy⟩

/-- What an oak does at its end, before it falls. -/
def shed : MethodRef := ⟨"Oak.Destroy", "Destroy", .destroy⟩

/-- Trees, broadleaves that have nothing of their own, and oaks. -/
def parcel : ParcelSpec where
  classes :=
    [⟨⟨"Tree"⟩, some .obj, "Tree", 8, none, 0, 1, 0, {}⟩,
      ⟨⟨"Broadleaf"⟩, some ⟨"Tree"⟩, "Broadleaf", 0, none, 0, 0, 0, {}⟩,
      ⟨⟨"Oak"⟩, some ⟨"Broadleaf"⟩, "Oak", 0, none, 0, 1, 0, {}⟩]
  overridden :=
    [⟨fall, objDestroy, .custom (.teardown 0)⟩, ⟨shed, fall, .custom (.teardown 1)⟩]

/-- It is known to whom the functions belong. -/
def surveyed : World := settleOwners parcel.classes parcel.novel parcel.overridden ground

/-- The world with trees. -/
def planted : World := (bootstrap parcel surveyed).state

/-- The world with cork oaks, which are made on demand. -/
def grown : World := (createSubclass (.answering []) "CorkOak" 7 planted).state

/-- There is one cork oak. -/
def lone : Holding := ((Act.make 8).perform { world := grown }).state

/-- What went into the classes. -/
def pedigree : Ledger := Ledger.withParcel (Ledger.withParcel [] {} Core.parcel) surveyed parcel

theorem run_lone : Run (pedigree.made planted 7 [] :: pedigree) lone
    [(Act.make 8).deed { world := grown }] := by
  have hsurveyed : Run _ { world := surveyed } [] := run_ground.settleOwners _ _ _
  have hcall : (bootstrap parcel).Gives surveyed 2 planted := ⟨by decide +kernel, rfl⟩
  have hnone : surveyed.hook.isNone = true := by decide +kernel
  have hhook : ∀ hook, surveyed.hook = some hook → hook.OnlyFills := fun hook hhook => by
    rw [hhook] at hnone
    cases hnone
  have hplanted : Run pedigree { world := planted } [] :=
    hsurveyed.bootstrap hcall hhook (by decide) (by decide +kernel) (by decide +kernel) (by decide)
  have hlength : planted.classes.length = 8 := by decide +kernel
  have hmade : (createSubclass (.answering []) "CorkOak" 7).Gives planted (.ok 8) grown :=
    ⟨by decide +kernel, rfl⟩
  have hgrown : Run (pedigree.made planted 7 [] :: pedigree) { world := grown } [] :=
    hplanted.subclass (hlength.symm ▸ by decide) (hlength.symm ▸ hmade)
  have hrooted : grown.slots .obj = some 0 ∧ grown.isSubclassOf 8 0 = true := by decide +kernel
  exact hgrown.act (a := .make 8) ⟨0, hrooted⟩

/-- At the end of a cork oak what an oak does is done, then what a tree does, and then the memory is
given back. -/
theorem destroyed_in_turn_lone :
    ∃ (code : Code) (calls : List (Code × World)) (w' : World),
      Calls (.allocated 0) code (lone.world.uncounted 0) calls w' ∧
        calls.map Prod.fst = [.custom (.teardown 1), .custom (.teardown 0), .objDestroy] ∧
        w'.notes = ["destroy1:CorkOak:0", "destroy0:CorkOak:0"] ∧
        World.release (.allocated 0) lone.world =
          ⟨w', .ok 0, [.objectDestroyed "CorkOak"]⟩ := by
  obtain ⟨hx, hroot, hbelow, hspecials⟩ :
      lone.world.objects[0]?.map (fun x => (x.cls, x.count)) = some (8, 1) ∧
        lone.world.slots .obj = some 0 ∧ lone.world.isSubclassOf 8 0 = true ∧
        ∀ slot ∈ [ClassSlot.cls, .method, .boolean], ∀ k ∈ lone.world.slots slot,
          lone.world.isSubclassOf 8 k = false := by decide +kernel
  obtain ⟨x, hx, heq⟩ := Option.map_eq_some_iff.1 hx
  obtain ⟨hcls, hcount⟩ := Prod.mk.inj heq
  have hmortal : ∀ slot (k : Nat), slot.isSpecial = true → lone.world.slots slot = some k →
      lone.world.isSubclassOf 8 k = false := fun slot k hslot hk =>
    hspecials slot (by simpa [ClassSlot.isSpecial, or_assoc] using hslot) k hk
  obtain ⟨hown, hinstalls, hname, hnotes⟩ : (∀ a ∈ lone.world.ancestors 8,
        Ledger.OwnsDestroy (pedigree.made planted 7 [] :: pedigree) lone.world a) ∧
      (lone.world.ancestors 8).filterMap
          (Ledger.destroyer (pedigree.made planted 7 [] :: pedigree)) =
        [1, 0].map (.custom <| .teardown ·) ++ [.objDestroy] ∧
      lone.world.nameOf 8 = "CorkOak" ∧ lone.world.notes = [] := by decide +kernel
  obtain ⟨ks, code, calls, w', hks, -, -, hcalls, hcodes, -, hw', -, -, hrelease⟩ :=
    run_lone.destroyed_in_turn hx hcount (hcls ▸ ⟨0, hroot, hbelow⟩) (hcls ▸ hmortal) (hcls ▸ hown)
  rw [hcls, hinstalls] at hks hcodes
  rw [hcls, hname] at hw' hrelease
  have hinj : Function.Injective fun k => Code.custom (.teardown k) := fun j k hjk => by
    simpa using hjk
  obtain rfl : [1, 0] = ks := hinj.list_map (List.append_cancel_right hks)
  have hlabels : [1, 0].map (fun k => (Body.teardown k).label ++ ":" ++ "CorkOak" ++ ":" ++
      toString 0) = ["destroy1:CorkOak:0", "destroy0:CorkOak:0"] := by decide
  refine ⟨code, calls, w', hcalls, hcodes, ?_, hrelease⟩
  rw [hw', hnotes]
  exact hlabels

end Forest

end ObjectSystem
