import ObjectSystem.Proofs.Class.Moments

/-! # Creators agree

A host that is asked about a class can do anything before it answers, even ask for that very class,
with a host that does the same.  Several creators may then be under way for one name, and only one
of them can enter its class.  The others answer with that class, and drop their own.

Which of them that is does not matter: whatever the calls answer on the way is what the name is
bound to from then on (`creation_converges`). -/

namespace ObjectSystem

open World

/-- A class is asked for by name, with programs for a host.  Each call on the way, this one and
those that are made by programs, answers with the class that the name is bound to from then on, and
no name is bound to two classes.  At each moment the host was told once, in order, of the classes
that came on the way and are in no slot; there are no classes but those that are in slots or known
by their names, and nothing else is referred to.  A name is always free or bound. -/
theorem creation_converges (hash : String → Nat) (t : HostTable) {w : World}
    (hw : Ensues { hash := hash, host := t } w)
    (find fresh : String → Program) (allowance : Nat) (name : String) {given : Option ClassId}
    (hgiven : ∀ p : Nat, given = some p → p < w.classes.length) :
    let host := Program.host find fresh
    let moments := callMoments host (fun cls => (find cls).moments) (fun cls => (fresh cls).moments)
      allowance name given w
    let o := singletonWith host allowance name given w
    moments.getLast? = some ⟨o.state, answeredClass name o.answer⟩ ∧
      (∀ m ∈ moments, ∀ n c, m.answered = some (n, c) →
        m.world.fetchClass n = some c ∧
          (∀ m', [m, m'].Sublist moments → m'.world.fetchClass n = some c) ∧
          ∀ w', Ensues o.state w' → w'.fetchClass n = some c) ∧
      (∀ m ∈ moments, ∀ m' ∈ moments, ∀ n c c', m.world.fetchClass n = some c →
        m'.world.fetchClass n = some c' → c = c') ∧
      (∀ m ∈ moments, Whole m.world ∧ ∃ made, Told w m.world made) ∧
      ((∀ hook, w.hook = some hook →
          ∀ offsets d n, hook.apply offsets d ≠ .error (.registryRace n)) →
        ∀ n, .faulted (.registryRace n) ∉ o.events) := by
  intro host moments o
  obtain ⟨hwhole, -⟩ := hw.whole_later (.start hash t)
  have hwatched := Program.watched find fresh
  have hspan : Span w moments o.state := call_span hwatched allowance hwhole hgiven name
  have hgoes := singletonWith_goes hwatched.toOrderly allowance hwhole hgiven name
  refine ⟨callMoments_getLast _ _ _ _ _ _ _, fun m hm n c hanswered => ?_,
    fun m hm m' hm' n c c' hc hc' => ?_, fun m hm => ?_, fun hhook n hrace => ?_⟩
  · obtain ⟨-, hend, hfits⟩ := hspan.between m hm
    have hbound := hfits.answered n c hanswered
    refine ⟨hbound, fun m' hlater => ?_, fun w' hw' => ?_⟩
    · exact (List.pairwise_iff_forall_sublist.1 hspan.ordered hlater).names n c hbound
    · exact (hw'.whole_later hgoes.state.1).2.names n c (hend.names n c hbound)
  · have hend := (hspan.between m hm).2.1.names n c hc
    have hend' := (hspan.between m' hm').2.1.names n c' hc'
    exact Option.some.inj (hend.symm.trans hend')
  · obtain ⟨hbegin, -, hfits⟩ := hspan.between m hm
    exact ⟨hfits.whole, hbegin.told⟩
  · obtain ⟨hook, offsets, d, hsome, hraised⟩ := hgoes.events _ hrace _ rfl n rfl
    exact hhook hook hsome offsets d n hraised

namespace Kennel

/-- Nobody knows what a class is called above. -/
def stray (_ : String) : Program := .answer none []

/-- Whoever is asked about the methods of a class asks for the class itself, below animals, and then
says that it speaks. -/
def eager (cls : String) : Program :=
  .ask stray stray 0 cls (some 0) fun _ => .answer none ["speak"]

/-- A puppy is asked for, below dogs. -/
def race : Step World (Except Report ClassId) :=
  singletonWith (Program.host stray eager) 0 "Puppy" (some 1)

/-- The moments on the way to the puppy. -/
def raceMoments : List Moment :=
  callMoments (Program.host stray eager) (fun cls => (stray cls).moments)
    (fun cls => (eager cls).moments) 0 "Puppy" (some 1) dogs

/-- The puppy that comes first is one that no host has said anything about.  The creator that was
there before answers with it, and drops a puppy that would have been a dog. -/
theorem puppies_agree :
    ∃ w', race.Gives dogs (.ok 2) w' ∧ w'.fetchClass "Puppy" = some 2 ∧ w'.classes.length = 3 ∧
      (w'.get 2).parent = some 0 ∧ w'.host.registered = [("Puppy", "Animal")] ∧
      raceMoments.map (·.answered) =
        [none, none, none, some ("Puppy", 2), none, some ("Puppy", 2)] ∧
      (∀ m ∈ raceMoments, Whole m.world) ∧
      ∀ n, .faulted (.registryRace n) ∉ (race dogs).events := by
  have hlength : dogs.classes.length = 2 := by decide +kernel
  have hhook : dogs.hook = none := Option.isNone_iff_eq_none.1 (by decide +kernel)
  have hgiven : ∀ p : Nat, some 1 = some p → p < dogs.classes.length := by
    intro p hp
    rw [← Option.some.inj hp, hlength]
    decide
  obtain ⟨hlast, hanswered, -, hwhole, hrace⟩ :=
    creation_converges _ {} dogs_ensue stray eager 0 "Puppy" hgiven
  have hok : (race dogs).answer = .ok (.ok 2) := by decide +kernel
  have hend := List.mem_of_getLast? hlast
  refine ⟨_, ⟨hok, rfl⟩, (hanswered _ hend "Puppy" 2 (congrArg (answeredClass "Puppy") hok)).1,
    by decide +kernel, by decide +kernel, by decide +kernel, by decide +kernel,
    fun m hm => (hwhole m hm).1, hrace fun hook h => ?_⟩
  rw [hhook] at h
  cases h

end Kennel

end ObjectSystem
