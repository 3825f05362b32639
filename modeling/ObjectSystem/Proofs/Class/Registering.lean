import ObjectSystem.Core
import ObjectSystem.Proofs.Class.Enduring

/-! # The size of the registry

A registry is made for a size that is asked for, or for the first name that is bound, and then it
has the default size.  Names are bound in many places, by parcels and by classes that are made on
demand.  What is said of the registry alone, and stays true when one more name is bound (`OnNames`),
is true after all of them, whether they answer or stop, unless another size is asked for.

There are two things to say.  A registry that there is keeps its size and what was bound
(`Stores`).  As long as there is none, no name is bound, and afterwards it is one of the default
size with a name in it (`Unsized`). -/

namespace ObjectSystem

/-- The operation is no request for a registry of some size. -/
def Operation.Sizeless (op : Operation) : Prop :=
  ∀ requested, op ≠ .ensureRegistry requested

namespace World

variable {w w' : World} {n : Nat} {bound : List (Binding ClassId)}

/-- What is said of the registry alone, and stays true when a name is bound. -/
structure OnNames (P : World → Prop) : Prop where
  of_same : ∀ {w w' : World}, w'.registry = w.registry → P w → P w'
  bindName : ∀ (name : String) (c : ClassId) {w : World}, P w → P (World.bindName name c w).state

namespace OnNames

variable {P : World → Prop} {α : Type} {x : Step World α}

theorem apart (h : OnNames P) : Apart P where
  of_same _ := h.of_same
  register _ w := h.bindName (w.nameOf _) _

theorem of_harmless (h : OnNames P) (hx : Harmless x) (hP : P w) : P (x w).state :=
  h.of_same (hx w w.hook w (.refl w)).1.registry hP

/-- It does not matter by which operations names are bound. -/
theorem enduring (h : OnNames P) : Enduring Operation.Sizeless P where
  operation {op w} hop _ hP := by
    rcases op.harmless_or with ⟨p, rfl⟩ | ⟨requested, rfl⟩ | ⟨name, c, rfl⟩ | ⟨c, rfl⟩ | hharmless
    · rw [Operation.state_bootstrap]
      exact (bootstrap_keeps h.apart p w hP).1
    · exact absurd rfl (hop requested)
    · rcases Operation.state_bindName name c w with heq | heq
      · rwa [heq]
      · rw [heq]
        exact h.bindName name c hP
    · rcases Operation.state_register c w with heq | heq
      · rwa [heq]
      · rw [heq]
        exact h.bindName _ c hP
    · exact h.of_harmless hharmless hP
  bindName name c _ _ := h.bindName name c
  enter {_ _ w} hP _ _ := h.of_same (w := w) rfl hP
  tell _ {w} hP := h.of_same (w := w) rfl hP

end OnNames

/-- From a whole world of which `P` is said the operation leads to such a world. -/
abbrev KeepsWhole {α : Type} (P : World → Prop) (x : Step World α) : Prop :=
  x.Keeps (fun w => Whole w ∧ P w) (fun _ => True) fun _ => True

section KeepsWhole

variable {P : World → Prop} {α : Type} {x : Step World α}

theorem KeepsWhole.of_goes {Q : α → World → Prop} (hgoes : ∀ w, Whole w → x.Goes Q w)
    (hP : ∀ w, Whole w → P w → P (x w).state) : KeepsWhole P x := fun w h =>
  ⟨⟨(hgoes w h.1).state.1, hP w h.1 h.2⟩, fun _ _ => trivial, fun _ _ => trivial⟩

namespace OnNames

variable (h : OnNames P)

include h

theorem keepsWhole_of_harmless (hx : Harmless x) : KeepsWhole P x :=
  .of_goes (fun _ hw => hx.goes hw) fun _ _ hP => h.of_harmless hx hP

theorem keepsWhole_bootstrap (p : ParcelSpec) : KeepsWhole P (World.bootstrap p) :=
  .of_goes (fun _ hw => .of_grown hw fun _ hholds => bootstrap_grown p hw.slots hholds)
    fun w _ hP => (bootstrap_keeps h.apart p w hP).1

theorem keepsWhole_build : KeepsWhole P Core.build :=
  (h.keepsWhole_bootstrap _).bind fun _ =>
    (h.keepsWhole_of_harmless ensureTruths_harmless).bind fun _ => .pure ()

theorem keepsWhole_run {p : Program} (hp : p.Only Operation.Sizeless) : KeepsWhole P p.run :=
  .of_goes (fun _ hw => p.goes hw) fun _ hw hP => h.enduring.run hp hw hP

end OnNames

end KeepsWhole

/-! ### Two things to say of the registry -/

/-- The registry is of size `n`.  It holds the bindings of `bound`, and perhaps others. -/
def Stores (n : Nat) (bound : List (Binding ClassId)) (w : World) : Prop :=
  ∃ reg more, w.registry = some reg ∧ reg.capacity = n ∧ reg.Represents (bound ++ more)

/-- There is no registry, or one that was made for a name. -/
def Unsized (w : World) : Prop :=
  w.registry = none ∨ ∃ b, Stores (Registry.capacityFor defaultCapacity) [b] w

theorem Stores.registry_ne_none (h : Stores n bound w) : w.registry ≠ none := by
  obtain ⟨reg, -, hreg, -⟩ := h
  rw [hreg]
  exact nofun

theorem Whole.stores {reg : Registry ClassId} (h : Whole w) (hreg : w.registry = some reg) :
    ∃ bound, reg.Represents bound ∧ Stores reg.capacity bound w := by
  obtain ⟨bound, hholds, -⟩ := h.bound
  unfold Holds at hholds
  rw [hreg] at hholds
  exact ⟨bound, hholds, reg, [], hreg, rfl, (List.append_nil bound).symm ▸ hholds⟩

theorem Stores.fetch {reg reg' : Registry ClassId} {name : String} {c : ClassId}
    (h : Stores n bound w) (hreg : reg.Represents bound) (hreg' : w.registry = some reg')
    (hc : reg.fetch name = some c) : reg'.fetch name = some c := by
  obtain ⟨reg₁, more, hreg₁, -, hrep⟩ := h
  obtain rfl : reg₁ = reg' := Option.some.inj (hreg₁.symm.trans hreg')
  rw [hreg.fetch_eq, Option.map_eq_some_iff] at hc
  obtain ⟨b, hb, rfl⟩ := hc
  rw [hrep.fetch_eq, List.find?_append, hb]
  rfl

theorem onNames_stores (n : Nat) (bound : List (Binding ClassId)) : OnNames (Stores n bound) where
  of_same hsame := by
    rintro ⟨reg, more, hreg, hrest⟩
    exact ⟨reg, more, hsame.trans hreg, hrest⟩
  bindName name c w := by
    rintro ⟨reg, more, hreg, rfl, hrep⟩
    obtain ⟨more', hrep', hcapacity⟩ := hrep.state_register name c
    rw [bindName_apply, hreg]
    exact ⟨_, more ++ more', rfl, hcapacity, List.append_assoc _ _ _ ▸ hrep'⟩

theorem onNames_unsized : OnNames Unsized where
  of_same hsame := by
    rintro (hnone | ⟨b, hb⟩)
    · exact .inl (hsame.trans hnone)
    · exact .inr ⟨b, (onNames_stores _ _).of_same hsame hb⟩
  bindName name c w := by
    rintro (hnone | ⟨b, hb⟩)
    · -- an empty table has room for the name
      have hnew := Registry.Represents.new (V := ClassId) w.hash defaultCapacity
      rw [bindName_apply, hnone]
      rcases hnew.register name c with ⟨hmem, -⟩ | ⟨-, -, reg, heq, hcapacity, hrep⟩ | ⟨-, hfull, -⟩
      · cases hmem
      · refine .inr ⟨⟨name, c⟩, reg, [], ?_, hcapacity.trans (Registry.capacity_new _ _), hrep⟩
        rw [Option.getD_none, heq]
        rfl
      · exact absurd hfull (Nat.ne_of_lt hnew.capacity_pos)
    · exact .inr ⟨b, (onNames_stores _ _).bindName name c hb⟩

theorem stores_ensureRegistry (requested : Nat) (hnone : w.registry = none) :
    Stores (Registry.capacityFor requested) [] (ensureRegistry requested w).state := by
  refine ⟨.new w.hash requested, [], ?_, Registry.capacity_new _ _, .new _ _⟩
  rw [ensureRegistry, Step.modify, hnone]
  rfl

theorem ensureRegistry_of_some {reg : Registry ClassId} (requested : Nat)
    (hreg : w.registry = some reg) : ensureRegistry requested w = ⟨w, .ok (), []⟩ := by
  rw [ensureRegistry, Step.modify, hreg, Option.getD_some, ← hreg]

end World

end ObjectSystem
