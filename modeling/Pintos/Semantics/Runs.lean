import Mathlib.Algebra.Group.Int.Defs
import Mathlib.Algebra.Group.Nat.Defs
import Mathlib.Data.List.Pairwise

/-! Runs of consecutive numbers that a set of bits accounts for.

The numbers below some size are taken by pairwise disjoint runs, and a bit is
set exactly for the numbers that are taken. A run may be added where all bits
are clear, and any of the runs may be taken out.
-/

set_option autoImplicit false

namespace Semantics

structure Run where
  start : Nat
  cnt : Nat
  deriving DecidableEq, Repr

namespace Run

def Covers (r : Run) (i : Nat) : Prop := r.start ≤ i ∧ i < r.start + r.cnt

instance (r : Run) (i : Nat) : Decidable (r.Covers i) := inferInstanceAs (Decidable (_ ∧ _))

def Apart (r other : Run) : Prop := ∀ i, r.Covers i → ¬other.Covers i

instance : Std.Symm Apart := ⟨fun _ _ apart i second first => apart i first second⟩

theorem not_apart_self {r : Run} (positive : 0 < r.cnt) : ¬Apart r r := fun apart =>
  apart r.start ⟨Nat.le_refl _, by omega⟩ ⟨Nat.le_refl _, by omega⟩

end Run

structure Accounted (bits : Nat → Bool) (size : Nat) (runs : List Run) : Prop where
  positive : ∀ r ∈ runs, 0 < r.cnt
  fits : ∀ r ∈ runs, r.start + r.cnt ≤ size
  apart : runs.Pairwise Run.Apart
  bits : ∀ i < size, bits i = true ↔ ∃ r ∈ runs, r.Covers i

namespace Accounted
variable {bits next : Nat → Bool} {size : Nat} {runs : List Run} {r : Run}

theorem empty (clear : ∀ i < size, bits i = false) : Accounted bits size [] :=
  ⟨by simp, by simp, .nil, fun i inside => by simp [clear i inside]⟩

section
variable (accounted : Accounted bits size runs)
include accounted

theorem nodup : runs.Nodup := by
  have pairs : runs.Pairwise fun r other => r ∈ runs ∧ Run.Apart r other :=
    accounted.apart.imp_of_mem fun first _ apart => ⟨first, apart⟩
  refine pairs.imp fun {r other} ⟨inside, apart⟩ same => ?_
  rw [same] at inside apart
  exact Run.not_apart_self (accounted.positive other inside) apart

theorem apart_of_mem (inside : r ∈ runs) {other : Run} (there : other ∈ runs)
    (different : r ≠ other) : Run.Apart r other :=
  accounted.apart.forall inside there different

theorem add (positive : 0 < r.cnt) (fits : r.start + r.cnt ≤ size)
    (free : ∀ i, r.Covers i → bits i = false) (set : ∀ i, next i = if r.Covers i then true else bits i) :
    Accounted next size (r :: runs) := by
  have covered {i : Nat} (covers : r.Covers i) : i < size := Nat.lt_of_lt_of_le covers.2 fits
  refine ⟨?_, ?_, List.pairwise_cons.mpr ⟨fun other inside i mine theirs => ?_, accounted.apart⟩, fun i inside => ?_⟩
  · simpa using ⟨positive, accounted.positive⟩
  · simpa using ⟨fits, accounted.fits⟩
  · have taken := (accounted.bits i (covered mine)).mpr ⟨other, inside, theirs⟩
    rw [free i mine] at taken
    cases taken
  · rw [set]
    split <;> rename_i covers
    · simp [covers]
    · simp [covers, accounted.bits i inside]

theorem remove (inside : r ∈ runs)
    (clear : ∀ i, next i = if r.Covers i then false else bits i) : Accounted next size (runs.erase r) := by
  have others {other : Run} (left : other ∈ runs.erase r) : other ∈ runs ∧ Run.Apart r other := by
    obtain ⟨different, there⟩ := accounted.nodup.mem_erase_iff.mp left
    exact ⟨there, accounted.apart_of_mem inside there different.symm⟩
  refine ⟨fun other left => accounted.positive other (others left).1, fun other left => accounted.fits other (others left).1,
    accounted.apart.sublist List.erase_sublist, fun i bound => ?_⟩
  rw [clear]
  split <;> rename_i covers
  · simp only [Bool.false_eq_true, false_iff, not_exists, not_and]
    exact fun other left => (others left).2 i covers
  · rw [accounted.bits i bound]
    constructor
    · rintro ⟨other, there, theirs⟩
      refine ⟨other, accounted.nodup.mem_erase_iff.mpr ⟨?_, there⟩, theirs⟩
      rintro rfl
      exact covers theirs
    · rintro ⟨other, left, theirs⟩
      exact ⟨other, (others left).1, theirs⟩

end

end Accounted

end Semantics
