import Mathlib.Algebra.Group.Int.Defs
import Mathlib.Algebra.Group.Nat.Defs
import Mathlib.Logic.Function.Iterate

/-! The clock algorithm for second chances.

A hand goes round a set of positions, each with a bit that says whether it has
been used. It clears the bits it finds set and stops at the first position whose
bit is clear; when every bit was set, that is the position it started from.
-/

set_option autoImplicit false

namespace Semantics

variable {P : Type} [DecidableEq P] (next : P → P)

/-- The position at which the hand stops and the bits it leaves, if it stops within the fuel. -/
def sweep : Nat → (P → Bool) → P → Option (P × (P → Bool))
  | 0, _, _ => none
  | fuel + 1, used, hand =>
      if used hand then sweep fuel (Function.update used hand false) (next hand) else some (hand, used)

/-- From `hand`, the first `size` positions are different and the next one is `hand` again. -/
structure Round (hand : P) (size : Nat) : Prop where
  nonempty : 0 < size
  closed : next^[size] hand = hand
  apart : ∀ i < size, ∀ j < size, next^[i] hand = next^[j] hand → i = j

def passedOver (used : P → Bool) (hand : P) (count : Nat) (position : P) : Bool :=
  used position && !decide (∃ k < count, next^[k] hand = position)

/-- The hand gave every position before the victim a second chance. -/
structure SecondChance (used : P → Bool) (hand : P) (size count : Nat) : Prop where
  within : count ≤ size
  passed : ∀ k < count, used (next^[k] hand) = true
  victim : count < size → used (next^[count] hand) = false

variable {next} {used : P → Bool} {hand : P} {size count : Nat}

theorem passedOver_zero : passedOver next used hand 0 = used := by
  funext position
  simp [passedOver]

theorem passedOver_succ (count : Nat) :
    passedOver next used hand (count + 1) =
      Function.update (passedOver next used hand count) (next^[count] hand) false := by
  funext position
  by_cases here : position = next^[count] hand
  · subst here
    have passed : ∃ k < count + 1, next^[k] hand = next^[count] hand := ⟨count, Nat.lt_succ_self count, rfl⟩
    simp only [passedOver, passed, decide_true, Bool.not_true, Bool.and_false, Function.update_self]
  · have same : (∃ k < count + 1, next^[k] hand = position) ↔ ∃ k < count, next^[k] hand = position := by
      constructor
      · rintro ⟨k, bound, reaches⟩
        have earlier : k ≠ count := by
          rintro rfl
          exact here reaches.symm
        exact ⟨k, by omega, reaches⟩
      · rintro ⟨k, bound, reaches⟩
        exact ⟨k, by omega, reaches⟩
    simp only [passedOver, same, Function.update_of_ne here]

/-- Within the first round, a position the hand has not passed still has its bit. -/
theorem passedOver_ahead (round : Round next hand size) (ahead : count < size) :
    passedOver next used hand count (next^[count] hand) = used (next^[count] hand) := by
  have fresh : ¬∃ k < count, next^[k] hand = next^[count] hand := by
    rintro ⟨k, bound, same⟩
    have := round.apart k (by omega) count ahead same
    omega
  simp [passedOver, fresh]

/-- After a whole round the hand is back at a position it has passed. -/
theorem passedOver_behind (round : Round next hand size) :
    passedOver next used hand size (next^[size] hand) = false := by
  have passed : ∃ k < size, next^[k] hand = next^[size] hand := ⟨0, round.nonempty, round.closed.symm⟩
  simp [passedOver, passed]

/-- From any point of the first round, the hand stops with the bits of the positions it passed cleared. -/
theorem sweep_from (used : P → Bool) (round : Round next hand size) (fuel : Nat) (within : count ≤ size)
    (before : ∀ k < count, used (next^[k] hand) = true) (enough : size - count < fuel) :
    ∃ stop, SecondChance next used hand size stop ∧
      sweep next fuel (passedOver next used hand count) (next^[count] hand) =
        some (next^[stop] hand, passedOver next used hand stop) := by
  induction fuel generalizing count with
  | zero => exact absurd enough (Nat.not_lt_zero _)
  | succ fuel ih =>
    unfold sweep
    by_cases last : count = size
    · subst last
      refine ⟨count, ⟨Nat.le_refl _, before, fun less => absurd less (Nat.lt_irrefl _)⟩, ?_⟩
      rw [passedOver_behind round, if_neg (by decide)]
    · have ahead : count < size := Nat.lt_of_le_of_ne within last
      rw [passedOver_ahead round ahead]
      cases here : used (next^[count] hand) with
      | false => exact ⟨count, ⟨within, before, fun _ => here⟩, rfl⟩
      | true =>
        have before' : ∀ k < count + 1, used (next^[k] hand) = true := by
          intro k bound
          rcases Nat.lt_succ_iff_lt_or_eq.mp bound with less | rfl
          · exact before k less
          · exact here
        obtain ⟨stop, chance, result⟩ := ih ahead before' (by omega)
        refine ⟨stop, chance, ?_⟩
        rw [if_pos rfl, ← passedOver_succ, ← Function.iterate_succ_apply' next]
        exact result

/-- The hand stops within one round and one look more. -/
theorem sweep_stops (used : P → Bool) (round : Round next hand size) {fuel : Nat} (enough : size < fuel) :
    ∃ stop, SecondChance next used hand size stop ∧
      sweep next fuel used hand = some (next^[stop] hand, passedOver next used hand stop) := by
  have result := sweep_from used round fuel (Nat.zero_le _) (fun k bound => absurd bound (Nat.not_lt_zero k))
    enough
  rwa [passedOver_zero] at result

end Semantics
