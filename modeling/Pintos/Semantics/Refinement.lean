import Mathlib.Algebra.Group.Int.Defs
import Mathlib.Algebra.Group.Nat.Defs
import Mathlib.Data.List.Basic

/-! Machines that answer each operation, and data refinement between them.

A machine goes from state to state and gives an answer at each operation. One
machine refines another when a relation between their states is kept by every
operation and the answers are the same.
-/

set_option autoImplicit false

namespace Semantics

variable {S T E O : Type}

def replay (machine : S → E → S × O) : S → List E → S × List O
  | state, [] => (state, [])
  | state, op :: rest =>
    let (next, answer) := machine state op
    let (last, answers) := replay machine next rest
    (last, answer :: answers)

def Refines (related : T → S → Prop) (specified : T → E → T × O) (machine : S → E → S × O) : Prop :=
  ∀ above below op, related above below →
    related (specified above op).1 (machine below op).1 ∧ (specified above op).2 = (machine below op).2

theorem Refines.replay {related : T → S → Prop} {specified : T → E → T × O} {machine : S → E → S × O}
    (refines : Refines related specified machine) (ops : List E) :
    ∀ above below, related above below →
      related (Semantics.replay specified above ops).1 (Semantics.replay machine below ops).1 ∧
        (Semantics.replay specified above ops).2 = (Semantics.replay machine below ops).2 := by
  induction ops with
  | nil => exact fun above below start => ⟨start, rfl⟩
  | cons op rest ih =>
    intro above below start
    obtain ⟨kept, answer⟩ := refines above below op start
    obtain ⟨last, answers⟩ := ih _ _ kept
    exact ⟨last, congrArg₂ List.cons answer answers⟩

end Semantics
