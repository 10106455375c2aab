import Mathlib.Algebra.Group.Int.Defs
import Mathlib.Algebra.Group.Nat.Defs
import Mathlib.Data.List.Basic

/-! Stateful computations with an abrupt end.

A computation reads and writes a state and either returns a value or stops for
a stated reason. A stop keeps the state at which it happened; no later part of
the computation runs. The inversion rules take a completed execution apart at
each bind, so that a proof about a composite never unfolds its parts.
-/

set_option autoImplicit false

namespace Semantics

inductive Execution (S W A : Type) where
  | returned (value : A) (state : S)
  | stopped (why : W) (state : S)

def Execution.state {S W A : Type} : Execution S W A → S
  | .returned _ state => state
  | .stopped _ state => state

def Execution.passes {S W A : Type} (test : A → S → Bool) : Execution S W A → Bool
  | .returned value state => test value state
  | .stopped _ _ => false

theorem Execution.passes_iff {S W A : Type} {test : A → S → Bool} {execution : Execution S W A} :
    execution.passes test = true ↔ ∃ value state, execution = .returned value state ∧ test value state = true := by
  cases execution with
  | returned value state => simp [Execution.passes]
  | stopped why state => simp [Execution.passes]

def Computation (S W A : Type) := S → Execution S W A

namespace Computation
variable {S W A B : Type}

protected def bind (first : Computation S W A) (next : A → Computation S W B) : Computation S W B :=
  fun state =>
    match first state with
    | .returned value after => next value after
    | .stopped why after => .stopped why after

instance : Monad (Computation S W) where
  pure value := fun state => .returned value state
  bind := Computation.bind

def get : Computation S W S := fun state => .returned state state

def modify (change : S → S) : Computation S W Unit := fun state => .returned () (change state)

def stop (why : W) : Computation S W A := fun state => .stopped why state

def require (why : W) (condition : S → Bool) : Computation S W Unit :=
  fun state => if condition state then .returned () state else .stopped why state

@[simp] theorem pure_apply (value : A) (state : S) :
    (pure value : Computation S W A) state = .returned value state := rfl

@[simp] theorem get_apply (state : S) : (get : Computation S W S) state = .returned state state := rfl

@[simp] theorem modify_apply (change : S → S) (state : S) :
    (modify change : Computation S W Unit) state = .returned () (change state) := rfl

@[simp] theorem stop_apply (why : W) (state : S) :
    (stop why : Computation S W A) state = .stopped why state := rfl

theorem bind_apply (first : Computation S W A) (next : A → Computation S W B) (state : S) :
    (first >>= next) state = match first state with
      | .returned value after => next value after
      | .stopped why after => .stopped why after := rfl

@[simp] theorem bind_get (next : S → Computation S W B) (state : S) :
    (get >>= next) state = next state state := rfl

@[simp] theorem bind_modify (change : S → S) (next : Unit → Computation S W B) (state : S) :
    (modify change >>= next) state = next () (change state) := rfl

@[simp] theorem bind_pure_apply (value : A) (next : A → Computation S W B) (state : S) :
    ((pure value : Computation S W A) >>= next) state = next value state := rfl

@[simp] theorem bind_stop (why : W) (next : A → Computation S W B) (state : S) :
    ((stop why : Computation S W A) >>= next) state = .stopped why state := rfl

variable {first : Computation S W A} {next : A → Computation S W B} {state final : S} {why : W} {condition : S → Bool}

theorem bind_of_returned {after : S} {value : A} (done : first state = .returned value after) :
    (first >>= next) state = next value after := by
  rw [bind_apply, done]

theorem bind_of_stopped {after : S} (ended : first state = .stopped why after) :
    (first >>= next) state = .stopped why after := by
  rw [bind_apply, ended]

theorem bind_bind {C : Type} (first : Computation S W A) (next : A → Computation S W B) (last : B → Computation S W C) (state : S) :
    ((first >>= next) >>= last) state = (first >>= fun value => next value >>= last) state := by
  simp only [bind_apply]
  cases first state with
  | returned value after => rfl
  | stopped why after => rfl

theorem bind_congr {other : A → Computation S W B}
    (same : ∀ value after, first state = .returned value after → next value after = other value after) :
    (first >>= next) state = (first >>= other) state := by
  simp only [bind_apply]
  cases ran : first state with
  | returned value after => exact same value after ran
  | stopped why after => rfl

theorem bind_returned {result : B} :
    (first >>= next) state = .returned result final ↔
      ∃ value after, first state = .returned value after ∧ next value after = .returned result final := by
  rw [bind_apply]
  cases first state with
  | returned value after => simp
  | stopped why after => simp

theorem bind_stopped :
    (first >>= next) state = .stopped why final ↔
      first state = .stopped why final ∨
        ∃ value after, first state = .returned value after ∧ next value after = .stopped why final := by
  rw [bind_apply]
  cases first state with
  | returned value after => simp
  | stopped reason after => simp

theorem require_returned :
    (require why condition) state = .returned () final ↔ condition state = true ∧ final = state := by
  simp only [require]
  split <;> rename_i met
  · simp [met, eq_comm]
  · simp [met]

theorem require_stopped {reason : W} :
    (require why condition) state = .stopped reason final ↔
      condition state = false ∧ reason = why ∧ final = state := by
  simp only [require]
  split <;> rename_i met
  · simp [met]
  · simp [met, eq_comm]

theorem require_of_true (met : condition state = true) :
    (require why condition) state = .returned () state := by simp [require, met]

end Computation

section Loops
variable {S : Type}

theorem foldl_idle {I : Type} {act : S → I → S} {state : S} {indices : List I}
    (still : ∀ index ∈ indices, act state index = state) : indices.foldl act state = state := by
  induction indices with
  | nil => rfl
  | cons first rest ih =>
    rw [List.foldl_cons, still first (by simp)]
    exact ih fun index inside => still index (by simp [inside])

/-- A loop over distinct indices in which only one index acts: the others leave
both the state before it and the state after it as they are. -/
theorem foldl_single {I : Type} {act : S → I → S} {state : S} {chosen : I} {indices : List I}
    (distinct : indices.Nodup) (member : chosen ∈ indices)
    (before : ∀ other ∈ indices, other ≠ chosen → act state other = state)
    (after : ∀ other ∈ indices, other ≠ chosen → act (act state chosen) other = act state chosen) :
    indices.foldl act state = act state chosen := by
  obtain ⟨front, back, rfl⟩ := List.append_of_mem member
  have split := List.nodup_append.mp distinct
  have notFront : chosen ∉ front := fun inside => split.2.2 chosen inside chosen (by simp) rfl
  have notBack : chosen ∉ back := (List.nodup_cons.mp split.2.1).1
  rw [List.foldl_append, List.foldl_cons]
  rw [foldl_idle fun other inside => before other (by simp [inside]) (fun same => notFront (same ▸ inside))]
  exact foldl_idle fun other inside => after other (by simp [inside]) (fun same => notBack (same ▸ inside))

end Loops

end Semantics
