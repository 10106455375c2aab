import Pintos.Semantics.Computation

/-! Computations that do not depend on a part of the state, or leave one alone.

Two states are related when they differ only in what the computation must not
depend on. A computation blind to the difference ends the same way from both,
in related states again. What a computation leaves alone is a view of the state
that is the same when it returns; a stop only has to meet a condition.
-/

set_option autoImplicit false

namespace Semantics

inductive Execution.Alike {S W A : Type} (related : S → S → Prop) : Execution S W A → Execution S W A → Prop
  | returned {first second : S} (value : A) : related first second →
      Alike related (.returned value first) (.returned value second)
  | stopped {first second : S} (why : W) : related first second → Alike related (.stopped why first) (.stopped why second)

namespace Computation
variable {S W A B : Type}

section Blind
variable {related : S → S → Prop}

def Blind (related : S → S → Prop) (computation : Computation S W A) : Prop :=
  ∀ first second, related first second → (computation first).Alike related (computation second)

theorem blind_pure (value : A) : Blind (W := W) related (pure value) := fun _ _ => .returned value

theorem blind_stop (why : W) : Blind (A := A) related (stop why) := fun _ _ => .stopped why

theorem blind_bind {first : Computation S W A} {next : A → Computation S W B} (before : Blind related first)
    (after : ∀ value, Blind related (next value)) : Blind related (first >>= next) := by
  intro left right alike
  have ends := before left right alike
  rw [bind_apply, bind_apply]
  generalize first left = one at ends ⊢
  generalize first right = other at ends ⊢
  cases ends with
  | returned value alike => exact after value _ _ alike
  | stopped why alike => exact .stopped why alike

theorem blind_get {next : S → Computation S W B}
    (same : ∀ first second, related first second → next second = next first)
    (after : ∀ state, Blind related (next state)) : Blind related (get >>= next) := by
  intro left right alike
  rw [bind_get, bind_get, same left right alike]
  exact after left left right alike

theorem blind_modify {change : S → S} (kept : ∀ first second, related first second → related (change first) (change second)) :
    Blind (W := W) related (modify change) := fun first second alike => .returned () (kept first second alike)

theorem blind_require {why : W} {condition : S → Bool}
    (same : ∀ first second, related first second → condition second = condition first) :
    Blind related (require why condition) := by
  intro left right alike
  simp only [require, same left right alike]
  split
  · exact .returned () alike
  · exact .stopped why alike

theorem blind_ite {condition : Prop} [Decidable condition] {first second : Computation S W A}
    (yes : Blind related first) (no : Blind related second) : Blind related (if condition then first else second) := by
  split
  · exact yes
  · exact no

theorem foldl_related {I : Type} {act : S → I → S}
    (kept : ∀ first second index, related first second → related (act first index) (act second index))
    (indices : List I) {first second : S} (alike : related first second) :
    related (indices.foldl act first) (indices.foldl act second) := by
  induction indices generalizing first second with
  | nil => exact alike
  | cons index rest ih => exact ih (kept first second index alike)

end Blind

section Leaves
variable {V : Type} {view : S → V} {ended : W → S → Prop}

def Leaves (view : S → V) (ended : W → S → Prop) (computation : Computation S W A) : Prop :=
  ∀ state, match computation state with
    | .returned _ after => view after = view state
    | .stopped why after => ended why after

variable {computation : Computation S W A} {why : W}

theorem leaves_returned (leaves : Leaves view ended computation) {state final : S} {value : A}
    (done : computation state = .returned value final) : view final = view state := by
  have kept := leaves state
  rwa [done] at kept

theorem leaves_stopped (leaves : Leaves view ended computation) {state final : S}
    (stopped : computation state = .stopped why final) : ended why final := by
  have kept := leaves state
  rwa [stopped] at kept

theorem leaves_map {U : Type} (coarser : V → U) (leaves : Leaves view ended computation) :
    Leaves (fun state => coarser (view state)) ended computation := by
  intro state
  have kept := leaves state
  cases ran : computation state with
  | returned value final =>
    rw [ran] at kept
    exact congrArg coarser kept
  | stopped why final => rwa [ran] at kept

theorem leaves_pure (value : A) : Leaves view ended (pure value) := fun _ => rfl

theorem leaves_stop (ends : ∀ state, ended why state) : Leaves (A := A) view ended (stop why) := ends

theorem leaves_bind {first : Computation S W A} {next : A → Computation S W B} (before : Leaves view ended first)
    (after : ∀ value, Leaves view ended (next value)) : Leaves view ended (first >>= next) := by
  intro state
  have kept := before state
  rw [bind_apply]
  cases ran : first state with
  | stopped why between => rwa [ran] at kept
  | returned value between =>
    rw [ran] at kept
    have rest := after value between
    dsimp only
    cases ends : next value between with
    | stopped why final => rwa [ends] at rest
    | returned result final =>
      rw [ends] at rest
      exact Eq.trans rest kept

theorem leaves_get {next : S → Computation S W B} (after : ∀ state, Leaves view ended (next state)) :
    Leaves view ended (get >>= next) := fun state => after state state

theorem leaves_modify {change : S → S} (kept : ∀ state, view (change state) = view state) :
    Leaves view ended (modify change) := kept

theorem leaves_require {condition : S → Bool} (ends : ∀ state, ended why state) :
    Leaves view ended (require why condition) := by
  intro state
  simp only [require]
  by_cases met : condition state = true
  · simp [met]
  · simp [met, ends]

theorem leaves_ite {condition : Prop} [Decidable condition] {first second : Computation S W A}
    (yes : Leaves view ended first) (no : Leaves view ended second) :
    Leaves view ended (if condition then first else second) := by
  split
  · exact yes
  · exact no

theorem foldl_view {I : Type} {act : S → I → S} (kept : ∀ state index, view (act state index) = view state)
    (indices : List I) (state : S) : view (indices.foldl act state) = view state := by
  induction indices generalizing state with
  | nil => rfl
  | cons index rest ih => exact (ih (act state index)).trans (kept state index)

end Leaves

end Computation

end Semantics
