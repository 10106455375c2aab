import Mathlib.Algebra.Group.Int.Defs
import Mathlib.Algebra.Group.Nat.Defs
import Mathlib.Data.List.Basic

/-! Guarded transition systems and their runs.

A system is an executable step function: `step state event` is the next state
when the event is enabled and `none` otherwise. A schedule is a list of events.
Results about every run are obtained from one-step results by the rules below,
with or without a guard that each step of the run is required to meet. A step
that is itself made of smaller moves is reasoned about as a `Chain` of them.
-/

set_option autoImplicit false

namespace Semantics

section Runs
variable {S E : Type} (step : S → E → Option S)

def run : S → List E → Option S
  | state, [] => some state
  | state, event :: rest => (step state event).bind fun next => run next rest

/-- Every step of the replayed schedule meets the guard in the state before it. -/
def Along (guard : S → E → Prop) : S → List E → Prop
  | _, [] => True
  | state, event :: rest =>
      guard state event ∧ ∀ next, step state event = some next → Along guard next rest

instance decidableAlong (guard : S → E → Prop) [∀ state event, Decidable (guard state event)] :
    ∀ (state : S) (events : List E), Decidable (Along step guard state events)
  | _, [] => inferInstanceAs (Decidable True)
  | state, event :: rest =>
    let later : Decidable (∀ next, step state event = some next → Along step guard next rest) :=
      match step state event with
      | none => isTrue nofun
      | some next =>
        match decidableAlong guard next rest with
        | isTrue met => isTrue fun _ same => Option.some.inj same ▸ met
        | isFalse unmet => isFalse fun all => unmet (all next rfl)
    inferInstanceAs (Decidable (_ ∧ _))

@[simp] theorem run_nil (state : S) : run step state [] = some state := rfl

variable {state final : S} {events : List E}

theorem run_cons_some {event : E} {rest : List E} :
    run step state (event :: rest) = some final ↔
      ∃ next, step state event = some next ∧ run step next rest = some final := by
  simp only [run, Option.bind_eq_some_iff]

theorem run_append {first rest : List E} :
    run step state (first ++ rest) = some final ↔
      ∃ middle, run step state first = some middle ∧ run step middle rest = some final := by
  induction first generalizing state with
  | nil => simp
  | cons event first ih =>
    simp only [List.cons_append, run_cons_some, ih]
    constructor
    · rintro ⟨next, taken, middle, before, after⟩
      exact ⟨middle, ⟨next, taken, before⟩, after⟩
    · rintro ⟨middle, ⟨next, taken, before⟩, after⟩
      exact ⟨next, taken, middle, before, after⟩

/-- A relation between the events so far and the state reached, kept by every
guarded step, holds at the end of every guarded run. -/
theorem history_of_run {guard : S → E → Prop} (related : List E → S → Prop)
    (keep : ∀ past state event next, related past state → guard state event → step state event = some next → related (past ++ [event]) next)
    (start : related [] state) (along : Along step guard state events) (reached : run step state events = some final) :
    related events final := by
  have fromPast : ∀ (rest past : List E) (state : S), related past state → Along step guard state rest →
      run step state rest = some final → related (past ++ rest) final := by
    intro rest
    induction rest with
    | nil =>
      intro past state here _ reached
      cases reached
      simpa using here
    | cons event rest ih =>
      intro past state here along reached
      obtain ⟨next, taken, reached⟩ := (run_cons_some step).mp reached
      have later := ih _ next (keep past state event next here along.1 taken) (along.2 next taken) reached
      simpa using later
  exact fromPast events [] state start along reached

/-- An invariant kept by every guarded step holds at the end of every guarded run. -/
theorem invariant_of_run {guard : S → E → Prop} (invariant : S → Prop)
    (keep : ∀ state event next, invariant state → guard state event → step state event = some next → invariant next)
    (start : invariant state) (along : Along step guard state events) (reached : run step state events = some final) :
    invariant final :=
  history_of_run step (fun _ => invariant) (fun _ => keep) start along reached

theorem along_unguarded (state : S) (events : List E) : Along step (fun _ _ => True) state events := by
  induction events generalizing state with
  | nil => trivial
  | cons event rest ih => exact ⟨trivial, fun next _ => ih next⟩

theorem invariant_of_reached (invariant : S → Prop)
    (keep : ∀ state event next, invariant state → step state event = some next → invariant next)
    (start : invariant state) (reached : run step state events = some final) :
    invariant final :=
  invariant_of_run step invariant (fun state event next before _ => keep state event next before) start
    (along_unguarded step state events) reached

end Runs

section Chains
variable {S M : Type} (act : S → M → S) (fits : S → M → Prop)

inductive Chain : S → S → Prop where
  | stay (state : S) : Chain state state
  | move {state final : S} (next : M) : fits state next → Chain (act state next) final → Chain state final

variable {act fits}

variable {state : S}

theorem Chain.single (next : M) (fit : fits state next) : Chain act fits state (act state next) :=
  .move next fit (.stay _)

theorem Chain.trans {middle final : S} (first : Chain act fits state middle) (second : Chain act fits middle final) :
    Chain act fits state final := by
  induction first with
  | stay => exact second
  | move next fit _ ih => exact .move next fit (ih second)

theorem Chain.keeps (invariant : S → Prop)
    (keep : ∀ state next, invariant state → fits state next → invariant (act state next)) {final : S}
    (chain : Chain act fits state final) (start : invariant state) : invariant final := by
  induction chain with
  | stay => exact start
  | move next fit _ ih => exact ih (keep _ next start fit)

end Chains

end Semantics
