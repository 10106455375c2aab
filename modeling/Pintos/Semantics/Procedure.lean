import Pintos.Semantics.Computation

/-! Procedures as trees of calls.

A procedure is given by the calls it makes and by what it does with each reply;
what a call means is left to a handler. One procedure can so be run over a
state, watched for the calls it makes, or interleaved with others call by call.
-/

set_option autoImplicit false

namespace Semantics

structure Signature where
  Op : Type
  Reply : Op → Type

inductive Procedure (I : Signature) (A : Type) where
  | done (value : A)
  | call (op : I.Op) (next : I.Reply op → Procedure I A)

namespace Procedure
variable {I : Signature} {A B S W Phase : Type}

protected def bind : Procedure I A → (A → Procedure I B) → Procedure I B
  | .done value, next => next value
  | .call op rest, next => .call op fun reply => (rest reply).bind next

instance : Monad (Procedure I) where
  pure := .done
  bind := Procedure.bind

def perform (op : I.Op) : Procedure I (I.Reply op) := .call op .done

abbrev Handler (I : Signature) (S W : Type) := (op : I.Op) → Computation S W (I.Reply op)

section Handled
variable (handler : Handler I S W)

def execute : Procedure I A → Computation S W A
  | .done value => pure value
  | .call op next => handler op >>= fun reply => (next reply).execute

@[simp] theorem execute_pure (value : A) : (pure value : Procedure I A).execute handler = pure value := rfl

@[simp] theorem execute_perform (op : I.Op) : (perform op).execute handler = handler op := by
  funext state
  show (handler op >>= pure) state = _
  rw [Computation.bind_apply]
  cases handler op state with
  | returned reply after => rfl
  | stopped why after => rfl

@[simp] theorem execute_bind (first : Procedure I A) (next : A → Procedure I B) :
    (first >>= next).execute handler = first.execute handler >>= fun value => (next value).execute handler := by
  funext state
  induction first generalizing state with
  | done value => rfl
  | call op rest ih =>
    show (handler op >>= fun reply => ((rest reply).bind next).execute handler) state = _
    rw [Computation.bind_apply]
    show _ = ((handler op >>= fun reply => (rest reply).execute handler) >>= fun value => (next value).execute handler) state
    rw [Computation.bind_apply, Computation.bind_apply]
    cases handler op state with
    | returned reply after => exact ih reply after
    | stopped why after => rfl

/-- The calls made from a state, in order; the last one may not have returned. -/
def performed : Procedure I A → S → List I.Op
  | .done _, _ => []
  | .call op next, state =>
    op :: match handler op state with
      | .returned reply after => (next reply).performed after
      | .stopped _ _ => []

/-- Every call made is an allowed one, and a returned value meets the postcondition. -/
def Keeps (allowed : I.Op → Prop) : Procedure I A → S → (A → S → Prop) → Prop
  | .done value, state, post => post value state
  | .call op next, state, post =>
    allowed op ∧ ∀ reply after, handler op state = .returned reply after → Keeps allowed (next reply) after post

variable {handler} {allowed : I.Op → Prop}

@[simp] theorem keeps_pure (value : A) (state : S) (post : A → S → Prop) :
    Keeps handler allowed (pure value : Procedure I A) state post ↔ post value state := Iff.rfl

@[simp] theorem keeps_perform (op : I.Op) (state : S) (post : I.Reply op → S → Prop) :
    Keeps handler allowed (perform op) state post ↔
      allowed op ∧ ∀ reply after, handler op state = .returned reply after → post reply after := Iff.rfl

@[simp] theorem keeps_bind (first : Procedure I A) (next : A → Procedure I B) (state : S) (post : B → S → Prop) :
    Keeps handler allowed (first >>= next) state post ↔
      Keeps handler allowed first state fun value after => Keeps handler allowed (next value) after post := by
  induction first generalizing state with
  | done value => exact Iff.rfl
  | call op rest ih =>
    exact and_congr_right fun _ => forall_congr' fun reply => forall_congr' fun after =>
      imp_congr_right fun _ => ih reply after

variable {procedure : Procedure I A} {state : S} {value : A}

theorem keeps_mono {post weaker : A → S → Prop} (implied : ∀ value after, post value after → weaker value after)
    (kept : Keeps handler allowed procedure state post) : Keeps handler allowed procedure state weaker := by
  induction procedure generalizing state with
  | done value => exact implied value state kept
  | call op next ih => exact ⟨kept.1, fun reply after replied => ih reply (kept.2 reply after replied)⟩

/-- What `Keeps` says of the calls is a fact about the calls actually made. -/
theorem keeps_iff_performed (procedure : Procedure I A) (state : S) :
    Keeps handler allowed procedure state (fun _ _ => True) ↔
      ∀ op ∈ procedure.performed handler state, allowed op := by
  induction procedure generalizing state with
  | done value => simp [Keeps, performed]
  | call op next ih =>
    simp only [Keeps, performed, List.mem_cons, forall_eq_or_imp]
    refine and_congr_right fun _ => ?_
    cases handler op state with
    | returned reply after =>
      constructor
      · intro kept
        exact (ih reply after).mp (kept reply after rfl)
      · rintro within other final ⟨⟩
        exact (ih reply after).mpr within
    | stopped why after => simp

theorem keeps_returned {final : S} {post : A → S → Prop} (kept : Keeps handler allowed procedure state post)
    (returned : procedure.execute handler state = .returned value final) :
    post value final := by
  induction procedure generalizing state with
  | done result =>
    cases returned
    exact kept
  | call op next ih =>
    obtain ⟨reply, after, replied, rest⟩ := Computation.bind_returned.mp returned
    exact ih reply (kept.2 reply after replied) rest

theorem keeps_rest {first : Procedure I A} {next : A → Procedure I B} {after : S} {post : B → S → Prop}
    (returned : first.execute handler state = .returned value after)
    (kept : Keeps handler allowed (first >>= next) state post) : Keeps handler allowed (next value) after post := by
  have parts := (keeps_bind _ _ _ _).mp kept
  have rest := keeps_returned parts returned
  exact rest

theorem keeps_replied {final : S} (returned : procedure.execute handler state = .returned value final) :
    Keeps handler (fun op => Nonempty (I.Reply op)) procedure state fun _ _ => True := by
  induction procedure generalizing state with
  | done result => trivial
  | call op next ih =>
    obtain ⟨reply, after, replied, rest⟩ := Computation.bind_returned.mp returned
    refine ⟨⟨reply⟩, fun other between same => ?_⟩
    cases replied.symm.trans same
    exact ih reply rest

/-- A property every allowed call keeps holds where the execution ends, however it ends. -/
theorem kept_of_performed (kept : S → Prop)
    (keeps : ∀ op before, allowed op → kept before → kept (handler op before).state)
    (within : ∀ op ∈ procedure.performed handler state, allowed op) (start : kept state) :
    kept (procedure.execute handler state).state := by
  induction procedure generalizing state with
  | done value => exact start
  | call op next ih =>
    simp only [performed] at within
    have first := keeps op state (within op List.mem_cons_self) start
    simp only [execute, Computation.bind_apply]
    cases replied : handler op state with
    | returned reply after =>
      rw [replied] at first within
      exact ih reply (fun other inside => within other (List.mem_cons_of_mem _ inside)) first
    | stopped why after =>
      rw [replied] at first
      exact first

/-- A handler that differs from another only in stopping for a given reason
makes the same calls, or the execution stops for that reason. -/
theorem performed_of_stricter {lenient : Handler I S W} {why : W}
    (stricter : ∀ op state, handler op state = lenient op state ∨ ∃ after, handler op state = .stopped why after)
    (procedure : Procedure I A) (state : S) :
    procedure.performed lenient state = procedure.performed handler state ∨
      ∃ after, procedure.execute handler state = .stopped why after := by
  induction procedure generalizing state with
  | done value => exact .inl rfl
  | call op next ih =>
    simp only [performed, execute, Computation.bind_apply]
    rcases stricter op state with same | ⟨after, stopped⟩
    · rw [same]
      cases lenient op state with
      | returned reply after =>
        refine (ih reply after).imp (fun calls => ?_) id
        simp only [calls]
      | stopped reason after => exact .inl rfl
    · exact .inr ⟨after, by rw [stopped]⟩

end Handled

section Vocabulary
variable (allowed : I.Op → Prop)

/-- Every call in the tree is an allowed one, whatever the replies. -/
def Makes : Procedure I A → Prop
  | .done _ => True
  | .call op next => allowed op ∧ ∀ reply, Makes (next reply)

variable {allowed}

@[simp] theorem makes_pure (value : A) : Makes allowed (pure value : Procedure I A) := trivial

@[simp] theorem makes_perform (op : I.Op) : Makes allowed (perform op) ↔ allowed op := by
  simp [perform, Makes]

theorem makes_bind {first : Procedure I A} {next : A → Procedure I B} (before : Makes allowed first)
    (after : ∀ value, Makes allowed (next value)) : Makes allowed (first >>= next) := by
  induction first with
  | done value => exact after value
  | call op rest ih => exact ⟨before.1, fun reply => ih reply (before.2 reply)⟩

variable {procedure : Procedure I A} {handler : Handler I S W}

theorem makes_mono {weaker : I.Op → Prop} (implied : ∀ op, allowed op → weaker op) (makes : Makes allowed procedure) :
    Makes weaker procedure := by
  induction procedure with
  | done value => trivial
  | call op next ih => exact ⟨implied op makes.1, fun reply => ih reply (makes.2 reply)⟩

theorem stopped_of_makes (makes : Makes allowed procedure) {state final : S} {why : W}
    (stopped : procedure.execute handler state = .stopped why final) :
    ∃ op before, allowed op ∧ handler op before = .stopped why final := by
  induction procedure generalizing state with
  | done value => cases stopped
  | call op next ih =>
    rcases Computation.bind_stopped.mp stopped with here | ⟨reply, after, _, later⟩
    · exact ⟨op, state, makes.1, here⟩
    · exact ih reply (makes.2 reply) later

/-- Of a body whose calls are all allowed, a postcondition is one of its executions. -/
theorem keeps_of_makes (makes : Makes allowed procedure) (state : S) :
    Keeps handler allowed procedure state fun value after => procedure.execute handler state = .returned value after := by
  have general : ∀ post : A → S → Prop,
      (∀ value after, procedure.execute handler state = .returned value after → post value after) →
      Keeps handler allowed procedure state post := by
    induction procedure generalizing state with
    | done value => exact fun post all => all value state rfl
    | call op next ih =>
      intro post all
      refine ⟨makes.1, fun reply after replied => ih reply (makes.2 reply) after post fun value final returned => ?_⟩
      exact all value final (Computation.bind_returned.mpr ⟨reply, after, replied, returned⟩)
  exact general _ fun _ _ returned => returned

theorem performed_of_makes (makes : Makes allowed procedure) (state : S) :
    ∀ op ∈ procedure.performed handler state, allowed op :=
  (keeps_iff_performed procedure state).mp (keeps_mono (fun _ _ _ => trivial) (keeps_of_makes makes state))

theorem makes_ite {condition : Prop} [Decidable condition] {first second : Procedure I A}
    (yes : Makes allowed first) (no : Makes allowed second) :
    Makes allowed (if condition then first else second) := by
  by_cases met : condition
  · rwa [if_pos met]
  · rwa [if_neg met]

end Vocabulary

section Protocols
variable (protocol : Phase → I.Op → Option Phase)

/-- Whatever the replies, each call is one the protocol admits in the phase
reached, and a returned value meets the postcondition in the last phase. -/
def Conforms : Procedure I A → Phase → (A → Phase → Prop) → Prop
  | .done value, phase, post => post value phase
  | .call op next, phase, post =>
    ∃ after, protocol phase op = some after ∧ ∀ reply, Conforms (next reply) after post

variable {protocol}

@[simp] theorem conforms_pure (value : A) (phase : Phase) (post : A → Phase → Prop) :
    Conforms protocol (pure value : Procedure I A) phase post ↔ post value phase := Iff.rfl

@[simp] theorem conforms_perform (op : I.Op) (phase : Phase) (post : I.Reply op → Phase → Prop) :
    Conforms protocol (perform op) phase post ↔
      ∃ after, protocol phase op = some after ∧ ∀ reply, post reply after := Iff.rfl

@[simp] theorem conforms_bind (first : Procedure I A) (next : A → Procedure I B) (phase : Phase)
    (post : B → Phase → Prop) :
    Conforms protocol (first >>= next) phase post ↔
      Conforms protocol first phase fun value after => Conforms protocol (next value) after post := by
  induction first generalizing phase with
  | done value => exact Iff.rfl
  | call op rest ih =>
    exact exists_congr fun after => and_congr_right fun _ => forall_congr' fun reply => ih reply after

theorem conforms_mono {procedure : Procedure I A} {phase : Phase} {post weaker : A → Phase → Prop}
    (implied : ∀ value after, post value after → weaker value after)
    (conforms : Conforms protocol procedure phase post) : Conforms protocol procedure phase weaker := by
  induction procedure generalizing phase with
  | done value => exact implied value phase conforms
  | call op next ih =>
    obtain ⟨after, admitted, later⟩ := conforms
    exact ⟨after, admitted, fun reply => ih reply (later reply)⟩

theorem conforms_of_makes {allowed : I.Op → Prop} {phase : Phase} (stays : ∀ op, allowed op → protocol phase op = some phase)
    {procedure : Procedure I A} (makes : Makes allowed procedure) :
    Conforms protocol procedure phase fun _ after => after = phase := by
  induction procedure with
  | done value => rfl
  | call op next ih => exact ⟨phase, stays op makes.1, fun reply => ih reply (makes.2 reply)⟩

end Protocols

end Procedure

end Semantics
