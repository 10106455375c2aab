import Pintos.Semantics.Transition

/-! Semaphores (`threads/synch.c`).

With interrupts off a thread tests the value and either takes a unit or puts
itself at the end of `waiters` and sleeps; a thread that was woken tests again,
at any later time. Raising a semaphore wakes the first waiter and adds a unit
that any thread may take before the woken one does.
-/

set_option autoImplicit false

namespace Pintos.Threads
open Semantics

structure Semaphore where
  value : UInt32
  waiters : List Nat
  deriving DecidableEq, Repr

namespace Semaphore

def init (value : UInt32) : Semaphore := ⟨value, []⟩

def test (sema : Semaphore) (thread : Nat) : Semaphore × Bool :=
  if sema.value = 0 then ({ sema with waiters := sema.waiters ++ [thread] }, false)
  else ({ sema with value := sema.value - 1 }, true)

def tryDown (sema : Semaphore) : Semaphore × Bool :=
  if 0 < sema.value then ({ sema with value := sema.value - 1 }, true) else (sema, false)

def up (sema : Semaphore) : Semaphore × Option Nat :=
  (⟨sema.value + 1, sema.waiters.tail⟩, sema.waiters.head?)

variable {sema : Semaphore} {thread : Nat}

theorem test_of_zero (zero : sema.value = 0) :
    sema.test thread = ({ sema with waiters := sema.waiters ++ [thread] }, false) := if_pos zero

theorem test_of_ne (free : sema.value ≠ 0) : sema.test thread = ({ sema with value := sema.value - 1 }, true) :=
  if_neg free

theorem tryDown_of_zero (zero : sema.value = 0) : sema.tryDown = (sema, false) := by
  rw [tryDown, zero]
  rfl

theorem tryDown_of_ne (free : sema.value ≠ 0) : sema.tryDown = ({ sema with value := sema.value - 1 }, true) :=
  if_pos (UInt32.pos_iff_ne_zero.mpr free)

theorem toNat_pred (free : sema.value ≠ 0) : (sema.value - 1).toNat + 1 = sema.value.toNat := by
  have positive : 0 < sema.value.toNat := UInt32.pos_iff_ne_zero.mpr free
  have one : (1 : UInt32).toNat = 1 := rfl
  rw [UInt32.toNat_sub_of_le _ _ (UInt32.le_iff_toNat_le.mpr (by omega)), one]
  omega

theorem toNat_succ (room : sema.value.toNat + 1 < 2 ^ 32) : (sema.value + 1).toNat = sema.value.toNat + 1 := by
  have one : (1 : UInt32).toNat = 1 := rfl
  rw [UInt32.toNat_add, one, Nat.mod_eq_of_lt room]

end Semaphore

/-- A semaphore and its threads. `woken` are off `waiters` and have not tested again; `queued` and
`wakes` are the threads that slept and those that were woken so far, in order. -/
structure Waiting where
  sema : Semaphore
  woken : List Nat
  ups : Nat
  downs : Nat
  queued : List Nat
  wakes : List Nat
  deriving DecidableEq, Repr

namespace Waiting

def start (value : UInt32) : Waiting := ⟨Semaphore.init value, [], 0, 0, [], []⟩

inductive Event where
  | down (thread : Nat)
  /-- A woken thread goes on in `sema_down`. -/
  | resume (thread : Nat)
  /-- By a thread or by an interrupt handler. -/
  | tryDown
  | up
  deriving DecidableEq, Repr

def tested (s : Waiting) (thread : Nat) : Waiting :=
  match s.sema.test thread with
  | (sema, true) => { s with sema := sema, downs := s.downs + 1 }
  | (sema, false) => { s with sema := sema, queued := s.queued ++ [thread] }

def step (s : Waiting) : Event → Option Waiting
  | .down thread => if thread ∈ s.sema.waiters ∨ thread ∈ s.woken then none else some (s.tested thread)
  | .resume thread => if thread ∈ s.woken then some ({ s with woken := s.woken.erase thread }.tested thread) else none
  | .tryDown =>
    match s.sema.tryDown with
    | (sema, true) => some { s with sema := sema, downs := s.downs + 1 }
    | (_, false) => some s
  | .up =>
    match s.sema.up with
    | (sema, some thread) =>
      some { s with sema := sema, ups := s.ups + 1, woken := s.woken ++ [thread], wakes := s.wakes ++ [thread] }
    | (sema, none) => some { s with sema := sema, ups := s.ups + 1 }

/-- No unit is added to the largest value of an `unsigned`. -/
def Fits (s : Waiting) : Event → Prop
  | .up => s.sema.value.toNat + 1 < 2 ^ 32
  | _ => True

instance (s : Waiting) (event : Event) : Decidable (s.Fits event) := by
  cases event <;> unfold Fits <;> infer_instance

/-- Units are neither lost nor made up, threads are woken in the order they slept, and a thread
sleeps only while every unit there is has a woken thread on its way to it. -/
structure Accounted (initial : UInt32) (s : Waiting) : Prop where
  units : initial.toNat + s.ups = s.sema.value.toNat + s.downs
  order : s.queued = s.wakes ++ s.sema.waiters
  awake : s.sema.waiters ≠ [] → s.sema.value.toNat ≤ s.woken.length

section Steps
variable {initial : UInt32} {s : Waiting}

section
variable (before : Accounted initial s)
include before

/-- A test keeps the account, also that of a thread that was counted as woken until now. -/
theorem Accounted.tested {woken : List Nat} (short : s.woken.length ≤ woken.length + 1)
    (thread : Nat) : Accounted initial ({ s with woken := woken }.tested thread) := by
  have units := before.units
  unfold Waiting.tested
  by_cases zero : s.sema.value = 0
  · -- nothing is there to be taken, so no unit is short of a woken thread
    simp only [Semaphore.test_of_zero zero]
    refine ⟨units, ?_, fun _ => ?_⟩
    · simp only [before.order, List.append_assoc]
    · simp only [zero]
      exact Nat.zero_le _
  · have less := Semaphore.toNat_pred zero
    simp only [Semaphore.test_of_ne zero]
    refine ⟨?_, before.order, fun waits => ?_⟩
    · simp only
      omega
    · have awake := before.awake waits
      simp only
      omega

theorem Accounted.taken (free : s.sema.value ≠ 0) :
    Accounted initial { s with sema := { s.sema with value := s.sema.value - 1 }, downs := s.downs + 1 } := by
  have less := Semaphore.toNat_pred free
  have units := before.units
  refine ⟨?_, before.order, fun waits => ?_⟩
  · simp only
    omega
  · have awake := before.awake waits
    simp only
    omega

theorem Accounted.raised (fits : s.sema.value.toNat + 1 < 2 ^ 32) {final : Waiting}
    (taken : s.step .up = some final) : Accounted initial final := by
  have more := Semaphore.toNat_succ fits
  have units := before.units
  have order := before.order
  cases waiters : s.sema.waiters with
  | nil =>
    simp only [Waiting.step, Semaphore.up, waiters, List.head?_nil, List.tail_nil, Option.some.injEq] at taken
    subst taken
    rw [waiters] at order
    refine ⟨?_, order, fun waits => absurd rfl waits⟩
    simp only
    omega
  | cons thread rest =>
    simp only [Waiting.step, Semaphore.up, waiters, List.head?_cons, List.tail_cons, Option.some.injEq] at taken
    subst taken
    have awake := before.awake (by simp [waiters])
    rw [waiters] at order
    refine ⟨?_, ?_, fun _ => ?_⟩
    · simp only
      omega
    · simp [order]
    · simp only [List.length_append, List.length_singleton]
      omega

theorem step_accounted {event : Event} {final : Waiting} (fits : s.Fits event)
    (taken : s.step event = some final) : Accounted initial final := by
  cases event with
  | down thread =>
    simp only [step] at taken
    split at taken
    · cases taken
    · cases taken
      exact before.tested (Nat.le_succ _) thread
  | resume thread =>
    simp only [step] at taken
    split at taken <;> rename_i inside
    · cases taken
      refine before.tested ?_ thread
      rw [List.length_erase_of_mem inside]
      omega
    · cases taken
  | tryDown =>
    simp only [step] at taken
    by_cases zero : s.sema.value = 0
    · rw [Semaphore.tryDown_of_zero zero] at taken
      cases taken
      exact before
    · rw [Semaphore.tryDown_of_ne zero] at taken
      cases taken
      exact before.taken zero
  | up => exact before.raised fits taken

end

end Steps

theorem start_accounted (initial : UInt32) : Accounted initial (start initial) :=
  ⟨rfl, rfl, fun waits => absurd rfl waits⟩

/-- In every run in which the value does not overflow, the semaphore is accounted for in every state. -/
theorem semaphore_accounted (initial : UInt32) (events : List Event) (final : Waiting)
    (fits : Along step Fits (start initial) events) (reached : run step (start initial) events = some final) :
    initial.toNat + final.ups = final.sema.value.toNat + final.downs ∧
      final.queued = final.wakes ++ final.sema.waiters ∧
        (final.sema.waiters ≠ [] → final.sema.value.toNat ≤ final.woken.length) := by
  have accounted : Accounted initial final :=
    invariant_of_run step (Accounted initial) (fun _ _ _ before fit taken => step_accounted before fit taken)
      (start_accounted initial) fits reached
  exact ⟨accounted.units, accounted.order, accounted.awake⟩

/-- A third thread takes the unit of a woken one, which sleeps again behind the thread that came meanwhile. -/
def stolen : List Event := [.down 1, .up, .down 2, .down 3, .resume 1, .up]

theorem semaphore_accounted_stolen :
    ∃ final, run step (start 0) stolen = some final ∧ final.sema.waiters = [1] ∧ final.wakes = [1, 3] ∧
      0 + final.ups = final.sema.value.toNat + final.downs := by
  have ends : (run step (start 0) stolen).any (fun final => final.sema.waiters = [1] ∧ final.wakes = [1, 3]) = true := by
    decide
  obtain ⟨final, reached, met⟩ := (Option.any_eq_true _ _).mp ends
  simp only [Bool.decide_and, Bool.and_eq_true, decide_eq_true_eq] at met
  exact ⟨final, reached, met.1, met.2, (semaphore_accounted 0 stolen final (by decide) reached).1⟩

/-- One `sema_up` of a semaphore at the largest value of an `unsigned` takes all its units away. -/
theorem largest_value_wraps :
    ∃ final, run step (start 0xffffffff) [.up] = some final ∧ final.ups = 1 ∧ final.downs = 0 ∧
      final.sema.value = 0 ∧ (0xffffffff : UInt32).toNat + final.ups ≠ final.sema.value.toNat + final.downs := by
  refine ⟨_, rfl, rfl, rfl, by decide, by decide⟩

end Waiting

end Pintos.Threads
