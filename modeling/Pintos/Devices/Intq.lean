import Mathlib.Logic.Function.Basic
import Pintos.Semantics.Transition

/-! Interrupt queues (`devices/intq.c`).

Interrupts are off in all of the queue's functions, so that a thread can only be
interrupted, or another one run, where it sleeps: in `lock_acquire` and in `wait`.
Here a thread may be interrupted between any two of the steps of a call, and a
thread that sleeps for the lock gets it at any time at which it is free. A step
whose assertion fails is not a step: what is shown is about the interleavings
that respect the assertions of the queue. A schedule also keeps the bytes that
were put and got, in order.
-/

set_option autoImplicit false

namespace Pintos.Devices.Intq
open Semantics

def bufsize : Nat := 64

def next (pos : Nat) : Nat := (pos + 1) % bufsize

theorem next_lt (pos : Nat) : next pos < bufsize := Nat.mod_lt _ (by decide)

structure Queue where
  buf : Nat → UInt8
  head : Nat
  tail : Nat
  headLow : head < bufsize
  tailLow : tail < bufsize

namespace Queue
variable (q : Queue)

def intqEmpty : Bool := q.head == q.tail

def intqFull : Bool := next q.head == q.tail

def push (byte : UInt8) : Queue :=
  { q with buf := Function.update q.buf q.head byte, head := next q.head, headLow := next_lt _ }

def pop : Queue := { q with tail := next q.tail, tailLow := next_lt _ }

def bytes : List UInt8 :=
  (List.range ((q.head + bufsize - q.tail) % bufsize)).map fun k => q.buf ((q.tail + k) % bufsize)

variable {q}

theorem length_bytes : q.bytes.length = (q.head + bufsize - q.tail) % bufsize := by simp [bytes]

theorem intqEmpty_iff : q.intqEmpty = true ↔ q.bytes = [] := by
  have headLow := q.headLow
  have tailLow := q.tailLow
  rw [intqEmpty, beq_iff_eq, ← List.length_eq_zero_iff, length_bytes]
  simp only [bufsize] at *
  omega

theorem intqFull_iff : q.intqFull = true ↔ q.bytes.length = bufsize - 1 := by
  have headLow := q.headLow
  have tailLow := q.tailLow
  rw [intqFull, beq_iff_eq, length_bytes, next]
  simp only [bufsize] at *
  omega

theorem length_bytes_le : q.bytes.length ≤ bufsize - 1 := by
  rw [length_bytes]
  exact Nat.le_sub_one_of_lt (Nat.mod_lt _ (by decide))

theorem bytes_push (byte : UInt8) (room : q.intqFull = false) : (q.push byte).bytes = q.bytes ++ [byte] := by
  have headLow := q.headLow
  have tailLow := q.tailLow
  have notFull := mt intqFull_iff.mpr (Bool.not_eq_true _ ▸ room)
  rw [length_bytes] at notFull
  have longer : ((q.push byte).head + bufsize - q.tail) % bufsize = (q.head + bufsize - q.tail) % bufsize + 1 := by
    simp only [push, next, bufsize] at *
    omega
  have last : (q.tail + (q.head + bufsize - q.tail) % bufsize) % bufsize = q.head := by
    simp only [bufsize] at *
    omega
  have tail : (q.push byte).tail = q.tail := rfl
  rw [bytes, tail, longer, List.range_succ, List.map_append, bytes, List.map_singleton, last]
  congr 1
  · refine List.map_congr_left fun k inside => Function.update_of_ne ?_ _ _
    rw [List.mem_range] at inside
    simp only [bufsize] at *
    omega
  · simp [push]

theorem bytes_pop (some : q.intqEmpty = false) : q.bytes = q.buf q.tail :: q.pop.bytes := by
  have headLow := q.headLow
  have tailLow := q.tailLow
  have different : q.head ≠ q.tail := by simpa [intqEmpty] using some
  have longer : (q.head + bufsize - q.tail) % bufsize = (q.pop.head + bufsize - q.pop.tail) % bufsize + 1 := by
    simp only [pop, next, bufsize] at *
    omega
  rw [bytes, longer, List.range_succ_eq_map, List.map_cons, List.map_map, bytes]
  congr 1
  · rw [Nat.add_zero, Nat.mod_eq_of_lt tailLow]
  · refine List.map_congr_left fun k _ => congrArg q.buf ?_
    simp only [pop, next, bufsize] at *
    omega

end Queue

inductive Condition where
  | notEmpty | notFull
  deriving DecidableEq, Repr

def Condition.holds : Condition → Queue → Bool
  | .notEmpty, q => !q.intqEmpty
  | .notFull, q => !q.intqFull

inductive Op where
  | getc
  | putc (byte : UInt8)
  deriving DecidableEq, Repr

def Op.needs : Op → Condition
  | .getc => .notEmpty
  | .putc _ => .notFull

def Op.gives : Op → Condition
  | .getc => .notFull
  | .putc _ => .notEmpty

/-- Where a thread is in a call: at the test of the loop, in `lock_acquire`, blocked
in `wait`, or unblocked there. -/
inductive Pc where
  | idle
  | testing (op : Op)
  | acquiring (op : Op)
  | waiting (op : Op)
  | woken (op : Op)
  deriving DecidableEq, Repr

def Pc.unblock : Pc → Pc
  | .waiting op => .woken op
  | pc => pc

structure State where
  queue : Queue
  waiter : Condition → Option Nat
  holder : Option Nat
  pc : Nat → Pc
  puts : List UInt8
  gets : List UInt8

namespace State
variable (s : State)

def setPc (t : Nat) (pc : Pc) : State := { s with pc := Function.update s.pc t pc }

def signal (c : Condition) : Option State :=
  if c.holds s.queue then
    match s.waiter c with
    | some t => some { s.setPc t (s.pc t).unblock with waiter := Function.update s.waiter c none }
    | none => some s
  else none

def perform : Op → Option State
  | .getc => { s with queue := s.queue.pop, gets := s.gets ++ [s.queue.buf s.queue.tail] }.signal .notFull
  | .putc byte => { s with queue := s.queue.push byte, puts := s.puts ++ [byte] }.signal .notEmpty

end State

inductive Event where
  | call (t : Nat) (op : Op)
  | advance (t : Nat)
  | interrupt (op : Op)
  deriving DecidableEq, Repr

def step (s : State) : Event → Option State
  | .call t op => if s.pc t = .idle then some (s.setPc t (.testing op)) else none
  -- an interrupt handler may not find its condition false
  | .interrupt op => if op.needs.holds s.queue then s.perform op else none
  | .advance t =>
    match s.pc t with
    | .testing op =>
      if op.needs.holds s.queue then (s.setPc t .idle).perform op else some (s.setPc t (.acquiring op))
    | .acquiring op =>
      -- `wait` asserts that the condition is false
      if s.holder = none ∧ op.needs.holds s.queue = false then
        some { s.setPc t (.waiting op) with
          holder := some t
          waiter := Function.update s.waiter op.needs (some t) }
      else none
    | .woken op => some { s.setPc t (.testing op) with holder := none }
    | .idle => none
    | .waiting _ => none

def intqInit (buf : Nat → UInt8) : State where
  queue := ⟨buf, 0, 0, by decide, by decide⟩
  waiter _ := none
  holder := none
  pc _ := .idle
  puts := []
  gets := []

structure Sound (s : State) : Prop where
  fifo : s.puts = s.gets ++ s.queue.bytes
  recorded : ∀ c t, s.waiter c = some t → c.holds s.queue = false ∧ ∃ op, s.pc t = .waiting op ∧ op.needs = c
  blocked : ∀ t op, s.pc t = .waiting op → s.waiter op.needs = some t ∧ s.holder = some t
  woken : ∀ t op, s.pc t = .woken op → s.holder = some t

def Pc.Awake (pc : Pc) : Prop := ∀ op, pc ≠ .waiting op ∧ pc ≠ .woken op

section Steps
variable {s : State} (sound : Sound s)
include sound

theorem Sound.setPc {t : Nat} {pc : Pc} (before : (s.pc t).Awake) (after : pc.Awake) : Sound (s.setPc t pc) where
  fifo := sound.fifo
  recorded c u here := by
    obtain ⟨false_, op, waits, needs⟩ := sound.recorded c u here
    have other : u ≠ t := fun same => (before op).1 (same ▸ waits)
    exact ⟨false_, op, (Function.update_of_ne other _ _).trans waits, needs⟩
  blocked u op waits := by
    by_cases same : u = t
    · subst same
      exact absurd ((Function.update_self ..).symm.trans waits) (after op).1
    · exact sound.blocked u op ((Function.update_of_ne same _ _).symm.trans waits)
  woken u op waked := by
    by_cases same : u = t
    · subst same
      exact absurd ((Function.update_self ..).symm.trans waked) (after op).2
    · exact sound.woken u op ((Function.update_of_ne same _ _).symm.trans waked)

theorem Sound.moved {op : Op} (ready : op.needs.holds s.queue = true) :
    ∃ q puts gets, s.perform op = { s with queue := q, puts := puts, gets := gets }.signal op.gives ∧
      op.gives.holds q = true ∧ puts = gets ++ q.bytes := by
  cases op with
  | getc =>
    have some : s.queue.intqEmpty = false := by simpa [Op.needs, Condition.holds] using ready
    have taken := Queue.bytes_pop some
    refine ⟨_, _, _, rfl, ?_, ?_⟩
    · have before := Queue.length_bytes_le (q := s.queue)
      rw [taken, List.length_cons] at before
      have room : ¬s.queue.pop.intqFull = true := fun full => by
        rw [Queue.intqFull_iff.mp full] at before
        simp [bufsize] at before
      simpa [Op.gives, Condition.holds] using room
    · rw [sound.fifo, taken, List.append_assoc]
      rfl
  | putc byte =>
    have room : s.queue.intqFull = false := by simpa [Op.needs, Condition.holds] using ready
    have added := Queue.bytes_push byte room
    refine ⟨_, _, _, rfl, ?_, ?_⟩
    · have some : ¬(s.queue.push byte).intqEmpty = true := fun empty => by
        rw [Queue.intqEmpty_iff, added] at empty
        exact List.append_ne_nil_of_right_ne_nil _ (List.cons_ne_nil _ _) empty
      simpa [Op.gives, Condition.holds] using some
    · rw [sound.fifo, added, List.append_assoc]

/-- A byte is moved, and the thread that waits for that, if there is one, is unblocked. -/
theorem Sound.perform {op : Op} (ready : op.needs.holds s.queue = true) :
    ∃ after, s.perform op = some after ∧ Sound after ∧ (∀ c, after.waiter c = none) ∧ op.gives.holds after.queue = true ∧
      ∀ t, s.waiter op.gives = some t → ∃ call, after.pc t = .woken call := by
  obtain ⟨q, puts, gets, same, holds, fifo⟩ := sound.moved ready
  have unneeded : s.waiter op.needs = none := by
    cases waits : s.waiter op.needs with
    | none => rfl
    | some t => rw [(sound.recorded _ t waits).1] at ready; cases ready
  have either : ∀ c, c = op.needs ∨ c = op.gives := by
    intro c
    cases op <;> cases c <;> simp [Op.needs, Op.gives]
  rw [same, State.signal, if_pos holds]
  cases waits : s.waiter op.gives with
  | none =>
    have none : ∀ c, s.waiter c = none := fun c => by rcases either c with rfl | rfl <;> assumption
    refine ⟨_, rfl, ⟨fifo, fun c t here => ?_, fun t call waiting => ?_, sound.woken⟩, none, holds, fun t other => by cases other⟩
    · cases (none c).symm.trans here
    · cases (none call.needs).symm.trans (sound.blocked t call waiting).1
  | some t =>
    obtain ⟨-, call, waiting, -⟩ := sound.recorded _ t waits
    have none : ∀ c, Function.update s.waiter op.gives none c = none := by
      intro c
      rcases either c with rfl | rfl
      · by_cases also : op.needs = op.gives
        · rw [also, Function.update_self]
        · rw [Function.update_of_ne also, unneeded]
      · exact Function.update_self ..
    have woken : Function.update s.pc t (s.pc t).unblock t = .woken call := by
      rw [Function.update_self, waiting]
      rfl
    refine ⟨_, rfl, ⟨fifo, fun c u here => ?_, fun u other waits' => ?_, fun u other waked => ?_⟩, none, holds, ?_⟩
    · cases (none c).symm.trans here
    · by_cases same : u = t
      · subst same
        cases woken.symm.trans waits'
      · have slept := (sound.blocked u other ((Function.update_of_ne same _ _).symm.trans waits')).1
        rcases either other.needs with needs | gives
        · rw [needs, unneeded] at slept
          cases slept
        · rw [gives, waits] at slept
          exact absurd (Option.some.inj slept).symm same
    · by_cases same : u = t
      · subst same
        exact (sound.blocked u call waiting).2
      · exact sound.woken u other ((Function.update_of_ne same _ _).symm.trans waked)
    · rintro u here
      cases here
      exact ⟨call, woken⟩

/-- What a step does, and what becomes of a thread that waits. -/
theorem Sound.step {event : Event} {after : State} (taken : step s event = some after) :
    Sound after ∧ ∀ c t, s.waiter c = some t →
      after.waiter c = some t ∧ after.pc t = s.pc t ∧ c.holds after.queue = false ∨
        after.waiter c = none ∧ c.holds after.queue = true ∧ ∃ call, after.pc t = .woken call := by
  have passed : ∀ {state : State} {op : Op}, Sound state → state.queue = s.queue → state.waiter = s.waiter →
      op.needs.holds s.queue = true → state.perform op = some after → Sound after ∧ ∀ c t, s.waiter c = some t →
        after.waiter c = none ∧ c.holds after.queue = true ∧ ∃ call, after.pc t = .woken call := by
    intro state op good queue waiter ready done
    obtain ⟨result, performed, kept, none, holds, wakes⟩ := good.perform (queue ▸ ready)
    cases performed.symm.trans done
    refine ⟨kept, fun c t waits => ⟨none c, ?_⟩⟩
    have isGiven : c = op.gives := by
      have unmet := (sound.recorded c t waits).1
      cases op <;> cases c <;> first | rfl | (rw [Op.needs] at ready; rw [ready] at unmet; cases unmet)
    subst isGiven
    exact ⟨holds, wakes t (waiter ▸ waits)⟩
  have stays : ∀ {u : Nat} {pc : Pc}, (s.pc u).Awake → ∀ c t, s.waiter c = some t →
      s.waiter c = some t ∧ Function.update s.pc u pc t = s.pc t ∧ c.holds s.queue = false := by
    intro u pc awake c t waits
    obtain ⟨unmet, op, waiting, -⟩ := sound.recorded c t waits
    exact ⟨waits, Function.update_of_ne (fun same : t = u => (awake op).1 (same ▸ waiting)) _ _, unmet⟩
  have holds : ∀ c t, s.waiter c = some t → s.holder = some t := fun c t waits => by
    obtain ⟨-, op, waiting, -⟩ := sound.recorded c t waits
    exact (sound.blocked t op waiting).2
  cases event with
  | call u op =>
    simp only [Intq.step] at taken
    split at taken <;> rename_i idle
    · cases taken
      have awake : (s.pc u).Awake := fun op => by simp [idle]
      exact ⟨sound.setPc awake (fun op => by simp), fun c t waits => .inl (stays awake c t waits)⟩
    · cases taken
  | interrupt op =>
    simp only [Intq.step] at taken
    split at taken <;> rename_i ready
    · obtain ⟨kept, wakes⟩ := passed sound rfl rfl ready taken
      exact ⟨kept, fun c t waits => .inr (wakes c t waits)⟩
    · cases taken
  | advance u =>
    simp only [Intq.step] at taken
    cases at_ : s.pc u with
    | idle => simp [at_] at taken
    | waiting op => simp [at_] at taken
    | testing op =>
      have awake : (s.pc u).Awake := fun op => by simp [at_]
      simp only [at_] at taken
      split at taken <;> rename_i ready
      · obtain ⟨kept, wakes⟩ := passed (sound.setPc awake fun op => by simp) rfl rfl ready taken
        exact ⟨kept, fun c t waits => .inr (wakes c t waits)⟩
      · cases taken
        exact ⟨sound.setPc awake (fun op => by simp), fun c t waits => .inl (stays awake c t waits)⟩
    | acquiring op =>
      simp only [at_] at taken
      split at taken <;> rename_i free
      · cases taken
        -- the lock is free, so nobody else sleeps in `wait`
        have nobody : ∀ c t, s.waiter c ≠ some t := fun c t waits => by
          cases free.1.symm.trans (holds c t waits)
        refine ⟨⟨sound.fifo, fun c t here => ?_, fun t call waits => ?_, fun t call waked => ?_⟩,
          fun c t waits => absurd waits (nobody c t)⟩
        · by_cases same : c = op.needs
          · subst same
            cases (Function.update_self ..).symm.trans here
            exact ⟨free.2, op, Function.update_self .., rfl⟩
          · exact absurd ((Function.update_of_ne same _ _).symm.trans here) (nobody c t)
        · by_cases same : t = u
          · subst same
            cases (Function.update_self ..).symm.trans waits
            exact ⟨Function.update_self .., rfl⟩
          · exact absurd (sound.blocked t call ((Function.update_of_ne same _ _).symm.trans waits)).1 (nobody _ t)
        · by_cases same : t = u
          · subst same
            cases (Function.update_self ..).symm.trans waked
          · cases free.1.symm.trans (sound.woken t call ((Function.update_of_ne same _ _).symm.trans waked))
      · cases taken
    | woken op =>
      simp only [at_] at taken
      cases taken
      have mine := sound.woken u op at_
      have alone : ∀ t call, s.pc t ≠ .waiting call := fun t call waits => by
        cases mine.symm.trans (sound.blocked t call waits).2
        cases at_.symm.trans waits
      have nobody : ∀ c t, s.waiter c ≠ some t := fun c t waits => by
        obtain ⟨-, call, waiting, -⟩ := sound.recorded c t waits
        exact alone t call waiting
      refine ⟨⟨sound.fifo, fun c t here => absurd here (nobody c t), fun t call waits => ?_, fun t call waked => ?_⟩,
        fun c t waits => absurd waits (nobody c t)⟩
      · by_cases same : t = u
        · subst same
          cases (Function.update_self ..).symm.trans waits
        · exact absurd ((Function.update_of_ne same _ _).symm.trans waits) (alone t call)
      · by_cases same : t = u
        · subst same
          cases (Function.update_self ..).symm.trans waked
        · exact absurd (Option.some.inj (mine.symm.trans (sound.woken t call ((Function.update_of_ne same _ _).symm.trans waked))))
            (Ne.symm same)

end Steps

/-- In every interleaving that respects the assertions the bytes that are got are those
that were put, in order, the others are in the queue, and a thread that is recorded
sleeps exactly until the first call that makes its condition true. -/
theorem intq_fifo {buf : Nat → UInt8} {events : List Event} {s : State} (reached : run step (intqInit buf) events = some s) :
    s.puts = s.gets ++ s.queue.bytes ∧ s.queue.bytes.length ≤ bufsize - 1 ∧
    (∀ c t, s.waiter c = some t → c.holds s.queue = false ∧ ∃ op, s.pc t = .waiting op ∧ op.needs = c) ∧
    (∀ t op, s.pc t = .waiting op → s.waiter op.needs = some t) ∧
    ∀ event after, step s event = some after → ∀ c t, s.waiter c = some t →
      after.waiter c = some t ∧ after.pc t = s.pc t ∧ c.holds after.queue = false ∨
        after.waiter c = none ∧ c.holds after.queue = true ∧ ∃ call, after.pc t = .woken call := by
  have start : Sound (intqInit buf) := by
    refine ⟨by simp [intqInit, Queue.bytes, bufsize], fun c t here => ?_, fun t op here => ?_, fun t op here => ?_⟩ <;> cases here
  have sound : Sound s := invariant_of_run step Sound (fun _ _ _ kept _ taken => (kept.step taken).1) start
    (along_unguarded step _ events) reached
  exact ⟨sound.fifo, Queue.length_bytes_le, sound.recorded, fun t op waits => (sound.blocked t op waits).1,
    fun event after taken => (sound.step taken).2⟩

/-- A thread waits for a byte, and an interrupt handler puts two. -/
theorem intq_fifo_two_bytes : ∃ s, run step (intqInit fun _ => 0) [.call 1 .getc, .advance 1, .advance 1, .interrupt (.putc 7),
    .interrupt (.putc 8), .advance 1, .advance 1] = some s ∧ s.gets = [7] ∧ s.puts = s.gets ++ s.queue.bytes := by
  have ran : ((run step (intqInit fun _ => 0) [.call 1 .getc, .advance 1, .advance 1, .interrupt (.putc 7),
    .interrupt (.putc 8), .advance 1, .advance 1]).any fun s => s.gets == [7]) = true := by decide
  obtain ⟨s, reached, got⟩ := (Option.any_eq_true ..).mp ran
  exact ⟨s, reached, beq_iff_eq.mp got, (intq_fifo reached).1⟩

end Pintos.Devices.Intq
