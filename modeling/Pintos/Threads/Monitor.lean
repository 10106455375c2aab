import Mathlib.Logic.Function.Basic
import Pintos.Threads.Semaphore

/-! Locks and condition variables (`threads/synch.c`).

Any number of threads use locks and condition variables; a condition variable
is used with one lock, as its interface asks. A thread may be preempted between
any two accesses to what is shared: the interrupts-off sections of the
semaphores, the accesses to `holder` and the accesses to `waiters` are the
steps. A call is made only when its assertions hold.

What happened is recorded beside the state of the program: which thread has the
unit of a lock, which locks a thread is between acquiring and releasing, each
wait with the call that released it, and each signal or broadcast with the waits
it found and those it released.
-/

set_option autoImplicit false

namespace Pintos.Threads.Monitor
open Semantics

structure Lock where
  sema : Semaphore
  holder : Option Nat
  owner : Option Nat

def Lock.init : Lock := ⟨Semaphore.init 1, none, none⟩

structure Wait where
  thread : Nat
  cond : Nat
  sema : Semaphore
  queuedAt : Nat
  /-- The call that took it off the list, whether that has raised its semaphore, and whether it is over. -/
  releasedBy : Option Nat
  raised : Bool
  returned : Bool

structure Call where
  thread : Nat
  cond : Nat
  broadcast : Bool
  issuedAt : Nat
  /-- The waits on the list when it was issued, and those it took off the list so far. -/
  found : List Nat
  released : List Nat
  done : Bool

/-- Where a thread is. In the steps on a lock, `wait` is the wait they belong to, if any. -/
inductive Pc where
  | idle
  /-- In `lock_try_acquire`, before its `sema_try_down`. -/
  | trying (lock : Nat)
  /-- In `sema_down` of the lock, at its test. -/
  | down (lock : Nat) (wait : Option Nat)
  | asleep (lock : Nat) (wait : Option Nat)
  /-- The unit is taken and `holder` is not yet set. -/
  | owning (lock : Nat) (wait : Option Nat)
  /-- `holder` is cleared and the unit is not yet given back. -/
  | releasing (lock : Nat) (wait : Option Nat)
  /-- In `cond_wait`, on the list of waiters, before its `lock_release`. -/
  | queued (lock wait : Nat)
  | waitDown (lock wait : Nat)
  | waitAsleep (lock wait : Nat)
  /-- In `cond_wait`, before its `lock_acquire`. -/
  | waitAcquire (lock wait : Nat)
  /-- In `cond_broadcast`, at the test of its loop. -/
  | looping (lock call : Nat)
  /-- In `cond_signal`, with the wait off the list, before its `sema_up`. -/
  | signalling (lock call wait : Nat)
  deriving DecidableEq, Repr

structure System where
  locks : Nat → Lock
  waiters : Nat → List Nat
  pc : Nat → Pc
  held : Nat → Nat → Bool
  waits : Nat → Wait
  waitCnt : Nat
  calls : Nat → Call
  callCnt : Nat
  clock : Nat

def System.start : System where
  locks _ := Lock.init
  waiters _ := []
  pc _ := .idle
  held _ _ := false
  waits _ := ⟨0, 0, Semaphore.init 0, 0, none, false, false⟩
  waitCnt := 0
  calls _ := ⟨0, 0, false, 0, [], [], true⟩
  callCnt := 0
  clock := 0

namespace System

def setLock (s : System) (lock : Nat) (value : Lock) : System := { s with locks := Function.update s.locks lock value }

def setPc (s : System) (thread : Nat) (pc : Pc) : System := { s with pc := Function.update s.pc thread pc }

def setHeld (s : System) (thread lock : Nat) (value : Bool) : System :=
  { s with held := Function.update s.held thread (Function.update (s.held thread) lock value) }

def setWait (s : System) (wait : Nat) (value : Wait) : System := { s with waits := Function.update s.waits wait value }

def setCall (s : System) (call : Nat) (value : Call) : System := { s with calls := Function.update s.calls call value }

def setWaiters (s : System) (cond : Nat) (value : List Nat) : System :=
  { s with waiters := Function.update s.waiters cond value }

end System

/-- `thread_unblock` of a thread that sleeps in `sema_down`. -/
def Pc.woken : Pc → Pc
  | .asleep lock wait => .down lock wait
  | .waitAsleep lock wait => .waitDown lock wait
  | pc => pc

def System.wake (s : System) : Option Nat → System
  | some thread => s.setPc thread (s.pc thread).woken
  | none => s

inductive Op where
  | acquire (lock : Nat)
  | tryAcquire (lock : Nat)
  | release (lock : Nat)
  | wait (cond : Nat)
  | signal (cond : Nat)
  | broadcast (cond : Nat)
  deriving DecidableEq, Repr

inductive Event where
  | call (thread : Nat) (op : Op)
  | go (thread : Nat)
  deriving DecidableEq, Repr

section Calls
variable (lockOf : Nat → Nat) (s : System) (thread : Nat)

/-- The first wait on the list is taken off it for a call. -/
def popWaiter (lock call wait : Nat) (rest : List Nat) (record : Call) : System :=
  (((s.setWaiters record.cond rest).setWait wait { s.waits wait with releasedBy := some call }).setCall call
    { record with released := record.released ++ [wait] }).setPc thread (.signalling lock call wait)

def lockAcquire (lock : Nat) (wait : Option Nat) : Option System :=
  if (s.locks lock).holder = some thread then none else some (s.setPc thread (.down lock wait))

def lockRelease (lock : Nat) (wait : Option Nat) : Option System :=
  if (s.locks lock).holder = some thread then
    some (((s.setLock lock { s.locks lock with holder := none }).setHeld thread lock false).setPc thread
      (.releasing lock wait))
  else none

def condWait (cond lock : Nat) : Option System :=
  if (s.locks lock).holder = some thread then
    some { (((s.setWait s.waitCnt ⟨thread, cond, Semaphore.init 0, s.clock, none, false, false⟩).setWaiters cond
      (s.waiters cond ++ [s.waitCnt])).setHeld thread lock false).setPc thread (.queued lock s.waitCnt) with
        waitCnt := s.waitCnt + 1 }
  else none

def condSignal (cond lock : Nat) : Option System :=
  if (s.locks lock).holder = some thread then
    let record : Call := ⟨thread, cond, false, s.clock, s.waiters cond, [], false⟩
    let next := { s with callCnt := s.callCnt + 1 }
    match s.waiters cond with
    | [] => some (next.setCall s.callCnt { record with done := true })
    | wait :: rest => some (popWaiter next thread lock s.callCnt wait rest record)
  else none

/-- Only `cond_signal` asserts that the lock is held, so without waiters the lock is not asked for. -/
def condBroadcast (cond lock : Nat) : Option System :=
  let record : Call := ⟨thread, cond, true, s.clock, s.waiters cond, [], false⟩
  let next := { s with callCnt := s.callCnt + 1 }
  if s.waiters cond = [] then some (next.setCall s.callCnt { record with done := true })
  else if (s.locks lock).holder = some thread then
    some ((next.setCall s.callCnt record).setPc thread (.looping lock s.callCnt))
  else none

def call : Op → Option System
  | .acquire lock => lockAcquire s thread lock none
  | .tryAcquire lock =>
    if (s.locks lock).holder = some thread then none else some (s.setPc thread (.trying lock))
  | .release lock => lockRelease s thread lock none
  | .wait cond => condWait s thread cond (lockOf cond)
  | .signal cond => condSignal s thread cond (lockOf cond)
  | .broadcast cond => condBroadcast s thread cond (lockOf cond)

end Calls

section Steps
variable (s : System) (thread : Nat)

def goDown (lock : Nat) (wait : Option Nat) : System :=
  match (s.locks lock).sema.test thread with
  | (sema, true) =>
    (s.setLock lock { s.locks lock with sema := sema, owner := some thread }).setPc thread (.owning lock wait)
  | (sema, false) => (s.setLock lock { s.locks lock with sema := sema }).setPc thread (.asleep lock wait)

def goTrying (lock : Nat) : System :=
  match (s.locks lock).sema.tryDown with
  | (sema, true) =>
    (s.setLock lock { s.locks lock with sema := sema, owner := some thread }).setPc thread (.owning lock none)
  | (_, false) => s.setPc thread .idle

def goOwning (lock : Nat) (wait : Option Nat) : System :=
  let s := ((s.setLock lock { s.locks lock with holder := some thread }).setHeld thread lock true).setPc thread .idle
  match wait with
  | some wait => s.setWait wait { s.waits wait with returned := true }
  | none => s

def goReleasing (lock : Nat) (wait : Option Nat) : System :=
  let (sema, woken) := (s.locks lock).sema.up
  let next := match wait with
    | some wait => s.setPc thread (.waitDown lock wait)
    | none => s.setPc thread .idle
  (next.setLock lock { s.locks lock with sema := sema, owner := none }).wake woken

def goWaitDown (lock wait : Nat) : System :=
  match (s.waits wait).sema.test thread with
  | (sema, true) => (s.setWait wait { s.waits wait with sema := sema }).setPc thread (.waitAcquire lock wait)
  | (sema, false) => (s.setWait wait { s.waits wait with sema := sema }).setPc thread (.waitAsleep lock wait)

def goSignalling (lock call wait : Nat) : System :=
  let (sema, woken) := (s.waits wait).sema.up
  let next := (s.setWait wait { s.waits wait with sema := sema, raised := true }).wake woken
  if (s.calls call).broadcast then next.setPc thread (.looping lock call)
  else (next.setCall call { s.calls call with done := true }).setPc thread .idle

def goLooping (lock call : Nat) : Option System :=
  match s.waiters (s.calls call).cond with
  | [] => some ((s.setCall call { s.calls call with done := true }).setPc thread .idle)
  | wait :: rest =>
    if (s.locks lock).holder = some thread then some (popWaiter s thread lock call wait rest (s.calls call)) else none

/-- The next step of a thread inside an operation; `none` if it sleeps, or an assertion fails. -/
def go : Option System :=
  match s.pc thread with
  | .idle | .asleep _ _ | .waitAsleep _ _ => none
  | .trying lock => some (goTrying s thread lock)
  | .down lock wait => some (goDown s thread lock wait)
  | .owning lock wait => some (goOwning s thread lock wait)
  | .releasing lock wait => some (goReleasing s thread lock wait)
  | .queued lock wait => lockRelease s thread lock (some wait)
  | .waitDown lock wait => some (goWaitDown s thread lock wait)
  | .waitAcquire lock wait => lockAcquire s thread lock (some wait)
  | .looping lock call => goLooping s thread lock call
  | .signalling lock call wait => some (goSignalling s thread lock call wait)

end Steps

/-- Each step takes one tick of the clock the records are stamped with. -/
def step (lockOf : Nat → Nat) (s : System) : Event → Option System
  | .call thread op =>
    if s.pc thread = .idle then (call lockOf s thread op).map fun next => { next with clock := next.clock + 1 } else none
  | .go thread => (go s thread).map fun next => { next with clock := next.clock + 1 }

end Pintos.Threads.Monitor
