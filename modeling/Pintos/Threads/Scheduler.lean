import Pintos.Threads.Semaphore

/-! The scheduler (`threads/thread.c`), from the return of `thread_start` on.

A thread is named by the page its `struct thread` is in. Threads and interrupt
handlers make their calls in any order; each section with interrupts off is one
step, and a thread switch is two: until `switch_threads` has changed stacks, and
`thread_schedule_tail` on the stack of the new thread. Threads sleep on
semaphores and, in `devices/intq.c`, in a variable that points to the one thread
that waits. `thread_create` is preemptible between the initialization of the new
thread and its `thread_unblock`.

The threads `schedule` chose and the pages that were taken and given back are
recorded beside the state of the program.
-/

set_option autoImplicit false

namespace Pintos.Threads.Scheduler
open Semantics

inductive Status where
  | running
  | ready
  | blocked
  | dying
  deriving DecidableEq, Repr

structure System where
  status : Nat → Option Status
  current : Nat
  /-- Between `switch_threads` and `thread_schedule_tail`: the argument of the latter. -/
  prev : Option (Option Nat)
  readyList : List Nat
  allList : List Nat
  semas : Nat → Semaphore
  /-- The waiting thread of each queue of `devices/intq.c`. -/
  waiter : Nat → Option Nat
  /-- Threads inside the `thread_create` that makes them. -/
  nascent : List Nat
  threadTicks : Nat
  chosen : List Nat
  created : Nat → Nat
  freed : Nat → Nat

namespace System
variable (s : System)

def setStatus (thread : Nat) (status : Option Status) : System :=
  { s with status := fun other => if other = thread then status else s.status other }

def setSema (sema : Nat) (value : Semaphore) : System :=
  { s with semas := fun other => if other = sema then value else s.semas other }

def setWaiter (queue : Nat) (thread : Option Nat) : System :=
  { s with waiter := fun other => if other = queue then thread else s.waiter other }

def palloc (page : Nat) : System :=
  { s with created := fun other => if other = page then s.created other + 1 else s.created other }

def pallocFree (page : Nat) : System :=
  { s.setStatus page none with freed := fun other => if other = page then s.freed other + 1 else s.freed other }

end System

def timeSlice : Nat := 4

section Functions
variable (initial idle : Nat) (s : System)

def threadUnblock (thread : Nat) : Option System :=
  if s.status thread = some .blocked then
    some ({ s with readyList := s.readyList ++ [thread] }.setStatus thread (some .ready))
  else none

def nextThreadToRun : Nat × List Nat :=
  match s.readyList with
  | [] => (idle, [])
  | thread :: rest => (thread, rest)

def schedule : Option System :=
  let (next, rest) := nextThreadToRun idle s
  if s.status s.current = some .running ∨ s.status next = none then none
  else some { s with
    readyList := rest, current := next, chosen := s.chosen ++ [next]
    prev := some (if s.current = next then none else some s.current) }

def threadScheduleTail (prev : Option Nat) : Option System :=
  let s := { s.setStatus s.current (some .running) with threadTicks := 0, prev := none }
  match prev with
  | none => some s
  | some thread =>
    if s.status thread = some .dying ∧ thread ≠ initial then
      if thread = s.current then none else some (s.pallocFree thread)
    else some s

def threadYield : Option System :=
  if s.status s.current = some .running then
    let s := if s.current = idle then s else { s with readyList := s.readyList ++ [s.current] }
    schedule idle (s.setStatus s.current (some .ready))
  else none

def threadBlock : Option System :=
  if s.status s.current = some .running then schedule idle (s.setStatus s.current (some .blocked)) else none

def threadTick : Option System :=
  let s := { s with threadTicks := s.threadTicks + 1 }
  if timeSlice ≤ s.threadTicks then threadYield idle s else some s

def semaDown (sema : Nat) : Option System :=
  match (s.semas sema).test s.current with
  | (value, true) => some (s.setSema sema value)
  | (value, false) => threadBlock idle (s.setSema sema value)

def semaUp (sema : Nat) : Option System :=
  match (s.semas sema).up with
  | (value, some thread) => threadUnblock (s.setSema sema value) thread
  | (value, none) => some (s.setSema sema value)

def intqWait (queue : Nat) : Option System := threadBlock idle (s.setWaiter queue (some s.current))

def intqSignal (queue : Nat) : Option System :=
  match s.waiter queue with
  | some thread => threadUnblock (s.setWaiter queue none) thread
  | none => some s

def initThread (page : Nat) : System :=
  { (s.palloc page).setStatus page (some .blocked) with
    allList := s.allList ++ [page], nascent := s.nascent ++ [page] }

def startThread (thread : Nat) : Option System := threadUnblock { s with nascent := s.nascent.erase thread } thread

def threadExit : Option System :=
  if s.status s.current = some .running then
    schedule idle ({ s with allList := s.allList.erase s.current }.setStatus s.current (some .dying))
  else none

end Functions

inductive Event where
  | init (page : Nat)
  | start (thread : Nat)
  | yield
  | tick
  | semaInit (sema : Nat) (value : UInt32)
  | down (sema : Nat)
  | tryDown (sema : Nat)
  | up (sema : Nat)
  | wait (queue : Nat)
  | signal (queue : Nat)
  /-- The `thread_block` in the loop of the idle thread. -/
  | idle
  | exit
  | tail
  deriving DecidableEq, Repr

section Steps
variable (initial idle : Nat) (s : System)

/-- What may happen next. During a switch interrupts are off. The idle thread makes no calls of its own, a
semaphore is initialized before it is used, and a queue has one waiting thread. -/
def Allowed : Event → Prop
  | .tail => s.prev ≠ none
  | .init page => s.prev = none ∧ s.current ≠ idle ∧ s.status page = none
  | .start thread => s.prev = none ∧ s.current ≠ idle ∧ thread ∈ s.nascent
  | .semaInit sema _ => s.prev = none ∧ (s.semas sema).waiters = []
  | .down _ | .exit => s.prev = none ∧ s.current ≠ idle
  | .wait queue => s.prev = none ∧ s.current ≠ idle ∧ s.waiter queue = none
  | .idle => s.prev = none ∧ s.current = idle
  | .yield | .tick | .tryDown _ | .up _ | .signal _ => s.prev = none

instance : (event : Event) → Decidable (Allowed idle s event)
  | .tail => inferInstanceAs (Decidable (s.prev ≠ none))
  | .init page => inferInstanceAs (Decidable (s.prev = none ∧ s.current ≠ idle ∧ s.status page = none))
  | .start thread => inferInstanceAs (Decidable (s.prev = none ∧ s.current ≠ idle ∧ thread ∈ s.nascent))
  | .semaInit sema _ => inferInstanceAs (Decidable (s.prev = none ∧ (s.semas sema).waiters = []))
  | .down _ | .exit => inferInstanceAs (Decidable (s.prev = none ∧ s.current ≠ idle))
  | .wait queue => inferInstanceAs (Decidable (s.prev = none ∧ s.current ≠ idle ∧ s.waiter queue = none))
  | .idle => inferInstanceAs (Decidable (s.prev = none ∧ s.current = idle))
  | .yield | .tick | .tryDown _ | .up _ | .signal _ => inferInstanceAs (Decidable (s.prev = none))

def perform : Event → Option System
  | .init page => some (initThread s page)
  | .start thread => startThread s thread
  | .yield => threadYield idle s
  | .tick => threadTick idle s
  | .semaInit sema value => some (s.setSema sema (Semaphore.init value))
  | .down sema => semaDown idle s sema
  | .tryDown sema => some (s.setSema sema (s.semas sema).tryDown.1)
  | .up sema => semaUp s sema
  | .wait queue => intqWait idle s queue
  | .signal queue => intqSignal s queue
  | .idle => threadBlock idle s
  | .exit => threadExit idle s
  | .tail =>
    match s.prev with
    | some prev => threadScheduleTail initial s prev
    | none => none

def step (event : Event) : Option System :=
  if Allowed idle s event then perform initial idle s event else none

end Steps

/-- After `thread_start`: the idle thread is in its `thread_block`, or was preempted on the way to it. -/
def System.afterStart (initial idle : Nat) (preempted : Bool) (semas : Nat → UInt32) : System where
  status thread :=
    if thread = initial then some .running
    else if thread = idle then some (if preempted then .ready else .blocked)
    else none
  current := initial
  prev := none
  readyList := []
  allList := [initial, idle]
  semas sema := Semaphore.init (semas sema)
  waiter _ := none
  nascent := []
  threadTicks := 0
  chosen := []
  created thread := if thread = idle then 1 else 0
  freed _ := 0

end Pintos.Threads.Scheduler
