import Pintos.Threads.Monitor

/-! Mutual exclusion by locks.

The locks see little of the threads: which thread seeks a lock or sleeps for it,
which has taken its unit without being the holder, and which is inside an
operation that needs the lock held. Each step of a thread is one of a few moves
on this view, and each move keeps the unit of a lock with one thread.
-/

set_option autoImplicit false

namespace Pintos.Threads.Monitor
open Semantics

inductive Stance where
  | seeking
  | asleep
  /-- The unit of the lock is with the thread, and `holder` does not name it. -/
  | unit
  /-- The thread is in an operation on a condition variable of the lock it holds. -/
  | using
  deriving DecidableEq

structure View where
  locks : Nat → Lock
  stance : Nat → Option (Nat × Stance)
  held : Nat → Nat → Bool

structure Locked (v : View) : Prop where
  value : ∀ lock, (v.locks lock).sema.value = if (v.locks lock).owner = none then 1 else 0
  holder : ∀ lock thread, (v.locks lock).holder = some thread → (v.locks lock).owner = some thread
  owner : ∀ lock thread, (v.locks lock).owner = some thread →
    (v.locks lock).holder = some thread ∨ v.stance thread = some (lock, .unit)
  unit : ∀ lock thread, v.stance thread = some (lock, .unit) →
    (v.locks lock).owner = some thread ∧ (v.locks lock).holder = none
  used : ∀ lock thread, v.stance thread = some (lock, .using) → (v.locks lock).holder = some thread
  seeks : ∀ lock thread, v.stance thread = some (lock, .seeking) ∨ v.stance thread = some (lock, .asleep) →
    (v.locks lock).owner ≠ some thread
  held : ∀ lock thread, v.held thread lock = true → (v.locks lock).holder = some thread
  asleep : ∀ lock, ∀ thread ∈ (v.locks lock).sema.waiters, v.stance thread = some (lock, .asleep)
  distinct : ∀ lock, (v.locks lock).sema.waiters.Nodup

namespace View
variable (v : View) (thread lock : Nat)

def setStance (stance : Option (Nat × Stance)) : View :=
  { v with stance := fun other => if other = thread then stance else v.stance other }

theorem setStance_same {v : View} {thread : Nat} {stance : Option (Nat × Stance)} (same : v.stance thread = stance) :
    v.setStance thread stance = v := by
  have stances : (fun other => if other = thread then stance else v.stance other) = v.stance := by
    funext other
    split <;> rename_i mine
    · rw [mine, same]
    · rfl
  rw [setStance, stances]

def setLock (value : Lock) : View := { v with locks := fun other => if other = lock then value else v.locks other }

def setHeld (value : Bool) : View :=
  { v with held := fun t l => if t = thread ∧ l = lock then value else v.held t l }

def take : View :=
  (v.setLock lock { v.locks lock with
    sema := { (v.locks lock).sema with value := (v.locks lock).sema.value - 1 }
    owner := some thread }).setStance thread (some (lock, .unit))

def sleep : View :=
  (v.setLock lock { v.locks lock with
    sema := { (v.locks lock).sema with waiters := (v.locks lock).sema.waiters ++ [thread] } }).setStance thread
      (some (lock, .asleep))

def hold : View :=
  ((v.setLock lock { v.locks lock with holder := some thread }).setHeld thread lock true).setStance thread none

def drop : View :=
  ((v.setLock lock { v.locks lock with holder := none }).setHeld thread lock false).setStance thread (some (lock, .unit))

/-- The unit goes back to the semaphore, and the first waiter is up again. -/
def give (stance : Option (Nat × Stance)) : View :=
  let next := (v.setStance thread stance).setLock lock { v.locks lock with
    sema := (v.locks lock).sema.up.1
    owner := none }
  match (v.locks lock).sema.waiters with
  | [] => next
  | first :: _ => next.setStance first (some (lock, .seeking))

end View

section Moves
variable {v : View} {thread lock : Nat} (locked : Locked v)
include locked

theorem Locked.free (free : (v.locks lock).sema.value ≠ 0) :
    (v.locks lock).owner = none ∧ (v.locks lock).holder = none ∧ (v.locks lock).sema.value = 1 := by
  have value := locked.value lock
  have unowned : (v.locks lock).owner = none := by grind
  refine ⟨unowned, ?_, by grind⟩
  cases named : (v.locks lock).holder with
  | none => rfl
  | some other =>
    have owned := locked.holder lock other named
    simp [unowned] at owned

theorem Locked.take (free : (v.locks lock).sema.value ≠ 0)
    (seeking : v.stance thread = some (lock, .seeking)) : Locked (v.take thread lock) := by
  obtain ⟨unowned, unheld, one⟩ := locked.free free
  obtain ⟨value, holder, owner, unit, used, seeks, held, asleep, distinct⟩ := locked
  constructor <;> simp only [View.take, View.setLock, View.setStance]
  case value =>
    intro other
    by_cases same : other = lock
    · simp [same, one]
    · simp [same, value]
  all_goals grind

theorem Locked.sleep (seeking : v.stance thread = some (lock, .seeking)) : Locked (v.sleep thread lock) := by
  obtain ⟨value, holder, owner, unit, used, seeks, held, asleep, distinct⟩ := locked
  constructor <;> simp only [View.sleep, View.setLock, View.setStance]
  all_goals grind

theorem Locked.hold (here : v.stance thread = some (lock, .unit)) : Locked (v.hold thread lock) := by
  obtain ⟨value, holder, owner, unit, used, seeks, held, asleep, distinct⟩ := locked
  constructor <;> simp only [View.hold, View.setLock, View.setStance, View.setHeld]
  all_goals grind

theorem Locked.drop (holds : (v.locks lock).holder = some thread)
    (mine : v.stance thread = none ∨ v.stance thread = some (lock, .using)) : Locked (v.drop thread lock) := by
  obtain ⟨value, holder, owner, unit, used, seeks, held, asleep, distinct⟩ := locked
  constructor <;> simp only [View.drop, View.setLock, View.setStance, View.setHeld]
  all_goals grind

theorem Locked.give (here : v.stance thread = some (lock, .unit))
    {stance : Option (Nat × Stance)} (next : stance = none ∨ stance = some (lock, .seeking)) :
    Locked (v.give thread lock stance) := by
  obtain ⟨value, holder, owner, unit, used, seeks, held, asleep, distinct⟩ := locked
  have zero : (v.locks lock).sema.value = 0 := by grind
  have waiting := asleep lock
  have once := distinct lock
  unfold View.give
  cases waiters : (v.locks lock).sema.waiters with
  | nil =>
    constructor <;> simp only [View.setLock, View.setStance, Semaphore.up, waiters]
    all_goals grind
  | cons first rest =>
    rw [waiters] at waiting once
    constructor <;> simp only [View.setLock, View.setStance, Semaphore.up, waiters]
    all_goals grind

/-- Between operations, in search of a lock and at work under one: a thread that moves among these changes no lock. -/
theorem Locked.moves {next : Option (Nat × Stance)}
    (before : v.stance thread = none ∨ v.stance thread = some (lock, .seeking) ∨ v.stance thread = some (lock, .using))
    (after : next = none ∨ next = some (lock, .seeking) ∧ (v.locks lock).holder ≠ some thread ∨
      next = some (lock, .using) ∧ (v.locks lock).holder = some thread) : Locked (v.setStance thread next) := by
  obtain ⟨value, holder, owner, unit, used, seeks, held, asleep, distinct⟩ := locked
  constructor <;> simp only [View.setStance]
  all_goals grind

theorem Locked.seek (idle : v.stance thread = none) (unheld : (v.locks lock).holder ≠ some thread) :
    Locked (v.setStance thread (some (lock, .seeking))) := locked.moves (.inl idle) (.inr (.inl ⟨rfl, unheld⟩))

theorem Locked.quit (seeking : v.stance thread = some (lock, .seeking)) :
    Locked (v.setStance thread none) := locked.moves (.inr (.inl seeking)) (.inl rfl)

theorem Locked.use (idle : v.stance thread = none) (holds : (v.locks lock).holder = some thread) :
    Locked (v.setStance thread (some (lock, .using))) := locked.moves (.inl idle) (.inr (.inr ⟨rfl, holds⟩))

theorem Locked.unuse (here : v.stance thread = some (lock, .using)) :
    Locked (v.setStance thread none) := locked.moves (.inr (.inr here)) (.inl rfl)

theorem Locked.unheld : Locked (v.setHeld thread lock false) := by
  obtain ⟨value, holder, owner, unit, used, seeks, held, asleep, distinct⟩ := locked
  constructor <;> simp only [View.setHeld]
  all_goals grind

end Moves

def Pc.stance : Pc → Option (Nat × Stance)
  | .idle => none
  | .trying lock | .down lock _ | .waitDown lock _ | .waitAsleep lock _ | .waitAcquire lock _ => some (lock, .seeking)
  | .asleep lock _ => some (lock, .asleep)
  | .owning lock _ | .releasing lock _ => some (lock, .unit)
  | .queued lock _ | .looping lock _ | .signalling lock _ _ => some (lock, .using)

def System.view (s : System) : View := ⟨s.locks, fun thread => (s.pc thread).stance, s.held⟩

section Views
variable (s : System)

@[simp] theorem view_locks (lock : Nat) : s.view.locks lock = s.locks lock := rfl

@[simp] theorem view_stance (thread : Nat) : s.view.stance thread = (s.pc thread).stance := rfl

@[simp] theorem view_setPc (thread : Nat) (pc : Pc) : (s.setPc thread pc).view = s.view.setStance thread pc.stance := by
  simp only [System.view, System.setPc, View.setStance, View.mk.injEq, true_and, and_true]
  funext other
  simp only [Function.update_apply]
  split <;> rfl

@[simp] theorem view_setLock (lock : Nat) (value : Lock) : (s.setLock lock value).view = s.view.setLock lock value := by
  simp only [System.view, System.setLock, View.setLock, View.mk.injEq, and_true]
  funext other
  simp only [Function.update_apply]

@[simp] theorem view_setHeld (thread lock : Nat) (value : Bool) :
    (s.setHeld thread lock value).view = s.view.setHeld thread lock value := by
  simp only [System.view, System.setHeld, View.setHeld, View.mk.injEq, true_and]
  funext t l
  by_cases same : t = thread
  · subst same
    simp [Function.update_apply]
  · simp [same]

@[simp] theorem view_setWait (wait : Nat) (value : Wait) : (s.setWait wait value).view = s.view := rfl

@[simp] theorem view_setCall (call : Nat) (value : Call) : (s.setCall call value).view = s.view := rfl

theorem view_setPc_same {thread : Nat} {pc : Pc} (same : pc.stance = (s.pc thread).stance) :
    (s.setPc thread pc).view = s.view := by
  rw [view_setPc]
  exact View.setStance_same same.symm

theorem view_wake {woken : Option Nat} (same : ∀ thread ∈ woken, (s.pc thread).woken.stance = (s.pc thread).stance) :
    (s.wake woken).view = s.view := by
  cases woken with
  | none => rfl
  | some thread => exact view_setPc_same s (same thread rfl)

@[simp] theorem setWait_pc (wait : Nat) (value : Wait) : (s.setWait wait value).pc = s.pc := rfl

@[simp] theorem setLock_pc (lock : Nat) (value : Lock) : (s.setLock lock value).pc = s.pc := rfl

end Views

theorem woken_stance {pc : Pc} {lock : Nat} (sleeps : pc.stance = some (lock, .asleep)) :
    pc.woken.stance = some (lock, .seeking) := by
  cases pc <;> simp_all [Pc.stance, Pc.woken]

section Simulation
variable {s : System} {thread lock : Nat} {wait : Option Nat}

theorem goDown_locked (locked : Locked s.view) (here : s.pc thread = .down lock wait) :
    Locked (goDown s thread lock wait).view := by
  have seeking : s.view.stance thread = some (lock, .seeking) := by simp [here, Pc.stance]
  unfold goDown
  by_cases zero : (s.locks lock).sema.value = 0
  · rw [Semaphore.test_of_zero zero]
    simp only [view_setPc, view_setLock]
    exact locked.sleep seeking
  · rw [Semaphore.test_of_ne zero]
    simp only [view_setPc, view_setLock]
    exact locked.take zero seeking

theorem goTrying_locked (locked : Locked s.view) (here : s.pc thread = .trying lock) :
    Locked (goTrying s thread lock).view := by
  have seeking : s.view.stance thread = some (lock, .seeking) := by simp [here, Pc.stance]
  unfold goTrying
  by_cases zero : (s.locks lock).sema.value = 0
  · rw [Semaphore.tryDown_of_zero zero]
    simp only [view_setPc]
    exact locked.quit seeking
  · rw [Semaphore.tryDown_of_ne zero]
    simp only [view_setPc, view_setLock]
    exact locked.take zero seeking

theorem goOwning_locked (locked : Locked s.view) (here : s.pc thread = .owning lock wait) :
    Locked (goOwning s thread lock wait).view := by
  have holds := locked.hold (show s.view.stance thread = some (lock, .unit) by simp [here, Pc.stance])
  unfold goOwning
  cases wait with
  | none =>
    simp only [view_setPc, view_setHeld, view_setLock]
    exact holds
  | some wait =>
    simp only [view_setWait, view_setPc, view_setHeld, view_setLock]
    exact holds

theorem goReleasing_locked (locked : Locked s.view) (here : s.pc thread = .releasing lock wait) :
    Locked (goReleasing s thread lock wait).view := by
  have unit : s.view.stance thread = some (lock, .unit) := by simp [here, Pc.stance]
  have gives (pc : Pc) (next : pc.stance = none ∨ pc.stance = some (lock, .seeking)) :
      Locked (((s.setPc thread pc).setLock lock { s.locks lock with
        sema := (s.locks lock).sema.up.1, owner := none }).wake (s.locks lock).sema.up.2).view := by
    have given := locked.give unit next
    unfold View.give at given
    cases waiters : (s.locks lock).sema.waiters with
    | nil =>
      simp only [view_locks, waiters] at given
      simp only [Semaphore.up, waiters, List.head?_nil, System.wake, view_setLock, view_setPc] at given ⊢
      exact given
    | cons first rest =>
      have sleeps := locked.asleep lock first (by simp [waiters])
      have other : first ≠ thread := by
        rintro rfl
        rw [unit] at sleeps
        cases sleeps
      have same : (s.setPc thread pc).pc first = s.pc first := Function.update_of_ne other _ _
      simp only [view_locks, waiters] at given
      simp only [Semaphore.up, waiters, List.head?_cons, System.wake, view_setLock, view_setPc, setLock_pc, same,
        woken_stance sleeps] at given ⊢
      exact given
  unfold goReleasing
  cases wait with
  | none => exact gives .idle (.inl rfl)
  | some wait => exact gives (.waitDown lock wait) (.inr rfl)

variable {final : System} {call cond : Nat}

theorem lockAcquire_locked (locked : Locked s.view)
    (place : (s.pc thread).stance = none ∨ (s.pc thread).stance = some (lock, .seeking))
    (taken : lockAcquire s thread lock wait = some final) : Locked final.view := by
  unfold lockAcquire at taken
  split at taken <;> rename_i unheld
  · cases taken
  · cases taken
    obtain idle | seeking := place
    · rw [view_setPc]
      exact locked.seek idle unheld
    · rwa [view_setPc_same s (by rw [seeking]; rfl)]

theorem lockRelease_locked (locked : Locked s.view)
    (place : (s.pc thread).stance = none ∨ (s.pc thread).stance = some (lock, .using))
    (taken : lockRelease s thread lock wait = some final) : Locked final.view := by
  unfold lockRelease at taken
  split at taken <;> rename_i holds
  · cases taken
    simp only [view_setPc, view_setHeld, view_setLock]
    exact locked.drop holds place
  · cases taken

theorem goWaitDown_view {wait : Nat} (here : s.pc thread = .waitDown lock wait) :
    (goWaitDown s thread lock wait).view = s.view := by
  unfold goWaitDown
  split
  · rw [view_setPc_same _ (by rw [setWait_pc, here]; rfl), view_setWait]
  · rw [view_setPc_same _ (by rw [setWait_pc, here]; rfl), view_setWait]

theorem popWaiter_view {wait : Nat} {rest : List Nat} {record : Call} :
    (popWaiter s thread lock call wait rest record).view = s.view.setStance thread (some (lock, .using)) := by
  unfold popWaiter
  rw [view_setPc]
  rfl

section
variable (locked : Locked s.view)
include locked

theorem goLooping_locked (here : s.pc thread = .looping lock call)
    (taken : goLooping s thread lock call = some final) : Locked final.view := by
  have stance : s.view.stance thread = some (lock, .using) := by simp [here, Pc.stance]
  unfold goLooping at taken
  split at taken
  · cases taken
    rw [view_setPc, view_setCall]
    exact locked.unuse stance
  · split at taken
    · cases taken
      rwa [popWaiter_view, View.setStance_same stance]
    · cases taken

theorem goSignalling_locked {wait : Nat} (here : s.pc thread = .signalling lock call wait)
    (sleepers : ∀ other ∈ (s.waits wait).sema.waiters, (s.pc other).woken.stance = (s.pc other).stance) :
    Locked (goSignalling s thread lock call wait).view := by
  have stance : s.view.stance thread = some (lock, .using) := by simp [here, Pc.stance]
  have woken (value : Wait) : ((s.setWait wait value).wake (s.waits wait).sema.up.2).view = s.view := by
    have first (other : Nat) (woken : other ∈ (s.waits wait).sema.up.2) : other ∈ (s.waits wait).sema.waiters :=
      List.mem_of_mem_head? woken
    exact view_wake (s.setWait wait value) fun other woken => sleepers other (first other woken)
  unfold goSignalling
  dsimp only
  split
  · rw [view_setPc, woken]
    exact (View.setStance_same stance).symm ▸ locked
  · rw [view_setPc, view_setCall, woken]
    exact locked.unuse stance

theorem condWait_locked (idle : s.pc thread = .idle)
    (taken : condWait s thread cond lock = some final) : Locked final.view := by
  unfold condWait at taken
  split at taken <;> rename_i holds
  · cases taken
    have stance : (s.view.setHeld thread lock false).stance thread = none := by
      show (s.pc thread).stance = none
      rw [idle]
      rfl
    have used := locked.unheld.use stance holds
    rw [← view_setHeld] at used
    exact (view_setPc (s.setHeld thread lock false) thread (.queued lock s.waitCnt)).symm ▸ used
  · cases taken

theorem condSignal_locked (idle : s.pc thread = .idle)
    (taken : condSignal s thread cond lock = some final) : Locked final.view := by
  have stance : s.view.stance thread = none := by simp [idle, Pc.stance]
  unfold condSignal at taken
  split at taken <;> rename_i holds
  · dsimp only at taken
    split at taken
    · cases taken
      exact locked
    · cases taken
      rw [popWaiter_view]
      exact locked.use stance holds
  · cases taken

theorem condBroadcast_locked (idle : s.pc thread = .idle)
    (taken : condBroadcast s thread cond lock = some final) : Locked final.view := by
  have stance : s.view.stance thread = none := by simp [idle, Pc.stance]
  unfold condBroadcast at taken
  dsimp only at taken
  split at taken
  · cases taken
    exact locked
  · split at taken <;> rename_i holds
    · cases taken
      rw [view_setPc, view_setCall]
      exact locked.use stance holds
    · cases taken

/-- Every step keeps the locks in order, given that what sleeps on a wait's semaphore is its thread. -/
theorem step_locked {lockOf : Nat → Nat} {event : Event}
    (sleepers : ∀ thread lock call wait, s.pc thread = .signalling lock call wait → ∀ other ∈ (s.waits wait).sema.waiters, (s.pc other).woken.stance = (s.pc other).stance)
    (taken : step lockOf s event = some final) : Locked final.view := by
  cases event with
  | call thread op =>
    simp only [step] at taken
    split at taken <;> rename_i idle
    · obtain ⟨next, called, rfl⟩ := Option.map_eq_some_iff.mp taken
      show Locked next.view
      have stance : (s.pc thread).stance = none := by simp [idle, Pc.stance]
      cases op with
      | acquire lock => exact lockAcquire_locked locked (.inl stance) called
      | tryAcquire lock =>
        simp only [call] at called
        split at called <;> rename_i unheld
        · cases called
        · cases called
          rw [view_setPc]
          exact locked.seek stance unheld
      | release lock => exact lockRelease_locked locked (.inl stance) called
      | wait cond => exact condWait_locked locked idle called
      | signal cond => exact condSignal_locked locked idle called
      | broadcast cond => exact condBroadcast_locked locked idle called
    · cases taken
  | go thread =>
    simp only [step] at taken
    obtain ⟨next, gone, rfl⟩ := Option.map_eq_some_iff.mp taken
    show Locked next.view
    unfold go at gone
    cases here : s.pc thread with
    | idle =>
      rw [here] at gone
      cases gone
    | trying lock =>
      rw [here] at gone
      cases gone
      exact goTrying_locked locked here
    | down lock wait =>
      rw [here] at gone
      cases gone
      exact goDown_locked locked here
    | asleep lock wait =>
      rw [here] at gone
      cases gone
    | owning lock wait =>
      rw [here] at gone
      cases gone
      exact goOwning_locked locked here
    | releasing lock wait =>
      rw [here] at gone
      cases gone
      exact goReleasing_locked locked here
    | queued lock wait =>
      rw [here] at gone
      exact lockRelease_locked locked (.inr (by rw [here]; rfl)) gone
    | waitDown lock wait =>
      rw [here] at gone
      cases gone
      rwa [goWaitDown_view here]
    | waitAsleep lock wait =>
      rw [here] at gone
      cases gone
    | waitAcquire lock wait =>
      rw [here] at gone
      exact lockAcquire_locked locked (.inr (by rw [here]; rfl)) gone
    | looping lock call =>
      rw [here] at gone
      exact goLooping_locked locked here gone
    | signalling lock call wait =>
      rw [here] at gone
      cases gone
      exact goSignalling_locked locked here (sleepers thread lock call wait here)

end

end Simulation

end Pintos.Threads.Monitor
