import Pintos.Threads.Conditions

/-! What every run of locks and condition variables keeps.

Each step of a thread is a step on the locks and a step on the books, and the
lock a thread holds keeps others away from the list it works on. In every state
a lock has at most one thread between acquiring and releasing it, every wait
that is over was released by one call issued after it, and a call that is over
has released what it found.
-/

set_option autoImplicit false

namespace Pintos.Threads.Monitor
open Semantics

def Pc.stage : Pc → Option (Nat × Stage)
  | .queued _ wait | .releasing _ (some wait) | .waitDown _ wait => some (wait, .before)
  | .waitAsleep _ wait => some (wait, .asleep)
  | .waitAcquire _ wait | .down _ (some wait) | .asleep _ (some wait) | .owning _ (some wait) => some (wait, .past)
  | _ => none

def Pc.duty : Pc → Option (Nat × Duty)
  | .looping lock call => some (lock, .looping call)
  | .signalling lock call wait => some (lock, .signalling call wait)
  | _ => none

def System.ledger (s : System) : Ledger where
  stage thread := (s.pc thread).stage
  duty thread := (s.pc thread).duty
  waiters := s.waiters
  waits := s.waits
  waitCnt := s.waitCnt
  calls := s.calls
  callCnt := s.callCnt
  clock := s.clock

section Places
variable {pc : Pc} {lock wait : Nat} {duty : Duty}

theorem stance_of_duty (busy : pc.duty = some (lock, duty)) : pc.stance = some (lock, .using) := by
  cases pc <;> simp_all [Pc.duty, Pc.stance]

theorem woken_of_asleep (sleeps : pc.stance = some (lock, .asleep)) :
    pc.woken.stage = pc.stage ∧ pc.woken.duty = pc.duty := by
  cases pc <;> simp_all [Pc.stance, Pc.woken, Pc.duty]
  rename_i wait
  cases wait <;> rfl

theorem woken_of_stage (sleeps : pc.stage = some (wait, .asleep)) :
    pc.woken.stance = pc.stance ∧ pc.woken.stage = some (wait, .before) ∧ pc.woken.duty = pc.duty ∧ pc.duty = none := by
  cases pc with
  | waitAsleep lock other =>
    simp only [Pc.stage, Option.some.injEq, Prod.mk.injEq, and_true] at sleeps
    subst sleeps
    exact ⟨rfl, rfl, rfl, rfl⟩
  | releasing lock other | down lock other | asleep lock other | owning lock other =>
    cases other <;> simp [Pc.stage] at sleeps
  | _ => simp [Pc.stage] at sleeps

end Places

section Ledgers
variable (s : System)

@[simp] theorem ledger_waiters : s.ledger.waiters = s.waiters := rfl

@[simp] theorem ledger_waits : s.ledger.waits = s.waits := rfl

@[simp] theorem ledger_calls : s.ledger.calls = s.calls := rfl

@[simp] theorem ledger_setPc (thread : Nat) (pc : Pc) :
    (s.setPc thread pc).ledger = (s.ledger.setStage thread pc.stage).setDuty thread pc.duty := by
  simp only [System.ledger, System.setPc, Ledger.setStage, Ledger.setDuty, Ledger.mk.injEq, and_true]
  constructor
  · funext other
    simp only [Function.update_apply]
    split <;> rfl
  · funext other
    simp only [Function.update_apply]
    split <;> rfl

theorem ledger_setPc_stage {thread : Nat} {pc : Pc} (duty : pc.duty = (s.pc thread).duty) :
    (s.setPc thread pc).ledger = s.ledger.setStage thread pc.stage := by
  rw [ledger_setPc]
  exact Ledger.setDuty_same duty.symm

theorem ledger_setPc_duty {thread : Nat} {pc : Pc} (stage : pc.stage = (s.pc thread).stage) :
    (s.setPc thread pc).ledger = s.ledger.setDuty thread pc.duty := by
  have same : s.ledger.setStage thread pc.stage = s.ledger := Ledger.setStage_same stage.symm
  rw [ledger_setPc, same]

theorem ledger_setPc_same {thread : Nat} {pc : Pc} (stage : pc.stage = (s.pc thread).stage)
    (duty : pc.duty = (s.pc thread).duty) : (s.setPc thread pc).ledger = s.ledger := by
  rw [ledger_setPc_stage s duty]
  exact Ledger.setStage_same stage.symm

@[simp] theorem ledger_setLock (lock : Nat) (value : Lock) : (s.setLock lock value).ledger = s.ledger := rfl

@[simp] theorem ledger_setHeld (thread lock : Nat) (value : Bool) : (s.setHeld thread lock value).ledger = s.ledger := rfl

@[simp] theorem ledger_setWait (wait : Nat) (value : Wait) : (s.setWait wait value).ledger = s.ledger.setWait wait value := by
  simp only [System.ledger, System.setWait, Ledger.setWait, Ledger.mk.injEq, and_true, true_and]
  funext other
  simp only [Function.update_apply]

@[simp] theorem ledger_setCall (call : Nat) (value : Call) : (s.setCall call value).ledger = s.ledger.setCall call value := by
  simp only [System.ledger, System.setCall, Ledger.setCall, Ledger.mk.injEq, and_true, true_and]
  funext other
  simp only [Function.update_apply]

@[simp] theorem ledger_setWaiters (cond : Nat) (value : List Nat) :
    (s.setWaiters cond value).ledger = s.ledger.setWaiters cond value := by
  simp only [System.ledger, System.setWaiters, Ledger.setWaiters, Ledger.mk.injEq, and_true, true_and]
  funext other
  simp only [Function.update_apply]

end Ledgers

structure Sound (lockOf : Nat → Nat) (s : System) : Prop where
  locked : Locked s.view
  staged : Staged s.ledger
  booked : Booked lockOf s.ledger

section Steps
variable {lockOf : Nat → Nat} {s : System} {thread lock : Nat}

structure Recorded (lockOf : Nat → Nat) (g : Ledger) : Prop where
  staged : Staged g
  booked : Booked lockOf g

theorem Recorded.tick {g : Ledger} (recorded : Recorded lockOf g) : Recorded lockOf g.tick :=
  ⟨recorded.staged.congr rfl rfl fun _ => ⟨rfl, rfl, rfl, rfl⟩, recorded.booked.tick⟩

theorem Sound.recorded (sound : Sound lockOf s) : Recorded lockOf s.ledger := ⟨sound.staged, sound.booked⟩

/-- The holder of a lock is alone at work on its lists. -/
theorem Sound.alone (sound : Sound lockOf s) (holds : (s.locks lock).holder = some thread) :
    Alone s.ledger thread lock := by
  intro other duty busy
  have named := sound.locked.used lock other (stance_of_duty busy)
  exact Option.some.inj (named.symm.trans holds)

theorem goDown_ledger {wait : Option Nat} (here : s.pc thread = .down lock wait) :
    (goDown s thread lock wait).ledger = s.ledger := by
  unfold goDown
  split
  · rw [ledger_setPc_same _ (by rw [setLock_pc, here]; cases wait <;> rfl) (by rw [setLock_pc, here]; rfl), ledger_setLock]
  · rw [ledger_setPc_same _ (by rw [setLock_pc, here]; cases wait <;> rfl) (by rw [setLock_pc, here]; rfl), ledger_setLock]

theorem goTrying_ledger (here : s.pc thread = .trying lock) : (goTrying s thread lock).ledger = s.ledger := by
  unfold goTrying
  split
  · rw [ledger_setPc_same _ (by rw [setLock_pc, here]; rfl) (by rw [setLock_pc, here]; rfl), ledger_setLock]
  · rw [ledger_setPc_same _ (by rw [here]; rfl) (by rw [here]; rfl)]

theorem lockAcquire_ledger {wait : Option Nat} {final : System} (stage : (s.pc thread).stage = (Pc.down lock wait).stage)
    (duty : (s.pc thread).duty = none) (taken : lockAcquire s thread lock wait = some final) : final.ledger = s.ledger := by
  unfold lockAcquire at taken
  split at taken
  · cases taken
  · cases taken
    exact ledger_setPc_same s stage.symm duty.symm

theorem lockRelease_ledger {wait : Option Nat} {final : System}
    (stage : (s.pc thread).stage = (Pc.releasing lock wait).stage) (duty : (s.pc thread).duty = none)
    (taken : lockRelease s thread lock wait = some final) : final.ledger = s.ledger := by
  unfold lockRelease at taken
  split at taken
  · cases taken
    exact ledger_setPc_same _ stage.symm duty.symm
  · cases taken

theorem goOwning_recorded {wait : Option Nat} (sound : Sound lockOf s) (here : s.pc thread = .owning lock wait) :
    Recorded lockOf (goOwning s thread lock wait).ledger := by
  have duty : Pc.idle.duty = (s.pc thread).duty := by rw [here]; rfl
  cases wait with
  | none =>
    have same : (goOwning s thread lock none).ledger = s.ledger := by
      apply ledger_setPc_same
      · show Pc.idle.stage = (s.pc thread).stage
        rw [here]
        rfl
      · exact duty
    rw [same]
    exact sound.recorded
  | some wait =>
    have past : s.ledger.stage thread = some (wait, .past) := by
      show (s.pc thread).stage = _
      rw [here]
      rfl
    have left : (goOwning s thread lock (some wait)).ledger = s.ledger.leave thread wait := by
      unfold goOwning
      dsimp only
      rw [ledger_setWait, ledger_setPc_stage]
      · rfl
      · exact duty
    rw [left]
    exact ⟨sound.staged.leave past, sound.booked.setWait wait _ _ ⟨rfl, rfl, rfl, rfl⟩⟩

theorem goReleasing_recorded {wait : Option Nat} (sound : Sound lockOf s) (here : s.pc thread = .releasing lock wait) :
    Recorded lockOf (goReleasing s thread lock wait).ledger := by
  have same (pc : Pc) (stage : pc.stage = (Pc.releasing lock wait).stage) (duty : pc.duty = none) :
      (((s.setPc thread pc).setLock lock { s.locks lock with
        sema := (s.locks lock).sema.up.1, owner := none }).wake (s.locks lock).sema.up.2).ledger = s.ledger := by
    have moved : (s.setPc thread pc).ledger = s.ledger := by
      rw [ledger_setPc_same]
      · rw [here, stage]
      · rw [here, duty]
        rfl
    cases waiters : (s.locks lock).sema.waiters with
    | nil =>
      simp only [Semaphore.up, waiters, List.head?_nil, System.wake, ledger_setLock]
      exact moved
    | cons first rest =>
      have sleeps := sound.locked.asleep lock first (by simp [waiters])
      have other : first ≠ thread := by
        rintro rfl
        rw [view_stance, here] at sleeps
        cases sleeps
      have place : (s.setPc thread pc).pc first = s.pc first := Function.update_of_ne other _ _
      obtain ⟨sameStage, sameDuty⟩ := woken_of_asleep sleeps
      simp only [Semaphore.up, waiters, List.head?_cons, System.wake, setLock_pc, place]
      rw [ledger_setPc_same]
      · exact moved
      · rw [setLock_pc, place, sameStage]
      · rw [setLock_pc, place, sameDuty]
  unfold goReleasing
  cases wait with
  | none =>
    rw [same .idle rfl rfl]
    exact sound.recorded
  | some wait =>
    rw [same (.waitDown lock wait) rfl rfl]
    exact sound.recorded

theorem goWaitDown_recorded {wait : Nat} (sound : Sound lockOf s) (here : s.pc thread = .waitDown lock wait) :
    Recorded lockOf (goWaitDown s thread lock wait).ledger := by
  have before : s.ledger.stage thread = some (wait, .before) := by
    show (s.pc thread).stage = _
    rw [here]
    rfl
  have duty : none = (s.pc thread).duty := by rw [here]; rfl
  by_cases zero : (s.waits wait).sema.value = 0
  · have slept : (goWaitDown s thread lock wait).ledger = s.ledger.fallAsleep thread wait := by
      unfold goWaitDown
      rw [Semaphore.test_of_zero zero]
      dsimp only
      rw [ledger_setPc_stage, ledger_setWait]
      · rfl
      · exact duty
    rw [slept]
    exact ⟨sound.staged.fallAsleep before zero, sound.booked.setWait wait _ _ ⟨rfl, rfl, rfl, rfl⟩⟩
  · have taken : (goWaitDown s thread lock wait).ledger = s.ledger.takeUnit thread wait := by
      unfold goWaitDown
      rw [Semaphore.test_of_ne zero]
      dsimp only
      rw [ledger_setPc_stage, ledger_setWait]
      · rfl
      · exact duty
    rw [taken]
    exact ⟨sound.staged.takeUnit before zero, sound.booked.setWait wait _ _ ⟨rfl, rfl, rfl, rfl⟩⟩

theorem popWaiter_ledger {call wait : Nat} {rest : List Nat} {record : Call} (stage : (s.pc thread).stage = none) :
    (popWaiter s thread lock call wait rest record).ledger = s.ledger.pop thread lock call wait rest record := by
  unfold popWaiter
  rw [ledger_setPc_duty, ledger_setCall, ledger_setWait, ledger_setWaiters]
  · rfl
  · exact stage.symm

theorem Recorded.pop {g : Ledger} {call wait : Nat} {rest : List Nat} (recorded : Recorded lockOf g)
    (working : Working lockOf g thread lock call) (waiters : g.waiters (g.calls call).cond = wait :: rest)
    (alone : Alone g thread lock) (single : (g.calls call).broadcast = false → (g.calls call).released = [])
    (raised : ∀ wait ∈ (g.calls call).released, (g.waits wait).raised = true) :
    Recorded lockOf (g.pop thread lock call wait rest (g.calls call)) := by
  refine ⟨recorded.staged.congr rfl rfl fun other => ?_, recorded.booked.pop working waiters alone single raised⟩
  simp only [Ledger.pop, Ledger.setCall, Ledger.setDuty, Ledger.setWait, Ledger.setWaiters]
  split <;> rename_i same
  · rw [same]
    exact ⟨rfl, rfl, rfl, rfl⟩
  · exact ⟨rfl, rfl, rfl, rfl⟩

theorem Recorded.finish {g : Ledger} {call : Nat} (recorded : Recorded lockOf g)
    (working : Working lockOf g thread lock call)
    (all : (g.calls call).released = if (g.calls call).broadcast then (g.calls call).found else (g.calls call).found.take 1)
    (raised : ∀ wait ∈ (g.calls call).released, (g.waits wait).raised = true) :
    Recorded lockOf (g.finish thread call) :=
  ⟨recorded.staged.congr rfl rfl fun _ => ⟨rfl, rfl, rfl, rfl⟩, recorded.booked.finish working all raised⟩

theorem goLooping_recorded {call : Nat} {final : System} (sound : Sound lockOf s) (here : s.pc thread = .looping lock call)
    (taken : goLooping s thread lock call = some final) : Recorded lockOf final.ledger := by
  have stage : none = (s.pc thread).stage := by rw [here]; rfl
  have busy : s.ledger.duty thread = some (lock, .looping call) := congrArg Pc.duty here
  obtain ⟨working, broadcast, raised⟩ := sound.booked.looping thread lock call busy
  unfold goLooping at taken
  split at taken <;> rename_i waiters
  · cases taken
    rw [ledger_setPc_duty, ledger_setCall]
    · refine sound.recorded.finish working ?_ raised
      rw [if_pos broadcast, working.rest]
      simp only [ledger_calls, ledger_waiters, waiters, List.append_nil]
    · exact stage
  · split at taken <;> rename_i holds
    · cases taken
      rw [popWaiter_ledger stage.symm]
      refine sound.recorded.pop working waiters (sound.alone holds) (fun single => ?_) raised
      rw [broadcast] at single
      cases single
    · cases taken

/-- The semaphore of a wait is raised, and the thread that sleeps on it goes on. -/
theorem raise_ledger {wait : Nat} (staged : Staged s.ledger) (known : wait < s.waitCnt) (down : (s.waits wait).raised = false) :
    ((s.setWait wait { s.waits wait with sema := (s.waits wait).sema.up.1, raised := true }).wake
      (s.waits wait).sema.up.2).ledger = s.ledger.raise wait := by
  obtain ⟨-, -, ⟨-, waiters⟩ | ⟨sleeps, waiters⟩⟩ := staged.resting wait known down
  · rw [ledger_waits] at waiters
    simp only [Ledger.raise, Semaphore.up, ledger_waits, waiters, List.head?_nil, System.wake, ledger_setWait]
  · rw [ledger_waits] at waiters sleeps
    obtain ⟨-, stage, duty, -⟩ := woken_of_stage sleeps
    simp only [Ledger.raise, Semaphore.up, ledger_waits, waiters, List.head?_cons, System.wake, setWait_pc]
    rw [ledger_setPc_stage, ledger_setWait, stage]
    exact duty

theorem goSignalling_recorded {call wait : Nat} (sound : Sound lockOf s) (here : s.pc thread = .signalling lock call wait) :
    Recorded lockOf (goSignalling s thread lock call wait).ledger := by
  have busy : s.ledger.duty thread = some (lock, .signalling call wait) := congrArg Pc.duty here
  obtain ⟨working, pending, down, single, others⟩ := sound.booked.signalling thread lock call wait busy
  have known := (sound.booked.owned call working.known wait pending).1
  have outside : (s.ledger.raise wait).stage thread = none :=
    sound.staged.raise_outside known down (congrArg Pc.stage here)
  have record : (s.ledger.raise wait).calls call = s.calls call :=
    congrFun (s.ledger.raise_others wait).2.2.2.1 call
  have next : Recorded lockOf ((s.ledger.raise wait).setDuty thread none) :=
    ⟨(sound.staged.raise known down).congr rfl rfl fun _ => ⟨rfl, rfl, rfl, rfl⟩, sound.booked.raise busy⟩
  have works := working.raise wait none
  have raised : ∀ other ∈ ((s.ledger.raise wait).calls call).released, ((s.ledger.raise wait).waits other).raised = true := by
    intro other inside
    rw [record] at inside
    rw [s.ledger.raise_waits]
    dsimp only
    split <;> rename_i same
    · rfl
    · exact others other inside same
  have moved (pc : Pc) (free : pc.stage = none) :
      (((s.setWait wait { s.waits wait with sema := (s.waits wait).sema.up.1, raised := true }).wake
        (s.waits wait).sema.up.2).setPc thread pc).ledger = (s.ledger.raise wait).setDuty thread pc.duty := by
    rw [ledger_setPc, raise_ledger sound.staged known down, free, Ledger.setStage_same outside]
  unfold goSignalling
  dsimp only
  split <;> rename_i broadcast
  · rw [moved (.looping lock call) rfl]
    have looped := next.booked.loop works ((congrArg Call.broadcast record).trans broadcast) raised
    rw [Ledger.setDuty_setDuty] at looped
    exact ⟨next.staged.congr rfl rfl fun _ => ⟨rfl, rfl, rfl, rfl⟩, looped⟩
  · have one : (s.calls call).released = [wait] := single (by simpa using broadcast)
    have whole : (s.calls call).found = (s.calls call).released ++ s.waiters (s.calls call).cond := working.rest
    have all : ((s.ledger.raise wait).calls call).released = if ((s.ledger.raise wait).calls call).broadcast then
        ((s.ledger.raise wait).calls call).found else ((s.ledger.raise wait).calls call).found.take 1 := by
      rw [record, if_neg broadcast, whole, one]
      rfl
    have finished := next.finish works all raised
    have same : ((s.ledger.raise wait).setDuty thread none).finish thread call =
        ((s.ledger.raise wait).setDuty thread none).setCall call { s.calls call with done := true } := by
      rw [← record]
      exact Ledger.setDuty_setDuty ((s.ledger.raise wait).setCall call _) thread none none
    rw [same, ← show _ = (s.ledger.raise wait).setDuty thread none from moved .idle rfl, ← ledger_setCall] at finished
    exact finished

theorem condWait_recorded {cond : Nat} {final : System} (sound : Sound lockOf s) (idle : s.pc thread = .idle)
    (taken : condWait s thread cond (lockOf cond) = some final) : Recorded lockOf final.ledger.tick := by
  unfold condWait at taken
  split at taken <;> rename_i holds
  · have queued : ((((s.setWait s.waitCnt ⟨thread, cond, Semaphore.init 0, s.clock, none, false, false⟩).setWaiters cond
        (s.waiters cond ++ [s.waitCnt])).setHeld thread (lockOf cond) false).setPc thread
          (.queued (lockOf cond) s.waitCnt)).ledger =
        ((s.ledger.setWait s.waitCnt ⟨thread, cond, Semaphore.init 0, s.clock, none, false, false⟩).setWaiters cond
          (s.waiters cond ++ [s.waitCnt])).setStage thread (some (s.waitCnt, .before)) := by
      rw [ledger_setPc_stage, ledger_setHeld, ledger_setWaiters, ledger_setWait]
      · rfl
      · show none = (s.pc thread).duty
        rw [idle]
        rfl
    have enqueued : final.ledger = s.ledger.enqueue thread cond := by
      cases taken
      exact congrArg (fun g : Ledger => { g with waitCnt := s.waitCnt + 1 }) queued
    have outside : s.ledger.stage thread = none := congrArg Pc.stage idle
    have free : s.ledger.duty thread = none := congrArg Pc.duty idle
    rw [enqueued]
    exact ⟨(sound.staged.enqueue outside cond).congr rfl rfl fun _ => ⟨rfl, rfl, rfl, rfl⟩,
      sound.booked.enqueue free (sound.alone holds)⟩
  · cases taken

section Issued
variable {g : Ledger} {cond : Nat}

section
variable (recorded : Recorded lockOf g)
include recorded

theorem Recorded.opened (thread cond : Nat) (broadcast : Bool) :
    Recorded lockOf (g.newCall.setCall g.callCnt ⟨thread, cond, broadcast, g.clock, g.waiters cond, [], false⟩) :=
  ⟨recorded.staged.congr rfl rfl fun _ => ⟨rfl, rfl, rfl, rfl⟩, recorded.booked.opened cond broadcast⟩

/-- A call that finds no wait is over at once. -/
theorem Recorded.openDone (free : g.duty thread = none) (empty : g.waiters cond = []) (broadcast : Bool) :
    Recorded lockOf (g.newCall.setCall g.callCnt ⟨thread, cond, broadcast, g.clock, g.waiters cond, [], true⟩) := by
  have record : (g.newCall.setCall g.callCnt ⟨thread, cond, broadcast, g.clock, g.waiters cond, [], false⟩).calls g.callCnt =
      ⟨thread, cond, broadcast, g.clock, g.waiters cond, [], false⟩ := if_pos rfl
  have finished := (recorded.opened thread cond broadcast).finish Working.opened (by rw [record]; simp [empty]) (by simp [record])
  have same : (g.newCall.setCall g.callCnt ⟨thread, cond, broadcast, g.clock, g.waiters cond, [], false⟩).finish thread
      g.callCnt = g.newCall.setCall g.callCnt ⟨thread, cond, broadcast, g.clock, g.waiters cond, [], true⟩ := by
    rw [Ledger.finish, record, Ledger.setCall_setCall]
    exact Ledger.setDuty_same free
  rw [same] at finished
  exact finished

theorem Recorded.openPop {wait : Nat} {rest : List Nat}
    (waiters : g.waiters cond = wait :: rest) (alone : Alone g thread (lockOf cond)) :
    Recorded lockOf (g.newCall.pop thread (lockOf cond) g.callCnt wait rest
      ⟨thread, cond, false, g.clock, g.waiters cond, [], false⟩) := by
  have record : (g.newCall.setCall g.callCnt ⟨thread, cond, false, g.clock, g.waiters cond, [], false⟩).calls g.callCnt =
      ⟨thread, cond, false, g.clock, g.waiters cond, [], false⟩ := if_pos rfl
  have popped := (recorded.opened thread cond false).pop Working.opened (by rw [record]; exact waiters) alone
    (by simp [record]) (by simp [record])
  rw [record, Ledger.pop_setCall] at popped
  exact popped

/-- A broadcast that finds waits gets to the head of its loop. -/
theorem Recorded.openLoop :
    Recorded lockOf ((g.newCall.setCall g.callCnt ⟨thread, cond, true, g.clock, g.waiters cond, [], false⟩).setDuty thread
      (some (lockOf cond, .looping g.callCnt))) := by
  have record : (g.newCall.setCall g.callCnt ⟨thread, cond, true, g.clock, g.waiters cond, [], false⟩).calls g.callCnt =
      ⟨thread, cond, true, g.clock, g.waiters cond, [], false⟩ := if_pos rfl
  have opened := recorded.opened thread cond true
  exact ⟨opened.staged.congr rfl rfl fun _ => ⟨rfl, rfl, rfl, rfl⟩,
    opened.booked.loop Working.opened (by rw [record]) (by simp [record])⟩

end

theorem condSignal_recorded {final : System} (sound : Sound lockOf s) (idle : s.pc thread = .idle)
    (taken : condSignal s thread cond (lockOf cond) = some final) : Recorded lockOf final.ledger := by
  have free : s.ledger.duty thread = none := congrArg Pc.duty idle
  unfold condSignal at taken
  split at taken <;> rename_i holds
  · dsimp only at taken
    split at taken <;> rename_i waiters
    · cases taken
      rw [ledger_setCall]
      exact sound.recorded.openDone free waiters false
    · cases taken
      rw [popWaiter_ledger]
      · exact sound.recorded.openPop waiters (sound.alone holds)
      · exact congrArg Pc.stage idle
  · cases taken

theorem condBroadcast_recorded {final : System} (sound : Sound lockOf s) (idle : s.pc thread = .idle)
    (taken : condBroadcast s thread cond (lockOf cond) = some final) : Recorded lockOf final.ledger := by
  have free : s.ledger.duty thread = none := congrArg Pc.duty idle
  unfold condBroadcast at taken
  dsimp only at taken
  split at taken <;> rename_i waiters
  · cases taken
    rw [ledger_setCall]
    exact sound.recorded.openDone free waiters true
  · split at taken <;> rename_i holds
    · cases taken
      rw [ledger_setPc_duty, ledger_setCall]
      · exact sound.recorded.openLoop
      · show none = (s.pc thread).stage
        rw [idle]
        rfl
    · cases taken

end Issued

theorem call_recorded {op : Op} {final : System} (sound : Sound lockOf s) (idle : s.pc thread = .idle)
    (taken : call lockOf s thread op = some final) : Recorded lockOf final.ledger.tick := by
  have outside : (s.pc thread).stage = none := congrArg Pc.stage idle
  have free : (s.pc thread).duty = none := congrArg Pc.duty idle
  cases op with
  | acquire lock =>
    rw [lockAcquire_ledger outside free taken]
    exact sound.recorded.tick
  | tryAcquire lock =>
    simp only [call] at taken
    split at taken
    · cases taken
    · cases taken
      rw [ledger_setPc_same]
      · exact sound.recorded.tick
      · exact outside.symm
      · exact free.symm
  | release lock =>
    rw [lockRelease_ledger outside free taken]
    exact sound.recorded.tick
  | wait cond => exact condWait_recorded sound idle taken
  | signal cond => exact (condSignal_recorded sound idle taken).tick
  | broadcast cond => exact (condBroadcast_recorded sound idle taken).tick

theorem go_recorded {final : System} (sound : Sound lockOf s) (taken : go s thread = some final) :
    Recorded lockOf final.ledger := by
  unfold go at taken
  split at taken <;> rename_i here
  all_goals try (cases taken; done)
  case h_4 =>
    cases taken
    rw [goTrying_ledger here]
    exact sound.recorded
  case h_5 =>
    cases taken
    rw [goDown_ledger here]
    exact sound.recorded
  case h_6 =>
    cases taken
    exact goOwning_recorded sound here
  case h_7 =>
    cases taken
    exact goReleasing_recorded sound here
  case h_8 =>
    rw [lockRelease_ledger (by rw [here]; rfl) (by rw [here]; rfl) taken]
    exact sound.recorded
  case h_9 =>
    cases taken
    exact goWaitDown_recorded sound here
  case h_10 =>
    rw [lockAcquire_ledger (by rw [here]; rfl) (by rw [here]; rfl) taken]
    exact sound.recorded
  case h_11 => exact goLooping_recorded sound here taken
  case h_12 =>
    cases taken
    exact goSignalling_recorded sound here

end Steps

section Runs
variable {lockOf : Nat → Nat} {s : System}

theorem Sound.sleepers (sound : Sound lockOf s) (thread lock call wait : Nat)
    (here : s.pc thread = .signalling lock call wait) (other : Nat) (inside : other ∈ (s.waits wait).sema.waiters) :
    (s.pc other).woken.stance = (s.pc other).stance := by
  have busy : s.ledger.duty thread = some (lock, .signalling call wait) := congrArg Pc.duty here
  obtain ⟨working, pending, down, -, -⟩ := sound.booked.signalling thread lock call wait busy
  have known := (sound.booked.owned call working.known wait pending).1
  obtain ⟨-, -, ⟨-, waiters⟩ | ⟨sleeps, waiters⟩⟩ := sound.staged.resting wait known down
  · rw [ledger_waits] at waiters
    simp [waiters] at inside
  · rw [ledger_waits] at waiters sleeps
    rw [waiters, List.mem_singleton] at inside
    rw [inside]
    exact (woken_of_stage sleeps).1

theorem step_sound {event : Event} {final : System} (sound : Sound lockOf s) (taken : step lockOf s event = some final) :
    Sound lockOf final := by
  have locked := step_locked sound.locked sound.sleepers taken
  suffices recorded : Recorded lockOf final.ledger from ⟨locked, recorded.staged, recorded.booked⟩
  cases event with
  | call thread op =>
    simp only [step] at taken
    split at taken <;> rename_i idle
    · obtain ⟨next, made, rfl⟩ := Option.map_eq_some_iff.mp taken
      exact call_recorded sound idle made
    · cases taken
  | go thread =>
    obtain ⟨next, made, rfl⟩ := Option.map_eq_some_iff.mp taken
    exact (go_recorded sound made).tick

theorem start_sound : Sound lockOf System.start := by
  refine ⟨?_, ?_, ?_⟩
  · constructor <;> simp [System.start, System.view, Pc.stance, Lock.init, Semaphore.init]
  · constructor <;> simp [System.start, System.ledger, Pc.stage]
  · constructor <;> simp [System.start, System.ledger, Pc.stage, Pc.duty]

theorem run_sound {events : List Event} {final : System} (ran : run (step lockOf) System.start events = some final) :
    Sound lockOf final :=
  invariant_of_reached (step lockOf) (Sound lockOf) (fun _ _ _ => step_sound) start_sound ran

end Runs

end Pintos.Threads.Monitor
