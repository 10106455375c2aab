import Pintos.Threads.Exclusion

/-! Waits on condition variables, and the calls that release them.

Of the place of a thread only two things matter here: how far it has come in its
wait, and which waits it is releasing. A wait stays on the list until a call
takes it off, and from then on the call owes it the unit of its semaphore. While
a call has waits to release its thread holds the lock, so that nothing else
touches the list.
-/

set_option autoImplicit false

namespace Pintos.Threads.Monitor
open Semantics

inductive Stage where
  | before
  | asleep
  /-- The semaphore of the wait has been taken. -/
  | past
  deriving DecidableEq

inductive Duty where
  | looping (call : Nat)
  | signalling (call wait : Nat)
  deriving DecidableEq

structure Ledger where
  stage : Nat → Option (Nat × Stage)
  duty : Nat → Option (Nat × Duty)
  waiters : Nat → List Nat
  waits : Nat → Wait
  waitCnt : Nat
  calls : Nat → Call
  callCnt : Nat
  clock : Nat

/-- The semaphore of each wait agrees with how far its thread has come. -/
structure Staged (g : Ledger) : Prop where
  stage : ∀ thread wait stage, g.stage thread = some (wait, stage) →
    wait < g.waitCnt ∧ (g.waits wait).thread = thread ∧ (g.waits wait).returned = false
  resting : ∀ wait < g.waitCnt, (g.waits wait).raised = false →
    (g.waits wait).returned = false ∧ (g.waits wait).sema.value = 0 ∧
      (g.stage (g.waits wait).thread = some (wait, .before) ∧ (g.waits wait).sema.waiters = [] ∨
        g.stage (g.waits wait).thread = some (wait, .asleep) ∧ (g.waits wait).sema.waiters = [(g.waits wait).thread])
  raised : ∀ wait < g.waitCnt, (g.waits wait).raised = true →
    (g.waits wait).sema.waiters = [] ∧
      ((g.waits wait).sema.value = 1 ∧ (g.waits wait).returned = false ∧
          g.stage (g.waits wait).thread = some (wait, .before) ∨
        (g.waits wait).sema.value = 0 ∧
          ((g.waits wait).returned = true ∨ g.stage (g.waits wait).thread = some (wait, .past)))

/-- A call released these of the waits it found, and the rest is still on the list. -/
structure Working (lockOf : Nat → Nat) (g : Ledger) (thread lock : Nat) (call : Nat) : Prop where
  known : call < g.callCnt
  thread : (g.calls call).thread = thread
  lock : lock = lockOf (g.calls call).cond
  going : (g.calls call).done = false
  rest : (g.calls call).found = (g.calls call).released ++ g.waiters (g.calls call).cond

structure Booked (lockOf : Nat → Nat) (g : Ledger) : Prop where
  listed : ∀ cond, ∀ wait ∈ g.waiters cond,
    wait < g.waitCnt ∧ (g.waits wait).cond = cond ∧ (g.waits wait).releasedBy = none
  distinct : ∀ cond, (g.waiters cond).Nodup
  waiting : ∀ wait < g.waitCnt, (g.waits wait).releasedBy = none → wait ∈ g.waiters (g.waits wait).cond
  released : ∀ wait < g.waitCnt, ∀ call, (g.waits wait).releasedBy = some call →
    call < g.callCnt ∧ (g.calls call).cond = (g.waits wait).cond ∧
      (g.waits wait).queuedAt < (g.calls call).issuedAt ∧ wait ∈ (g.calls call).released
  raised : ∀ wait < g.waitCnt, (g.waits wait).raised = true → (g.waits wait).releasedBy ≠ none
  owned : ∀ call < g.callCnt, ∀ wait ∈ (g.calls call).released,
    wait < g.waitCnt ∧ (g.waits wait).releasedBy = some call
  single : ∀ call < g.callCnt, (g.calls call).broadcast = false → (g.calls call).released.length ≤ 1
  looping : ∀ thread lock call, g.duty thread = some (lock, .looping call) →
    Working lockOf g thread lock call ∧ (g.calls call).broadcast = true ∧
      ∀ wait ∈ (g.calls call).released, (g.waits wait).raised = true
  signalling : ∀ thread lock call wait, g.duty thread = some (lock, .signalling call wait) →
    Working lockOf g thread lock call ∧ wait ∈ (g.calls call).released ∧ (g.waits wait).raised = false ∧
      ((g.calls call).broadcast = false → (g.calls call).released = [wait]) ∧
      ∀ other ∈ (g.calls call).released, other ≠ wait → (g.waits other).raised = true
  done : ∀ call < g.callCnt, (g.calls call).done = true →
    (g.calls call).released = (if (g.calls call).broadcast then (g.calls call).found else (g.calls call).found.take 1) ∧
      ∀ wait ∈ (g.calls call).released, (g.waits wait).raised = true
  past : ∀ wait < g.waitCnt, (g.waits wait).queuedAt < g.clock
  found : ∀ call < g.callCnt, ∀ wait ∈ (g.calls call).found,
    wait < g.waitCnt ∧ (g.waits wait).queuedAt < (g.calls call).issuedAt

namespace Ledger
variable (g : Ledger) (thread : Nat)

def setStage (stage : Option (Nat × Stage)) : Ledger :=
  { g with stage := fun other => if other = thread then stage else g.stage other }

def setDuty (duty : Option (Nat × Duty)) : Ledger :=
  { g with duty := fun other => if other = thread then duty else g.duty other }

def setWait (wait : Nat) (value : Wait) : Ledger :=
  { g with waits := fun other => if other = wait then value else g.waits other }

def setCall (call : Nat) (value : Call) : Ledger :=
  { g with calls := fun other => if other = call then value else g.calls other }

def setWaiters (cond : Nat) (value : List Nat) : Ledger :=
  { g with waiters := fun other => if other = cond then value else g.waiters other }

def tick : Ledger := { g with clock := g.clock + 1 }

def newCall : Ledger := { g with callCnt := g.callCnt + 1 }

theorem setStage_same {g : Ledger} {thread : Nat} {stage : Option (Nat × Stage)} (same : g.stage thread = stage) :
    g.setStage thread stage = g := by
  have stages : (fun other => if other = thread then stage else g.stage other) = g.stage := by
    funext other
    split <;> rename_i mine
    · rw [mine, same]
    · rfl
  rw [setStage, stages]

theorem setDuty_same {g : Ledger} {thread : Nat} {duty : Option (Nat × Duty)} (same : g.duty thread = duty) :
    g.setDuty thread duty = g := by
  have duties : (fun other => if other = thread then duty else g.duty other) = g.duty := by
    funext other
    split <;> rename_i mine
    · rw [mine, same]
    · rfl
  rw [setDuty, duties]

theorem setCall_setCall (call : Nat) (first second : Call) :
    (g.setCall call first).setCall call second = g.setCall call second := by
  have calls : (fun other => if other = call then second else if other = call then first else g.calls other) =
      fun other => if other = call then second else g.calls other := by
    funext other
    split <;> rfl
  simp only [setCall, calls]

theorem setDuty_setDuty (first second : Option (Nat × Duty)) :
    (g.setDuty thread first).setDuty thread second = g.setDuty thread second := by
  have duties : (fun other => if other = thread then second else if other = thread then first else g.duty other) =
      fun other => if other = thread then second else g.duty other := by
    funext other
    split <;> rfl
  simp only [setDuty, duties]

def enqueue (cond : Nat) : Ledger :=
  { ((g.setWait g.waitCnt ⟨thread, cond, Semaphore.init 0, g.clock, none, false, false⟩).setWaiters cond
      (g.waiters cond ++ [g.waitCnt])).setStage thread (some (g.waitCnt, .before)) with waitCnt := g.waitCnt + 1 }

def pop (lock call wait : Nat) (rest : List Nat) (record : Call) : Ledger :=
  (((g.setWaiters record.cond rest).setWait wait { g.waits wait with releasedBy := some call }).setCall call
    { record with released := record.released ++ [wait] }).setDuty thread (some (lock, .signalling call wait))

def finish (call : Nat) : Ledger := (g.setCall call { g.calls call with done := true }).setDuty thread none

/-- The semaphore of the wait is raised, and its thread is up again if it slept. -/
def raise (wait : Nat) : Ledger :=
  let next := g.setWait wait { g.waits wait with sema := (g.waits wait).sema.up.1, raised := true }
  match (g.waits wait).sema.waiters with
  | [] => next
  | first :: _ => next.setStage first (some (wait, .before))

theorem raise_waits (wait : Nat) : (g.raise wait).waits =
    fun other => if other = wait then { g.waits wait with sema := (g.waits wait).sema.up.1, raised := true }
      else g.waits other := by
  unfold raise
  split <;> rfl

theorem raise_others (wait : Nat) : (g.raise wait).duty = g.duty ∧ (g.raise wait).waiters = g.waiters ∧
    (g.raise wait).waitCnt = g.waitCnt ∧ (g.raise wait).calls = g.calls ∧ (g.raise wait).callCnt = g.callCnt ∧
      (g.raise wait).clock = g.clock := by
  unfold raise
  split <;> exact ⟨rfl, rfl, rfl, rfl, rfl, rfl⟩

theorem pop_setCall (lock call wait : Nat) (rest : List Nat) (record first : Call) :
    (g.setCall call first).pop thread lock call wait rest record = g.pop thread lock call wait rest record :=
  congrArg (fun next : Ledger => next.setDuty thread (some (lock, .signalling call wait)))
    (setCall_setCall ((g.setWaiters record.cond rest).setWait wait { g.waits wait with releasedBy := some call }) call first _)

def takeUnit (wait : Nat) : Ledger :=
  (g.setWait wait { g.waits wait with
    sema := { (g.waits wait).sema with value := (g.waits wait).sema.value - 1 } }).setStage thread (some (wait, .past))

def fallAsleep (wait : Nat) : Ledger :=
  (g.setWait wait { g.waits wait with
    sema := { (g.waits wait).sema with waiters := (g.waits wait).sema.waiters ++ [thread] } }).setStage thread
      (some (wait, .asleep))

def leave (wait : Nat) : Ledger := (g.setWait wait { g.waits wait with returned := true }).setStage thread none

end Ledger

section Stages
variable {g : Ledger} {thread wait : Nat} (staged : Staged g)
include staged

theorem Staged.congr {h : Ledger} (stages : h.stage = g.stage) (counts : h.waitCnt = g.waitCnt)
    (same : ∀ wait, (h.waits wait).thread = (g.waits wait).thread ∧ (h.waits wait).sema = (g.waits wait).sema ∧
      (h.waits wait).raised = (g.waits wait).raised ∧ (h.waits wait).returned = (g.waits wait).returned) : Staged h := by
  obtain ⟨stage, resting, raised⟩ := staged
  constructor <;> simp only [stages, counts, same]
  · exact stage
  · exact resting
  · exact raised

theorem Staged.enqueue (outside : g.stage thread = none) (cond : Nat) : Staged (g.enqueue thread cond) := by
  obtain ⟨stage, resting, raised⟩ := staged
  constructor <;> simp only [Ledger.enqueue, Ledger.setWait, Ledger.setWaiters, Ledger.setStage]
  · grind
  · grind [Semaphore.init]
  · grind

theorem Staged.takeUnit (here : g.stage thread = some (wait, .before))
    (free : (g.waits wait).sema.value ≠ 0) : Staged (g.takeUnit thread wait) := by
  obtain ⟨stage, resting, raised⟩ := staged
  have mine := stage thread wait .before here
  have one : (g.waits wait).raised = true ∧ (g.waits wait).sema.value = 1 := by grind
  have zero : (1 : UInt32) - 1 = 0 := rfl
  constructor <;> simp only [Ledger.takeUnit, Ledger.setWait, Ledger.setStage]
  · grind
  · grind
  · grind

theorem Staged.fallAsleep (here : g.stage thread = some (wait, .before))
    (zero : (g.waits wait).sema.value = 0) : Staged (g.fallAsleep thread wait) := by
  obtain ⟨stage, resting, raised⟩ := staged
  have mine := stage thread wait .before here
  have down : (g.waits wait).raised = false ∧ (g.waits wait).sema.waiters = [] := by grind
  constructor <;> simp only [Ledger.fallAsleep, Ledger.setWait, Ledger.setStage]
  · grind
  · grind
  · grind

theorem Staged.leave (here : g.stage thread = some (wait, .past)) : Staged (g.leave thread wait) := by
  obtain ⟨stage, resting, raised⟩ := staged
  have mine := stage thread wait .past here
  constructor <;> simp only [Ledger.leave, Ledger.setWait, Ledger.setStage]
  · grind
  · grind
  · grind

theorem Staged.raise (known : wait < g.waitCnt) (down : (g.waits wait).raised = false) : Staged (g.raise wait) := by
  obtain ⟨stage, resting, raised⟩ := staged
  obtain ⟨open', zero, place⟩ := resting wait known down
  have one : (0 : UInt32) + 1 = 1 := rfl
  unfold Ledger.raise
  obtain ⟨here, waiters⟩ | ⟨here, waiters⟩ := place
  · constructor <;> simp only [waiters, Ledger.setWait, Semaphore.up]
    · grind
    · grind
    · grind
  · constructor <;> simp only [waiters, Ledger.setWait, Ledger.setStage, Semaphore.up]
    · grind
    · grind
    · grind

theorem Staged.raise_outside (known : wait < g.waitCnt) (down : (g.waits wait).raised = false)
    (outside : g.stage thread = none) : (g.raise wait).stage thread = none := by
  unfold Ledger.raise
  obtain ⟨-, -, ⟨-, waiters⟩ | ⟨here, waiters⟩⟩ := staged.resting wait known down
  · simp only [waiters]
    exact outside
  · have apart : thread ≠ (g.waits wait).thread := by
      rintro rfl
      simp [here] at outside
    simp only [waiters, Ledger.setStage, if_neg apart]
    exact outside

end Stages

section Books
variable {lockOf : Nat → Nat} {g : Ledger} {thread : Nat}

theorem Working.keep {h : Ledger} {lock call : Nat} (working : Working lockOf g thread lock call)
    (record : h.calls call = g.calls call) (list : h.waiters (g.calls call).cond = g.waiters (g.calls call).cond)
    (grows : g.callCnt ≤ h.callCnt) : Working lockOf h thread lock call := by
  refine ⟨Nat.lt_of_lt_of_le working.known grows, ?_, ?_, ?_, ?_⟩ <;> rw [record]
  · exact working.thread
  · exact working.lock
  · exact working.going
  · rw [list]
    exact working.rest

theorem Booked.congr {h : Ledger} (booked : Booked lockOf g) (duties : h.duty = g.duty) (lists : h.waiters = g.waiters)
    (waitCnt : h.waitCnt = g.waitCnt) (calls : h.calls = g.calls) (callCnt : h.callCnt = g.callCnt)
    (clock : h.clock = g.clock)
    (same : ∀ wait, (h.waits wait).cond = (g.waits wait).cond ∧ (h.waits wait).queuedAt = (g.waits wait).queuedAt ∧
      (h.waits wait).releasedBy = (g.waits wait).releasedBy ∧ (h.waits wait).raised = (g.waits wait).raised) :
    Booked lockOf h := by
  have works (thread lock call : Nat) (working : Working lockOf g thread lock call) : Working lockOf h thread lock call :=
    working.keep (by rw [calls]) (by rw [lists]) (Nat.le_of_eq callCnt.symm)
  obtain ⟨listed, distinct, waiting, released, raised, owned, single, looping, signalling, done, past, found⟩ := booked
  constructor <;> simp only [duties, lists, waitCnt, calls, callCnt, clock, same]
  case looping => exact fun thread lock call here => (looping thread lock call here).imp (works _ _ _) id
  case signalling =>
    exact fun thread lock call wait here => (signalling thread lock call wait here).imp (works _ _ _) id
  all_goals assumption

/-- The books do not depend on the semaphore of a wait, nor on how far its thread has come. -/
theorem Booked.setWait (booked : Booked lockOf g) (wait : Nat) (value : Wait) (stage : Option (Nat × Stage))
    (same : value.cond = (g.waits wait).cond ∧ value.queuedAt = (g.waits wait).queuedAt ∧
      value.releasedBy = (g.waits wait).releasedBy ∧ value.raised = (g.waits wait).raised) :
    Booked lockOf ((g.setWait wait value).setStage thread stage) := by
  refine booked.congr rfl rfl rfl rfl rfl rfl fun other => ?_
  simp only [Ledger.setWait, Ledger.setStage]
  split <;> rename_i mine
  · rw [mine]
    exact same
  · exact ⟨rfl, rfl, rfl, rfl⟩

theorem Booked.tick (booked : Booked lockOf g) : Booked lockOf g.tick := by
  have works (thread lock call : Nat) (working : Working lockOf g thread lock call) :
      Working lockOf g.tick thread lock call := working.keep rfl rfl (Nat.le_refl _)
  refine { booked with
    looping := fun thread lock call here => (booked.looping thread lock call here).imp (works _ _ _) id
    signalling := fun thread lock call wait here => (booked.signalling thread lock call wait here).imp (works _ _ _) id
    past := fun wait inside => ?_ }
  have earlier := booked.past wait inside
  show (g.waits wait).queuedAt < g.clock + 1
  omega

def Alone (g : Ledger) (thread lock : Nat) : Prop :=
  ∀ other duty, g.duty other = some (lock, duty) → other = thread

/-- A wait is put on the list while no call is at work on it. -/
theorem Booked.enqueue (booked : Booked lockOf g) {cond : Nat} (idle : g.duty thread = none)
    (alone : Alone g thread (lockOf cond)) : Booked lockOf (g.enqueue thread cond).tick := by
  have elsewhere {other lock call : Nat} {duty : Duty} (here : g.duty other = some (lock, duty))
      (working : Working lockOf g other lock call) : (g.calls call).cond ≠ cond := by
    intro same
    have lock' := working.lock
    rw [same] at lock'
    subst lock'
    have mine := alone other duty here
    simp [mine, idle] at here
  have works {other lock call : Nat} {duty : Duty} (here : g.duty other = some (lock, duty))
      (working : Working lockOf g other lock call) : Working lockOf (g.enqueue thread cond).tick other lock call :=
    working.keep rfl (if_neg (elsewhere here working)) (Nat.le_refl _)
  have old (call wait : Nat) (known : call < g.callCnt) (inside : wait ∈ (g.calls call).released) : wait ≠ g.waitCnt :=
    Nat.ne_of_lt (booked.owned call known wait inside).1
  constructor
  case looping =>
    intro other lock call here
    obtain ⟨working, broadcast, raised⟩ := booked.looping other lock call here
    refine ⟨works here working, broadcast, fun wait inside => ?_⟩
    simp only [Ledger.enqueue, Ledger.tick, Ledger.setWait, Ledger.setWaiters, Ledger.setStage,
      if_neg (old call wait working.known inside), raised wait inside]
  case signalling =>
    intro other lock call wait here
    obtain ⟨working, pending, down, single, raised⟩ := booked.signalling other lock call wait here
    have same (wait : Nat) (inside : wait ∈ (g.calls call).released) :
        ((g.enqueue thread cond).tick.waits wait) = g.waits wait := if_neg (old call wait working.known inside)
    refine ⟨works here working, pending, ?_, single, fun other inside apart => ?_⟩
    · rw [same wait pending, down]
    · rw [same other inside, raised other inside apart]
  all_goals simp only [Ledger.enqueue, Ledger.tick, Ledger.setWait, Ledger.setWaiters, Ledger.setStage]
  case listed =>
    have listed := booked.listed
    grind
  case distinct =>
    have listed := booked.listed
    have distinct := booked.distinct
    grind
  case waiting =>
    have waiting := booked.waiting
    grind
  case released =>
    have released := booked.released
    grind
  case raised =>
    have raised := booked.raised
    grind
  case owned =>
    have owned := booked.owned
    grind
  case single => exact booked.single
  case done =>
    have done := booked.done
    grind
  case past =>
    have past := booked.past
    grind
  case found =>
    have found := booked.found
    grind

/-- A call is issued: it finds the list as it is. -/
theorem Booked.opened (booked : Booked lockOf g) (cond : Nat) (broadcast : Bool) :
    Booked lockOf (g.setCall g.callCnt ⟨thread, cond, broadcast, g.clock, g.waiters cond, [], false⟩).newCall := by
  have old {call : Nat} (known : call < g.callCnt) : call ≠ g.callCnt := Nat.ne_of_lt known
  constructor
  case looping =>
    intro other lock call here
    obtain ⟨working, rest⟩ := booked.looping other lock call here
    refine ⟨working.keep (if_neg (old working.known)) rfl (Nat.le_succ _), ?_⟩
    simp only [Ledger.setCall, Ledger.newCall, if_neg (old working.known)]
    exact rest
  case signalling =>
    intro other lock call wait here
    obtain ⟨working, rest⟩ := booked.signalling other lock call wait here
    refine ⟨working.keep (if_neg (old working.known)) rfl (Nat.le_succ _), ?_⟩
    simp only [Ledger.setCall, Ledger.newCall, if_neg (old working.known)]
    exact rest
  all_goals simp only [Ledger.setCall, Ledger.newCall]
  case listed => exact booked.listed
  case distinct => exact booked.distinct
  case waiting => exact booked.waiting
  case released =>
    have released := booked.released
    grind
  case raised => exact booked.raised
  case owned =>
    have owned := booked.owned
    grind
  case single =>
    have single := booked.single
    grind
  case done =>
    have done := booked.done
    grind
  case past => exact booked.past
  case found =>
    have found := booked.found
    have listed := booked.listed cond
    have past := booked.past
    grind

theorem Working.opened {cond : Nat} {broadcast : Bool} : Working lockOf
    (g.setCall g.callCnt ⟨thread, cond, broadcast, g.clock, g.waiters cond, [], false⟩).newCall
      thread (lockOf cond) g.callCnt := by
  refine ⟨Nat.lt_succ_self _, ?_, ?_, ?_, ?_⟩ <;> simp only [Ledger.setCall, Ledger.newCall, if_true, List.nil_append]

theorem Booked.loop (booked : Booked lockOf g) {lock call : Nat} (working : Working lockOf g thread lock call)
    (broadcast : (g.calls call).broadcast = true)
    (raised : ∀ wait ∈ (g.calls call).released, (g.waits wait).raised = true) :
    Booked lockOf (g.setDuty thread (some (lock, .looping call))) := by
  have works {other lock call : Nat} (theirs : Working lockOf g other lock call) (duty : Option (Nat × Duty)) :
      Working lockOf (g.setDuty thread duty) other lock call := theirs.keep rfl rfl (Nat.le_refl _)
  refine { booked with looping := fun other lock' call' here => ?_, signalling := fun other lock' call' wait here => ?_ }
  · by_cases mine : other = thread
    · simp only [Ledger.setDuty, if_pos mine, Option.some.injEq, Prod.mk.injEq, Duty.looping.injEq] at here
      obtain ⟨rfl, rfl⟩ := here
      subst mine
      exact ⟨works working _, broadcast, raised⟩
    · simp only [Ledger.setDuty, if_neg mine] at here
      exact (booked.looping other lock' call' here).imp (fun theirs => works theirs _) id
  · by_cases mine : other = thread
    · simp [Ledger.setDuty, mine] at here
    · simp only [Ledger.setDuty, if_neg mine] at here
      exact (booked.signalling other lock' call' wait here).imp (fun theirs => works theirs _) id

theorem Booked.finish (booked : Booked lockOf g) {lock call : Nat} (working : Working lockOf g thread lock call)
    (all : (g.calls call).released = if (g.calls call).broadcast then (g.calls call).found else (g.calls call).found.take 1)
    (raised : ∀ wait ∈ (g.calls call).released, (g.waits wait).raised = true) :
    Booked lockOf (g.finish thread call) := by
  have apart {other lock' call' : Nat} (theirs : Working lockOf g other lock' call') (mine : other ≠ thread) :
      call' ≠ call := by
    rintro rfl
    exact mine (theirs.thread.symm.trans working.thread)
  constructor
  case looping =>
    intro other lock' call' here
    by_cases mine : other = thread
    · simp [Ledger.finish, Ledger.setDuty, mine] at here
    · simp only [Ledger.finish, Ledger.setDuty, if_neg mine] at here
      obtain ⟨theirs, rest⟩ := booked.looping other lock' call' here
      refine ⟨theirs.keep (if_neg (apart theirs mine)) rfl (Nat.le_refl _), ?_⟩
      simp only [Ledger.finish, Ledger.setCall, Ledger.setDuty, if_neg (apart theirs mine)]
      exact rest
  case signalling =>
    intro other lock' call' wait here
    by_cases mine : other = thread
    · simp [Ledger.finish, Ledger.setDuty, mine] at here
    · simp only [Ledger.finish, Ledger.setDuty, if_neg mine] at here
      obtain ⟨theirs, rest⟩ := booked.signalling other lock' call' wait here
      refine ⟨theirs.keep (if_neg (apart theirs mine)) rfl (Nat.le_refl _), ?_⟩
      simp only [Ledger.finish, Ledger.setCall, Ledger.setDuty, if_neg (apart theirs mine)]
      exact rest
  all_goals simp only [Ledger.finish, Ledger.setCall, Ledger.setDuty]
  case listed => exact booked.listed
  case distinct => exact booked.distinct
  case waiting => exact booked.waiting
  case released =>
    have released := booked.released
    grind
  case raised => exact booked.raised
  case owned =>
    have owned := booked.owned
    grind
  case single =>
    have single := booked.single
    grind
  case done =>
    have done := booked.done
    grind
  case past => exact booked.past
  case found =>
    have found := booked.found
    grind

/-- A call takes the first wait off the list, which no other call is at work on. -/
theorem Booked.pop (booked : Booked lockOf g) {lock call wait : Nat} {rest : List Nat}
    (working : Working lockOf g thread lock call) (waiters : g.waiters (g.calls call).cond = wait :: rest)
    (alone : Alone g thread lock) (single : (g.calls call).broadcast = false → (g.calls call).released = [])
    (raised : ∀ wait ∈ (g.calls call).released, (g.waits wait).raised = true) :
    Booked lockOf (g.pop thread lock call wait rest (g.calls call)) := by
  obtain ⟨known, mine, rfl, going, whole⟩ := working
  have first := booked.listed (g.calls call).cond wait (by simp [waiters])
  have once := booked.distinct (g.calls call).cond
  rw [waiters] at once whole
  have down : (g.waits wait).raised = false := by
    have up := booked.raised wait first.1
    grind
  have theirs {other lock' call' : Nat} {duty : Duty} (here : g.duty other = some (lock', duty)) (apart : other ≠ thread)
      (working : Working lockOf g other lock' call') :
      call' ≠ call ∧ Working lockOf (g.pop thread (lockOf (g.calls call).cond) call wait rest (g.calls call)) other lock' call' := by
    have different : call' ≠ call := by
      rintro rfl
      exact apart (working.thread.symm.trans mine)
    refine ⟨different, working.keep (if_neg different) (if_neg fun same => ?_) (Nat.le_refl _)⟩
    have lock := working.lock
    rw [same] at lock
    subst lock
    exact apart (alone other duty here)
  constructor
  case looping =>
    intro other lock' call' here
    by_cases same : other = thread
    · simp [Ledger.pop, Ledger.setDuty, same] at here
    · simp only [Ledger.pop, Ledger.setDuty, if_neg same] at here
      obtain ⟨working, broadcast, all⟩ := booked.looping other lock' call' here
      obtain ⟨different, works⟩ := theirs here same working
      refine ⟨works, ?_⟩
      simp only [Ledger.pop, Ledger.setCall, Ledger.setWaiters, Ledger.setWait, Ledger.setDuty, if_neg different]
      grind
  case signalling =>
    intro other lock' call' pending here
    by_cases same : other = thread
    · simp only [Ledger.pop, Ledger.setDuty, if_pos same, Option.some.injEq, Prod.mk.injEq, Duty.signalling.injEq] at here
      obtain ⟨rfl, rfl, rfl⟩ := here
      subst same
      have new : (g.calls call).released ++ wait :: rest = (g.calls call).released ++ [wait] ++ rest := by simp
      refine ⟨⟨known, ?_, ?_, ?_, ?_⟩, ?_⟩ <;>
        simp only [Ledger.pop, Ledger.setCall, Ledger.setWaiters, Ledger.setWait, Ledger.setDuty, if_true]
      · exact mine
      · exact going
      · exact whole.trans new
      · grind
    · simp only [Ledger.pop, Ledger.setDuty, if_neg same] at here
      obtain ⟨working, all⟩ := booked.signalling other lock' call' pending here
      obtain ⟨different, works⟩ := theirs here same working
      refine ⟨works, ?_⟩
      simp only [Ledger.pop, Ledger.setCall, Ledger.setWaiters, Ledger.setWait, Ledger.setDuty, if_neg different]
      grind
  all_goals simp only [Ledger.pop, Ledger.setCall, Ledger.setWaiters, Ledger.setWait, Ledger.setDuty]
  case listed =>
    have listed := booked.listed
    grind
  case distinct =>
    have distinct := booked.distinct
    grind
  case waiting =>
    have waiting := booked.waiting
    grind
  case released =>
    have released := booked.released
    have earlier := (booked.found call known wait (by simp [whole])).2
    grind
  case raised =>
    have raised := booked.raised
    grind
  case owned =>
    have owned := booked.owned
    grind
  case single =>
    have single := booked.single
    grind
  case done =>
    have done := booked.done
    grind
  case past =>
    have past := booked.past
    grind
  case found =>
    have found := booked.found
    grind

theorem Working.raise {lock call : Nat} (working : Working lockOf g thread lock call) (wait : Nat) (duty : Option (Nat × Duty)) :
    Working lockOf ((g.raise wait).setDuty thread duty) thread lock call := by
  obtain ⟨-, lists, -, calls, callCnt, -⟩ := g.raise_others wait
  exact working.keep (congrFun calls call) (congrFun lists _) (Nat.le_of_eq callCnt.symm)

theorem Booked.raise (booked : Booked lockOf g) {lock call wait : Nat}
    (here : g.duty thread = some (lock, .signalling call wait)) : Booked lockOf ((g.raise wait).setDuty thread none) := by
  obtain ⟨working, pending, down, single, others⟩ := booked.signalling thread lock call wait here
  have known := booked.owned call working.known wait pending
  have duties : ((g.raise wait).setDuty thread none).duty = fun other => if other = thread then none else g.duty other := by
    rw [Ledger.setDuty, (g.raise_others wait).1]
  have waits : ((g.raise wait).setDuty thread none).waits = _ := g.raise_waits wait
  have fields : ((g.raise wait).setDuty thread none).waiters = _ ∧ ((g.raise wait).setDuty thread none).waitCnt = _ ∧
      ((g.raise wait).setDuty thread none).calls = _ ∧ ((g.raise wait).setDuty thread none).callCnt = _ ∧
        ((g.raise wait).setDuty thread none).clock = _ := (g.raise_others wait).2
  obtain ⟨lists, waitCnt, calls, callCnt, clock⟩ := fields
  have works {other lock call : Nat} (theirs : Working lockOf g other lock call) :
      Working lockOf ((g.raise wait).setDuty thread none) other lock call :=
    theirs.keep (congrFun calls call) (congrFun lists _) (Nat.le_of_eq callCnt.symm)
  constructor <;> simp only [duties, waits, lists, waitCnt, calls, callCnt, clock]
  case looping =>
    intro other lock' call' there
    by_cases same : other = thread
    · simp [same] at there
    · rw [if_neg same] at there
      obtain ⟨theirs, rest⟩ := booked.looping other lock' call' there
      refine ⟨works theirs, ?_⟩
      grind
  case signalling =>
    intro other lock' call' wait' there
    by_cases same : other = thread
    · simp [same] at there
    · rw [if_neg same] at there
      obtain ⟨theirs, inside, rest⟩ := booked.signalling other lock' call' wait' there
      -- the wait belongs to one call, and the call to one thread
      have apart : wait' ≠ wait := by
        rintro rfl
        have two := (booked.owned call' theirs.known wait' inside).2
        have calls : call' = call := Option.some.inj (two.symm.trans known.2)
        subst calls
        exact same (theirs.thread.symm.trans working.thread)
      refine ⟨works theirs, inside, ?_⟩
      grind
  case listed =>
    have listed := booked.listed
    grind
  case distinct => exact booked.distinct
  case waiting =>
    have waiting := booked.waiting
    grind
  case released =>
    have released := booked.released
    grind
  case raised =>
    have raised := booked.raised
    grind
  case owned =>
    have owned := booked.owned
    grind
  case single => exact booked.single
  case done =>
    have done := booked.done
    grind
  case past =>
    have past := booked.past
    grind
  case found =>
    have found := booked.found
    grind

end Books

end Pintos.Threads.Monitor
