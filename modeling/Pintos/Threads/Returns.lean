import Pintos.Threads.Releases

/-! What locks and condition variables promise their users.

A wait ends with the end of the `lock_acquire` in `cond_wait`, so that it ends
with the lock held. Together with the books this gives the contract of the
operations in every state of every run.
-/

set_option autoImplicit false

namespace Pintos.Threads.Monitor
open Semantics

section Returns
variable {lockOf : Nat → Nat} {s : System}

def Pc.errand : Pc → Option (Nat × Nat)
  | .queued lock wait | .releasing lock (some wait) | .waitDown lock wait | .waitAsleep lock wait
  | .waitAcquire lock wait | .down lock (some wait) | .asleep lock (some wait) | .owning lock (some wait) =>
    some (lock, wait)
  | _ => none

theorem woken_errand (pc : Pc) : pc.woken.errand = pc.errand := by
  cases pc with
  | asleep lock wait => cases wait <;> rfl
  | _ => rfl

/-- What a step of a thread leaves of the waits: threads stay in theirs or leave them, and a wait ends only with the
end of its `lock_acquire`. -/
structure Inside (s : System) (thread : Nat) (next : System) : Prop where
  errand : ∀ other, (next.pc other).errand = (s.pc other).errand ∨ (next.pc other).errand = none
  count : next.waitCnt = s.waitCnt
  same : ∀ wait, (next.waits wait).cond = (s.waits wait).cond ∧ (next.waits wait).thread = (s.waits wait).thread
  returned : ∀ wait, (next.waits wait).returned = true → (s.waits wait).returned = true ∨
    ∃ lock, s.pc thread = .owning lock (some wait)

namespace Inside
variable {thread : Nat} {next : System} (inside : Inside s thread next)
include inside

theorem setPc {other : Nat} {pc : Pc} (place : pc.errand = (next.pc other).errand ∨ pc.errand = none) :
    Inside s thread (next.setPc other pc) := by
  refine { inside with errand := fun third => ?_ }
  by_cases mine : third = other
  · simp only [System.setPc, mine, Function.update_self]
    obtain kept | left := place
    · rw [kept]
      exact inside.errand other
    · exact .inr left
  · simp only [System.setPc, Function.update_of_ne mine]
    exact inside.errand third

theorem setWait (wait : Nat) (value : Wait) (cond : value.cond = (next.waits wait).cond)
    (waiter : value.thread = (next.waits wait).thread)
    (finished : value.returned = (next.waits wait).returned ∨ ∃ lock, s.pc thread = .owning lock (some wait)) :
    Inside s thread (next.setWait wait value) := by
  refine { inside with same := fun other => ?_, returned := fun other returned => ?_ }
  · by_cases mine : other = wait
    · simp only [System.setWait, mine, Function.update_self, cond, waiter]
      exact inside.same wait
    · simp only [System.setWait, Function.update_of_ne mine]
      exact inside.same other
  · by_cases mine : other = wait
    · subst mine
      obtain kept | owning := finished
      · simp only [System.setWait, Function.update_self, kept] at returned
        exact inside.returned other returned
      · exact .inr owning
    · simp only [System.setWait, Function.update_of_ne mine] at returned
      exact inside.returned other returned

theorem setLock (lock : Nat) (value : Lock) : Inside s thread (next.setLock lock value) := { inside with }

theorem setHeld (other lock : Nat) (value : Bool) : Inside s thread (next.setHeld other lock value) := { inside with }

theorem setCall (call : Nat) (value : Call) : Inside s thread (next.setCall call value) := { inside with }

theorem setWaiters (cond : Nat) (value : List Nat) : Inside s thread (next.setWaiters cond value) := { inside with }

theorem wake (woken : Option Nat) : Inside s thread (next.wake woken) := by
  cases woken with
  | none => exact inside
  | some other => exact inside.setPc (.inl (woken_errand _))

end Inside

theorem Inside.refl (s : System) (thread : Nat) : Inside s thread s :=
  ⟨fun _ => .inl rfl, rfl, fun _ => ⟨rfl, rfl⟩, fun _ => .inl⟩

variable {thread : Nat} {next : System}

theorem popWaiter_inside {lock call wait : Nat} {rest : List Nat} {record : Call} :
    Inside s thread (popWaiter s thread lock call wait rest record) := by
  unfold popWaiter
  apply Inside.setPc
  · apply Inside.setCall
    exact ((Inside.refl s thread).setWaiters _ _).setWait wait _ rfl rfl (.inl rfl)
  · exact .inr rfl

theorem go_inside (taken : go s thread = some next) : Inside s thread next := by
  have start := Inside.refl s thread
  unfold go at taken
  split at taken <;> rename_i here
  all_goals try (cases taken; done)
  case h_4 lock =>
    cases taken
    unfold goTrying
    split
    · exact (start.setLock _ _).setPc (.inr rfl)
    · exact start.setPc (.inr rfl)
  case h_5 lock wait =>
    cases taken
    have place : (s.pc thread).errand = (Pc.down lock wait).errand := by rw [here]
    unfold goDown
    split
    · exact (start.setLock _ _).setPc (.inl (by rw [setLock_pc, place]; cases wait <;> rfl))
    · exact (start.setLock _ _).setPc (.inl (by rw [setLock_pc, place]; cases wait <;> rfl))
  case h_6 lock wait =>
    cases taken
    have left := ((start.setLock lock { s.locks lock with holder := some thread }).setHeld thread lock true).setPc
      (show Pc.idle.errand = (s.pc thread).errand ∨ Pc.idle.errand = none from .inr rfl)
    cases wait with
    | none => exact left
    | some wait => exact left.setWait _ _ rfl rfl (.inr ⟨lock, here⟩)
  case h_7 lock wait =>
    cases taken
    unfold goReleasing
    cases wait with
    | none => exact ((start.setPc (.inr rfl)).setLock _ _).wake _
    | some wait => exact ((start.setPc (.inl (by rw [here]; rfl))).setLock _ _).wake _
  case h_8 lock wait =>
    unfold lockRelease at taken
    split at taken
    · cases taken
      exact ((start.setLock _ _).setHeld _ _ _).setPc (.inl (congrArg Pc.errand here).symm)
    · cases taken
  case h_9 lock wait =>
    cases taken
    unfold goWaitDown
    split
    · apply Inside.setPc
      · exact start.setWait wait _ rfl rfl (.inl rfl)
      · exact .inl (by rw [setWait_pc, here]; rfl)
    · apply Inside.setPc
      · exact start.setWait wait _ rfl rfl (.inl rfl)
      · exact .inl (by rw [setWait_pc, here]; rfl)
  case h_10 lock wait =>
    unfold lockAcquire at taken
    split at taken
    · cases taken
    · cases taken
      exact start.setPc (.inl (congrArg Pc.errand here).symm)
  case h_11 lock call =>
    unfold goLooping at taken
    split at taken
    · cases taken
      exact (start.setCall _ _).setPc (.inr rfl)
    · split at taken
      · cases taken
        exact popWaiter_inside
      · cases taken
  case h_12 lock call wait =>
    cases taken
    have raised := (start.setWait wait { s.waits wait with sema := (s.waits wait).sema.up.1, raised := true }
      rfl rfl (.inl rfl)).wake (s.waits wait).sema.up.2
    unfold goSignalling
    dsimp only
    split
    · exact raised.setPc (.inr rfl)
    · exact (raised.setCall _ _).setPc (.inr rfl)

def Routed (lockOf : Nat → Nat) (s : System) : Prop :=
  ∀ thread lock wait, (s.pc thread).errand = some (lock, wait) →
    wait < s.waitCnt ∧ lock = lockOf (s.waits wait).cond ∧ (s.waits wait).thread = thread

theorem Routed.inside (routed : Routed lockOf s) (inside : Inside s thread next) :
    Routed lockOf next := by
  intro other lock wait away
  obtain kept | left := inside.errand other
  · rw [inside.count, (inside.same wait).1, (inside.same wait).2]
    exact routed other lock wait (kept.symm.trans away)
  · rw [left] at away
    cases away

/-- Of the calls only `cond_wait` begins a wait, and none ends one. -/
theorem call_inside {op : Op} (taken : call lockOf s thread op = some next) :
    Inside s thread next ∨ ∃ cond, condWait s thread cond (lockOf cond) = some next := by
  have start := Inside.refl s thread
  have opened : Inside s thread { s with callCnt := s.callCnt + 1 } := { start with }
  cases op with
  | acquire lock =>
    simp only [call, lockAcquire] at taken
    split at taken
    · cases taken
    · cases taken
      exact .inl (start.setPc (.inr rfl))
  | tryAcquire lock =>
    simp only [call] at taken
    split at taken
    · cases taken
    · cases taken
      exact .inl (start.setPc (.inr rfl))
  | release lock =>
    simp only [call, lockRelease] at taken
    split at taken
    · cases taken
      exact .inl (((start.setLock _ _).setHeld _ _ _).setPc (.inr rfl))
    · cases taken
  | wait cond => exact .inr ⟨cond, taken⟩
  | signal cond =>
    simp only [call, condSignal] at taken
    split at taken
    · split at taken
      · cases taken
        exact .inl (opened.setCall _ _)
      · cases taken
        exact .inl { popWaiter_inside with }
    · cases taken
  | broadcast cond =>
    simp only [call, condBroadcast] at taken
    split at taken
    · cases taken
      exact .inl (opened.setCall _ _)
    · split at taken
      · cases taken
        exact .inl ((opened.setCall _ _).setPc (.inr rfl))
      · cases taken

theorem condWait_routed {cond : Nat} (routed : Routed lockOf s)
    (taken : condWait s thread cond (lockOf cond) = some next) :
    Routed lockOf next ∧ ∀ wait, (next.waits wait).returned = true → (s.waits wait).returned = true := by
  unfold condWait at taken
  split at taken
  · cases taken
    constructor
    · intro other lock wait away
      simp only [System.setPc, System.setHeld, System.setWaiters, System.setWait, Function.update_apply] at away ⊢
      by_cases mine : other = thread
      · rw [if_pos mine, Pc.errand, Option.some.injEq, Prod.mk.injEq] at away
        obtain ⟨rfl, rfl⟩ := away
        rw [if_pos rfl]
        exact ⟨Nat.lt_succ_self _, rfl, mine.symm⟩
      · rw [if_neg mine] at away
        obtain ⟨known, lock, waiter⟩ := routed other lock wait away
        rw [if_neg (Nat.ne_of_lt known)]
        exact ⟨Nat.lt_succ_of_lt known, lock, waiter⟩
    · intro wait returned
      simp only [System.setPc, System.setHeld, System.setWaiters, System.setWait, Function.update_apply] at returned
      split at returned
      · cases returned
      · exact returned
  · cases taken

theorem step_routed {event : Event} (routed : Routed lockOf s) (taken : step lockOf s event = some next) :
    Routed lockOf next ∧ ∀ wait, (next.waits wait).returned = true → (s.waits wait).returned = true ∨
      next.held (s.waits wait).thread (lockOf (s.waits wait).cond) = true := by
  cases event with
  | call thread op =>
    simp only [step] at taken
    split at taken <;> rename_i idle
    · obtain ⟨made, called, rfl⟩ := Option.map_eq_some_iff.mp taken
      obtain inside | ⟨cond, waits⟩ := call_inside called
      · refine ⟨routed.inside { inside with }, fun wait returned => ?_⟩
        obtain still | ⟨lock, here⟩ := inside.returned wait returned
        · exact .inl still
        · rw [idle] at here
          cases here
      · obtain ⟨routed, returned⟩ := condWait_routed routed waits
        exact ⟨routed, fun wait finished => .inl (returned wait finished)⟩
    · cases taken
  | go thread =>
    obtain ⟨made, went, rfl⟩ := Option.map_eq_some_iff.mp taken
    have inside := go_inside went
    refine ⟨routed.inside { inside with }, fun wait returned => ?_⟩
    obtain still | ⟨lock, here⟩ := inside.returned wait returned
    · exact .inl still
    · obtain ⟨-, rfl, waiter⟩ := routed thread lock wait (by rw [here]; rfl)
      rw [go, here] at went
      cases went
      rw [waiter]
      exact .inr (by simp [goOwning, System.setHeld, System.setPc, System.setWait])

theorem run_routed {events : List Event} {final : System} (ran : run (step lockOf) System.start events = some final) :
    Routed lockOf final :=
  invariant_of_reached (step lockOf) (Routed lockOf) (fun _ _ _ routed taken => (step_routed routed taken).1)
    (fun _ _ _ away => by cases away) ran

end Returns

/-- The thread can take a step: it is inside an operation, not asleep, and no assertion stops it. -/
theorem Sound.proceeds {lockOf : Nat → Nat} {s : System} (sound : Sound lockOf s) (thread : Nat) :
    (go s thread).isSome = true ∨ s.pc thread = .idle ∨ (∃ lock wait, s.pc thread = .asleep lock wait) ∨
      ∃ lock wait, s.pc thread = .waitAsleep lock wait := by
  have unheld (lock : Nat) (seeks : (s.pc thread).stance = some (lock, .seeking)) : (s.locks lock).holder ≠ some thread :=
    fun holds => sound.locked.seeks lock thread (.inl seeks) (sound.locked.holder lock thread holds)
  have used (lock : Nat) : (s.pc thread).stance = some (lock, .using) → (s.locks lock).holder = some thread :=
    sound.locked.used lock thread
  unfold go
  cases here : s.pc thread with
  | idle => exact .inr (.inl rfl)
  | asleep lock wait => exact .inr (.inr (.inl ⟨lock, wait, rfl⟩))
  | waitAsleep lock wait => exact .inr (.inr (.inr ⟨lock, wait, rfl⟩))
  | queued lock wait => exact .inl (by simp [lockRelease, used lock (by rw [here]; rfl)])
  | waitAcquire lock wait => exact .inl (by simp [lockAcquire, unheld lock (by rw [here]; rfl)])
  | looping lock call =>
    refine .inl ?_
    show (goLooping s thread lock call).isSome = true
    unfold goLooping
    split
    · rfl
    · rw [if_pos (used lock (by rw [here]; rfl))]
      rfl
  | _ => exact .inl rfl

structure Contract (lockOf : Nat → Nat) (s : System) : Prop where
  /-- At most one thread is between acquiring and releasing a lock, and `holder` names it. -/
  exclusive : ∀ lock thread other, s.held thread lock = true → s.held other lock = true → other = thread
  named : ∀ lock thread, s.held thread lock = true → (s.locks lock).holder = some thread
  /-- A wait that is over was released by a call issued after the wait was put on the list. -/
  matched : ∀ wait < s.waitCnt, (s.waits wait).returned = true → ∃ call < s.callCnt,
    (s.waits wait).releasedBy = some call ∧ (s.calls call).cond = (s.waits wait).cond ∧
      (s.waits wait).queuedAt < (s.calls call).issuedAt ∧ wait ∈ (s.calls call).released
  own : ∀ wait < s.waitCnt, ∀ other < s.waitCnt, ∀ call, (s.waits wait).releasedBy = some call →
    (s.waits other).releasedBy = some call → (s.calls call).broadcast = false → other = wait
  /-- The list of a condition variable has exactly the waits on it that no call has released. -/
  listed : ∀ cond wait, wait ∈ s.waiters cond ↔
    wait < s.waitCnt ∧ (s.waits wait).cond = cond ∧ (s.waits wait).releasedBy = none
  /-- A signal that is over released the first wait it found, a broadcast all it found. -/
  released : ∀ call < s.callCnt, (s.calls call).done = true → (s.calls call).released =
    if (s.calls call).broadcast then (s.calls call).found else (s.calls call).found.take 1
  /-- What a call that is over released has its unit or took it: it does not sleep. -/
  awake : ∀ call < s.callCnt, (s.calls call).done = true → ∀ wait ∈ (s.calls call).released,
    (s.waits wait).returned = true ∨ (s.pc (s.waits wait).thread).stage = some (wait, .past) ∨
      (s.pc (s.waits wait).thread).stage = some (wait, .before) ∧ (s.waits wait).sema.value = 1
  proceeds : ∀ thread, (go s thread).isSome = true ∨ s.pc thread = .idle ∨
    (∃ lock wait, s.pc thread = .asleep lock wait) ∨ ∃ lock wait, s.pc thread = .waitAsleep lock wait

theorem Sound.contract {lockOf : Nat → Nat} {s : System} (sound : Sound lockOf s) : Contract lockOf s := by
  have booked := sound.booked
  have named (lock thread : Nat) : s.held thread lock = true → (s.locks lock).holder = some thread :=
    sound.locked.held lock thread
  refine ⟨fun lock thread other mine theirs => ?_, named, fun wait known finished => ?_, ?_, fun cond wait => ?_,
    fun call known done => (booked.done call known done).1, fun call known done wait inside => ?_, sound.proceeds⟩
  · exact Option.some.inj ((named lock other theirs).symm.trans (named lock thread mine))
  · have raised : (s.waits wait).raised = true := by
      by_contra down
      have still := (sound.staged.resting wait known (by simpa using down)).1
      rw [ledger_waits, finished] at still
      cases still
    obtain ⟨call, by'⟩ := Option.ne_none_iff_exists'.mp (booked.raised wait known raised)
    obtain ⟨issued, cond, later, inside⟩ := booked.released wait known call by'
    exact ⟨call, issued, by', cond, later, inside⟩
  · intro wait known other known' call mine theirs signal
    obtain ⟨issued, -, -, inside⟩ := booked.released wait known call mine
    obtain ⟨-, -, -, inside'⟩ := booked.released other known' call theirs
    have single := booked.single call issued signal
    match list : (s.calls call).released with
    | [] => simp [list] at inside
    | [one] =>
      rw [ledger_calls, list, List.mem_singleton] at inside inside'
      rw [inside, inside']
    | one :: two :: rest => simp [list] at single
  · constructor
    · exact booked.listed cond wait
    · rintro ⟨known, rfl, waiting⟩
      exact booked.waiting wait known waiting
  · obtain ⟨-, raised⟩ := booked.done call known done
    obtain ⟨-, ⟨one, -, before⟩ | ⟨-, finished | past⟩⟩ :=
      sound.staged.raised wait (booked.owned call known wait inside).1 (raised wait inside)
    · exact .inr (.inr ⟨before, one⟩)
    · exact .inl finished
    · exact .inr (.inl past)

/-- In every run of locks and condition variables the contract holds in every state, and a wait that ends does so with
the lock held. -/
theorem monitor_contract (lockOf : Nat → Nat) (events : List Event) (final : System)
    (ran : run (step lockOf) System.start events = some final) :
    Contract lockOf final ∧ ∀ event next, step lockOf final event = some next → ∀ wait < final.waitCnt,
      (final.waits wait).returned = false → (next.waits wait).returned = true →
        next.held (final.waits wait).thread (lockOf (final.waits wait).cond) = true ∧
          (next.locks (lockOf (final.waits wait).cond)).holder = some (final.waits wait).thread := by
  have sound := run_sound ran
  refine ⟨sound.contract, fun event next taken wait known before after => ?_⟩
  obtain finished | holds := (step_routed (run_routed ran) taken).2 wait after
  · rw [before] at finished
    cases finished
  · exact ⟨holds, (step_sound sound taken).locked.held _ _ holds⟩

/-- Thread 1 signals between the `lock_release` of thread 0 and its sleep. -/
def signalledEarly : List Event :=
  [.call 0 (.acquire 0), .go 0, .go 0, .call 0 (.wait 0), .go 0, .go 0, .call 1 (.acquire 0), .go 1, .go 1,
    .call 1 (.signal 0), .go 1, .call 1 (.release 0), .go 1, .go 0, .go 0, .go 0]

theorem monitor_contract_signalled_early :
    ∃ final, run (step id) System.start signalledEarly = some final ∧ (final.waits 0).raised = true ∧ Contract id final ∧
      ∃ next, step id final (.go 0) = some next ∧ (next.waits 0).returned = true ∧ (next.locks 0).holder = some 0 := by
  have ends : (run (step id) System.start signalledEarly).any (fun final =>
      decide ((final.waits 0).raised = true ∧ final.waitCnt = 1 ∧ (final.waits 0).returned = false ∧
        (final.waits 0).thread = 0 ∧ (final.waits 0).cond = 0) &&
      (step id final (.go 0)).any fun next => (next.waits 0).returned) = true := by
    decide
  obtain ⟨final, ran, met⟩ := (Option.any_eq_true _ _).mp ends
  rw [Bool.and_eq_true, decide_eq_true_eq] at met
  obtain ⟨⟨raised, count, before, thread, cond⟩, steps⟩ := met
  obtain ⟨next, taken, after⟩ := (Option.any_eq_true _ _).mp steps
  obtain ⟨contract, returns⟩ := monitor_contract id signalledEarly final ran
  have holds := (returns (.go 0) next taken 0 (by omega) before after).2
  rw [thread, cond] at holds
  exact ⟨final, ran, raised, contract, next, taken, after, holds⟩

end Pintos.Threads.Monitor
