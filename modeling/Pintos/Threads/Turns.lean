import Pintos.Threads.Scheduling

/-! The turns of the threads, and what the scheduler keeps in every run.

`ready_list` is a queue: what `schedule` has chosen since some state, followed by
what is on the list now, begins with what was on the list then. A page is given
back only at the end of a switch away from the thread in it.
-/

set_option autoImplicit false

namespace Pintos.Threads.Scheduler
open Semantics

def Queued (s next : System) : Prop :=
  ∃ picks, next.chosen = s.chosen ++ picks ∧ s.readyList <+: picks ++ next.readyList

section Turns
variable {initial idle : Nat} {s next final : System}

theorem Queued.refl (s : System) : Queued s s := ⟨[], by simp, by simp⟩

theorem Queued.trans (first : Queued s next) (second : Queued next final) : Queued s final := by
  obtain ⟨picks, chosen, queue⟩ := first
  obtain ⟨later, chosen', queue'⟩ := second
  refine ⟨picks ++ later, by rw [chosen', chosen, List.append_assoc], ?_⟩
  rw [List.append_assoc]
  exact queue.trans (List.prefix_append_right_inj picks |>.mpr queue')

theorem Queued.pushed (chosen : next.chosen = s.chosen) {added : List Nat} (list : next.readyList = s.readyList ++ added) :
    Queued s next :=
  ⟨[], by simp [chosen], by simp [list]⟩

structure Onward (s next : System) : Prop where
  freed : next.freed = s.freed
  queued : Queued s next

theorem Onward.quiet (freed : next.freed = s.freed) (chosen : next.chosen = s.chosen)
    (list : next.readyList = s.readyList) : Onward s next :=
  ⟨freed, Queued.pushed chosen (by rw [list, List.append_nil])⟩

theorem Onward.trans (first : Onward s next) (second : Onward next final) : Onward s final :=
  ⟨second.freed.trans first.freed, first.queued.trans second.queued⟩

theorem Onward.after (second : Onward next final) (freed : next.freed = s.freed) (chosen : next.chosen = s.chosen)
    (list : next.readyList = s.readyList) : Onward s final :=
  (Onward.quiet freed chosen list).trans second

theorem schedule_onward (taken : schedule idle s = some next) : Onward s next := by
  unfold schedule nextThreadToRun at taken
  split at taken
  rename_i chosen rest shape
  split at taken
  · cases taken
  · cases taken
    refine ⟨rfl, [chosen], rfl, ?_⟩
    split at shape <;> rename_i list
    · rw [list]
      exact ⟨_, rfl⟩
    · cases shape
      rw [list]
      exact List.prefix_rfl

theorem threadUnblock_onward {thread : Nat} (taken : threadUnblock s thread = some next) : Onward s next := by
  unfold threadUnblock at taken
  split at taken
  · cases taken
    exact ⟨rfl, Queued.pushed rfl rfl⟩
  · cases taken

theorem threadBlock_onward (taken : threadBlock idle s = some next) : Onward s next := by
  unfold threadBlock at taken
  split at taken
  · exact (schedule_onward taken).after rfl rfl rfl
  · cases taken

theorem threadYield_onward (taken : threadYield idle s = some next) : Onward s next := by
  unfold threadYield at taken
  split at taken
  · dsimp only at taken
    split at taken
    · exact (schedule_onward taken).after rfl rfl rfl
    · have pushed : Onward s ({ s with readyList := s.readyList ++ [s.current] }.setStatus s.current (some .ready)) :=
        ⟨rfl, Queued.pushed rfl rfl⟩
      exact pushed.trans (schedule_onward taken)
  · cases taken

theorem perform_onward {event : Event} (calls : event ≠ .tail) (taken : perform initial idle s event = some next) :
    Onward s next := by
  cases event with
  | tail => exact absurd rfl calls
  | init page =>
    cases taken
    exact .quiet rfl rfl rfl
  | start thread =>
    simp only [perform, startThread] at taken
    exact (threadUnblock_onward taken).after rfl rfl rfl
  | yield => exact threadYield_onward taken
  | tick =>
    simp only [perform, threadTick] at taken
    split at taken
    · exact (threadYield_onward taken).after rfl rfl rfl
    · cases taken
      exact .quiet rfl rfl rfl
  | semaInit sema value =>
    cases taken
    exact .quiet rfl rfl rfl
  | down sema =>
    simp only [perform, semaDown] at taken
    split at taken
    · cases taken
      exact .quiet rfl rfl rfl
    · exact (threadBlock_onward taken).after rfl rfl rfl
  | tryDown sema =>
    cases taken
    exact .quiet rfl rfl rfl
  | up sema =>
    simp only [perform, semaUp] at taken
    split at taken
    · exact (threadUnblock_onward taken).after rfl rfl rfl
    · cases taken
      exact .quiet rfl rfl rfl
  | wait queue =>
    simp only [perform, intqWait] at taken
    exact (threadBlock_onward taken).after rfl rfl rfl
  | signal queue =>
    simp only [perform, intqSignal] at taken
    split at taken
    · exact (threadUnblock_onward taken).after rfl rfl rfl
    · cases taken
      exact .quiet rfl rfl rfl
  | idle => exact threadBlock_onward taken
  | exit =>
    simp only [perform, threadExit] at taken
    split at taken
    · exact (schedule_onward taken).after rfl rfl rfl
    · cases taken

/-- The end of a switch changes no list, and frees at most the page of the thread it came from. -/
theorem threadScheduleTail_freed {prev : Option Nat} (taken : threadScheduleTail initial s prev = some next) :
    Queued s next ∧ next.current = s.current ∧ ∀ thread, next.freed thread ≠ s.freed thread →
      s.status thread = some .dying ∧ thread ≠ s.current := by
  unfold threadScheduleTail at taken
  split at taken
  · cases taken
    exact ⟨Queued.pushed rfl (List.append_nil _).symm, rfl, fun _ changed => absurd rfl changed⟩
  · rename_i thread
    dsimp only at taken
    split at taken <;> rename_i dead
    · split at taken <;> rename_i apart
      · cases taken
      · cases taken
        refine ⟨Queued.pushed rfl (List.append_nil _).symm, rfl, fun other changed => ?_⟩
        obtain rfl : other = thread := by
          by_contra differs
          exact changed (if_neg differs)
        have same : (s.setStatus s.current (some .running)).status other = s.status other := if_neg apart
        exact ⟨same ▸ dead.1, apart⟩
    · cases taken
      exact ⟨Queued.pushed rfl (List.append_nil _).symm, rfl, fun _ changed => absurd rfl changed⟩

theorem threadScheduleTail_frees {thread : Nat} (dying : s.status thread = some .dying) (other : thread ≠ initial)
    (away : thread ≠ s.current) : ∃ next, threadScheduleTail initial s (some thread) = some next ∧
      next.freed thread = s.freed thread + 1 ∧ next.status thread = none := by
  have same : (s.setStatus s.current (some .running)).status thread = some .dying := (if_neg away).trans dying
  unfold threadScheduleTail
  dsimp only
  rw [if_pos ⟨same, other⟩]
  exact ⟨_, if_neg away, if_pos rfl, if_pos rfl⟩

theorem step_queued {event : Event} (taken : step initial idle s event = some next) : Queued s next := by
  unfold step at taken
  split at taken
  · by_cases last : event = .tail
    · subst last
      simp only [perform] at taken
      split at taken
      · exact (threadScheduleTail_freed taken).1
      · cases taken
    · exact (perform_onward last taken).queued
  · cases taken

theorem run_queued {events : List Event} (ran : run (step initial idle) s events = some next) : Queued s next :=
  invariant_of_reached (step initial idle) (Queued s) (fun _ _ _ before taken => before.trans (step_queued taken))
    (Queued.refl s) ran

/-- The thread at position `k` has the turn after `k` others. -/
theorem Queued.turn (queued : Queued s next) {k : Nat} (listed : k < s.readyList.length)
    (turns : s.chosen.length + k < next.chosen.length) : next.chosen[s.chosen.length + k]? = s.readyList[k]? := by
  obtain ⟨picks, chosen, added, queue⟩ := queued
  rw [chosen, List.length_append] at turns
  have picked : k < picks.length := by omega
  have same : picks[k]? = (picks ++ next.readyList)[k]? := (List.getElem?_append_left picked).symm
  rw [chosen, List.getElem?_append_right (by omega), Nat.add_sub_cancel_left, same, ← queue,
    List.getElem?_append_left listed]

end Turns

/-- What the scheduler keeps, in one state. A thread that was chosen is off `ready_list` before its switch is over. -/
structure Orderly (initial idle : Nat) (s : System) : Prop where
  running : ∀ thread, s.status thread = some .running ↔ thread = s.current ∧ s.prev = none
  ready : ∀ thread, thread ∈ s.readyList ↔
    s.status thread = some .ready ∧ thread ≠ idle ∧ (s.prev = none ∨ thread ≠ s.current)
  readyOnce : s.readyList.Nodup
  waiters : ∀ sema, ∀ thread ∈ (s.semas sema).waiters, s.status thread = some .blocked ∧ thread ∉ s.readyList ∧
    ∀ other, thread ∈ (s.semas other).waiters → other = sema
  waitersOnce : ∀ sema, (s.semas sema).waiters.Nodup
  dying : ∀ thread, s.status thread = some .dying → thread ∉ s.readyList ∧ thread ∉ s.allList ∧
    (∀ sema, thread ∉ (s.semas sema).waiters) ∧ thread ≠ s.current
  /-- The page of every thread but the initial one is given back as often as it was taken, once the thread is gone. -/
  pages : ∀ thread, thread ≠ initial → s.created thread = s.freed thread + if s.status thread = none then 0 else 1
  /-- The page of a thread that exited is freed in the next step. -/
  freed : ∀ thread, s.status thread = some .dying → thread ≠ initial → ∃ next,
    step initial idle s .tail = some next ∧ next.freed thread = s.freed thread + 1 ∧ next.status thread = none
  proceeds : ∀ event, Allowed idle s event → (step initial idle s event).isSome = true

theorem Scheduled.orderly {initial idle : Nat} {s : System} (scheduled : Scheduled initial idle s) :
    Orderly initial idle s := by
  obtain ⟨place, placed, running, away⟩ := id scheduled
  have inReady (thread : Nat) : thread ∈ s.readyList ↔ place thread = .ready := placed.lists.member .ready (by simp) thread
  have inSema (sema thread : Nat) : thread ∈ (s.semas sema).waiters ↔ place thread = .sema sema :=
    placed.lists.member (.sema sema) (by simp) thread
  have off (thread : Nat) (dying : s.status thread = some .dying) : place thread = .off := by
    have agrees := placed.agrees thread
    unfold Agrees at agrees
    split at agrees <;> simp_all
  have away' (thread : Nat) (dying : s.status thread = some .dying) : thread ≠ s.current := by
    rintro rfl
    exact placed.cpuOff.2.2 dying
  refine ⟨running, fun thread => ?_, placed.lists.once .ready, fun sema thread waits => ?_,
    fun sema => placed.lists.once (.sema sema), fun thread dying => ?_, placed.pages, fun thread dying other => ?_,
    fun event allowed => ?_⟩
  · have agrees := placed.agrees thread
    have switching := running s.current
    rw [inReady]
    unfold Agrees at agrees
    split at agrees <;> grind
  · have here := (inSema sema thread).mp waits
    refine ⟨(placed.blocked (by simp [here])).1, by simp [inReady, here], fun other again => ?_⟩
    rw [inSema, here] at again
    exact (Place.sema.inj again).symm
  · exact ⟨by simp [inReady, off thread dying], fun listed => ((placed.all thread).mp listed).2 dying,
      fun sema => by simp [inSema, off thread dying], away' thread dying⟩
  · have switched : s.prev = some (some thread) := by
      have agrees := placed.agrees thread
      rw [off thread dying] at agrees
      have resting := placed.idleOff.2.2
      have apart := away' thread dying
      unfold Agrees at agrees
      have doomed : s.prev.join = some thread := by grind
      exact Option.join_eq_some_iff.mp doomed
    obtain ⟨next, taken, freed, gone⟩ := threadScheduleTail_frees dying other (away' thread dying)
    refine ⟨next, ?_, freed, gone⟩
    have allowed : Allowed idle s .tail := by simp [Allowed, switched]
    rw [step, if_pos allowed]
    simp only [perform, switched]
    exact taken
  · obtain ⟨next, taken, -⟩ := perform_scheduled scheduled allowed
    rw [step, if_pos allowed, taken]
    rfl

def childExits : List Event := [.init 2, .start 2, .down 0, .tail, .up 0, .exit]

end Pintos.Threads.Scheduler
