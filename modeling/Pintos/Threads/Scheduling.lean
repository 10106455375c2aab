import Pintos.Threads.Scheduler

/-! Where the threads are, in every run of the scheduler.

The `elem` of a thread is in one place at a time: on `ready_list`, on the list
of one semaphore, or on none. Each part of a step moves one thread, and the
status says which kind of place the thread is in. Only the thread that has the
processor and the idle thread are live without being in any place.
-/

set_option autoImplicit false

namespace Pintos.Threads.Scheduler
open Semantics

inductive Place where
  | off
  | ready
  | sema (sema : Nat)
  | queue (queue : Nat)
  | nascent
  deriving DecidableEq

def System.listAt (s : System) : Place → List Nat
  | .off => []
  | .ready => s.readyList
  | .sema sema => (s.semas sema).waiters
  | .queue queue => (s.waiter queue).toList
  | .nascent => s.nascent

theorem listAt_setSema (s : System) (sema : Nat) (value : Semaphore) (there : Place) :
    (s.setSema sema value).listAt there = if there = .sema sema then value.waiters else s.listAt there := by
  cases there with
  | sema other =>
    simp only [System.listAt, System.setSema, Place.sema.injEq]
    split <;> rfl
  | _ => rfl

theorem listAt_setWaiter (s : System) (queue : Nat) (thread : Option Nat) (there : Place) :
    (s.setWaiter queue thread).listAt there = if there = .queue queue then thread.toList else s.listAt there := by
  cases there with
  | queue other =>
    simp only [System.listAt, System.setWaiter, Place.queue.injEq]
    split <;> rfl
  | _ => rfl

def putAt (place : Nat → Place) (thread : Nat) (there : Place) : Nat → Place :=
  fun other => if other = thread then there else place other

structure Lists (lists : Place → List Nat) (place : Nat → Place) : Prop where
  member : ∀ there, there ≠ .off → ∀ thread, thread ∈ lists there ↔ place thread = there
  once : ∀ there, (lists there).Nodup

section Lists
variable {lists next : Place → List Nat} {place : Nat → Place} {thread : Nat} {there : Place}

theorem Lists.push (placed : Lists lists place) (free : place thread = .off) (somewhere : there ≠ .off)
    (pushed : next there = lists there ++ [thread]) (others : ∀ other, other ≠ there → next other = lists other) :
    Lists next (putAt place thread there) := by
  have absent (there : Place) (somewhere : there ≠ .off) : thread ∉ lists there := by
    rw [placed.member there somewhere, free]
    exact somewhere.symm
  constructor
  · intro other somewhere' third
    have member := placed.member other somewhere' third
    have absent := absent other somewhere'
    by_cases same : other = there
    · grind [putAt]
    · grind [putAt]
  · intro other
    have once := placed.once other
    by_cases same : other = there
    · have absent := absent there somewhere
      grind
    · rw [others other same]
      exact once

theorem Lists.remove (placed : Lists lists place) (here : place thread = there)
    (removed : next there = (lists there).erase thread) (others : ∀ other, other ≠ there → next other = lists other) :
    Lists next (putAt place thread .off) := by
  constructor
  · intro other somewhere third
    have member := placed.member other somewhere third
    by_cases same : other = there
    · subst same
      rw [removed, (placed.once other).mem_erase_iff, member, putAt]
      grind
    · rw [others other same, member, putAt]
      grind
  · intro other
    by_cases same : other = there
    · subst same
      rw [removed]
      exact (placed.once other).erase thread
    · rw [others other same]
      exact placed.once other

end Lists

/-- The status of a thread in its place. Off every list is the thread that has the processor, the idle thread, a
page without a thread, or a thread that has exited: the initial one, or one whose page is about to be freed. -/
def Agrees (initial idle : Nat) (onCpu doomed : Option Nat) (thread : Nat) (place : Place)
    (status : Option Status) : Prop :=
  match place with
  | .ready => status = some .ready ∧ thread ≠ idle ∧ onCpu ≠ some thread
  | .off =>
    if thread = idle ∨ onCpu = some thread then status ≠ none ∧ status ≠ some .dying
    else status = none ∧ thread ≠ initial ∨ status = some .dying ∧ (thread = initial ∨ doomed = some thread)
  | _ => status = some .blocked ∧ thread ≠ idle ∧ onCpu ≠ some thread

structure Placed (initial idle : Nat) (s : System) (place : Nat → Place) (onCpu doomed : Option Nat) : Prop where
  lists : Lists s.listAt place
  agrees : ∀ thread, Agrees initial idle onCpu doomed thread (place thread) (s.status thread)
  all : ∀ thread, thread ∈ s.allList ↔ s.status thread ≠ none ∧ s.status thread ≠ some .dying
  allOnce : s.allList.Nodup
  pages : ∀ thread, thread ≠ initial → s.created thread = s.freed thread + if s.status thread = none then 0 else 1
  kept : s.freed initial = 0

section Moves
variable {initial idle : Nat} {s next : System} {place : Nat → Place} {onCpu onCpu' doomed doomed' : Option Nat}
variable {thread : Nat} {there : Place}

@[simp] theorem putAt_putAt (place : Nat → Place) (thread : Nat) (first second : Place) :
    putAt (putAt place thread first) thread second = putAt place thread second := by
  funext other
  unfold putAt
  split <;> rfl

@[simp] theorem putAt_self (place : Nat → Place) (thread : Nat) (there : Place) : putAt place thread there thread = there :=
  if_pos rfl

theorem putAt_same (here : place thread = there) : putAt place thread there = place := by
  funext other
  unfold putAt
  split <;> rename_i same
  · rw [same, here]
  · rfl

/-- What is known of a thread depends on the processor and on the page to free only if they are its own. -/
theorem Agrees.congr {status : Option Status} (agrees : Agrees initial idle onCpu doomed thread there status)
    (cpu : onCpu' = some thread ↔ onCpu = some thread) (dies : doomed = some thread → doomed' = some thread) :
    Agrees initial idle onCpu' doomed' thread there status := by
  unfold Agrees at agrees ⊢
  cases there <;> grind

section
variable (placed : Placed initial idle s place onCpu doomed)
include placed

theorem Placed.move (status : Option Status) (lists : Lists next.listAt (putAt place thread there))
    (statuses : next.status = fun other => if other = thread then status else s.status other)
    (agrees : Agrees initial idle onCpu' doomed' thread there status)
    (cpu : ∀ other, other ≠ thread → (onCpu' = some other ↔ onCpu = some other))
    (dies : ∀ other, other ≠ thread → doomed = some other → doomed' = some other)
    (all : ∀ other, other ∈ next.allList ↔ next.status other ≠ none ∧ next.status other ≠ some .dying)
    (allOnce : next.allList.Nodup)
    (pages : ∀ other, other ≠ initial → next.created other = next.freed other + if next.status other = none then 0 else 1)
    (kept : next.freed initial = 0) :
    Placed initial idle next (putAt place thread there) onCpu' doomed' := by
  refine ⟨lists, fun other => ?_, all, allOnce, pages, kept⟩
  rw [statuses]
  by_cases same : other = thread
  · simp only [putAt, if_pos same]
    exact same ▸ agrees
  · simp only [putAt, if_neg same]
    exact (placed.agrees other).congr (cpu other same) (dies other same)

theorem Placed.shift (status : Option Status) (lists : Lists next.listAt (putAt place thread there))
    (statuses : next.status = fun other => if other = thread then status else s.status other)
    (agrees : Agrees initial idle onCpu' doomed thread there status)
    (cpu : ∀ other, other ≠ thread → (onCpu' = some other ↔ onCpu = some other))
    (before : s.status thread ≠ none ∧ s.status thread ≠ some .dying) (after : status ≠ none ∧ status ≠ some .dying)
    (rest : next.allList = s.allList ∧ next.created = s.created ∧ next.freed = s.freed) :
    Placed initial idle next (putAt place thread there) onCpu' doomed := by
  obtain ⟨allList, created, freed⟩ := rest
  refine placed.move status lists statuses agrees cpu (fun _ _ => id) (fun other => ?_) ?_ (fun other apart => ?_) ?_
  · have all := placed.all other
    rw [allList, statuses, all]
    grind
  · rw [allList]
    exact placed.allOnce
  · have pages := placed.pages other apart
    rw [created, freed, statuses, pages]
    grind
  · rw [freed]
    exact placed.kept

theorem Placed.blocked (waits : place thread ≠ .off ∧ place thread ≠ .ready) :
    s.status thread = some .blocked ∧ thread ≠ idle ∧ onCpu ≠ some thread := by
  have agrees := placed.agrees thread
  unfold Agrees at agrees
  split at agrees
  · rename_i here
    exact absurd here waits.2
  · rename_i here
    exact absurd here waits.1
  · exact agrees

theorem Placed.idleOff : place idle = .off ∧ s.status idle ≠ none ∧ s.status idle ≠ some .dying := by
  have agrees := placed.agrees idle
  unfold Agrees at agrees
  split at agrees <;> simp_all

end

theorem Placed.cpuOff (placed : Placed initial idle s place (some thread) doomed) :
    place thread = .off ∧ s.status thread ≠ none ∧ s.status thread ≠ some .dying := by
  have agrees := placed.agrees thread
  unfold Agrees at agrees
  split at agrees <;> simp_all

end Moves

section Parts
variable {initial idle : Nat} {s waiting : System} {place : Nat → Place} {onCpu doomed : Option Nat} {thread : Nat}

theorem Lists.pushReady (lists : Lists s.listAt place) (free : place thread = .off) :
    Lists ({ s with readyList := s.readyList ++ [thread] } : System).listAt (putAt place thread .ready) := by
  refine lists.push free (by decide) rfl fun other apart => ?_
  cases other <;> first | rfl | exact absurd rfl apart

/-- A thread that was taken off the list it waited on goes to the end of `ready_list`. -/
theorem threadUnblock_placed (placed : Placed initial idle s place onCpu doomed)
    (waits : place thread ≠ .off ∧ place thread ≠ .ready) (lists : Lists waiting.listAt (putAt place thread .off))
    (same : waiting.status = s.status ∧ waiting.allList = s.allList ∧ waiting.created = s.created ∧
      waiting.freed = s.freed) :
    ∃ next, threadUnblock waiting thread = some next ∧
      next = { waiting with readyList := waiting.readyList ++ [thread] }.setStatus thread (some .ready) ∧
        Placed initial idle next (putAt place thread .ready) onCpu doomed := by
  obtain ⟨status, rest⟩ := same
  obtain ⟨blocked, busy, away⟩ := placed.blocked waits
  have pushed := lists.pushReady (putAt_self place thread .off)
  rw [putAt_putAt] at pushed
  refine ⟨_, if_pos (by rw [status, blocked]), rfl, ?_⟩
  exact placed.shift _ pushed (by rw [System.setStatus, ← status]) ⟨rfl, busy, away⟩ (fun _ _ => Iff.rfl)
    (by simp [blocked]) (by simp) rest

/-- `schedule` gives the processor to a live thread that is in no place. -/
theorem schedule_placed (placed : Placed initial idle s place none doomed) (left : s.status s.current ≠ some .running) :
    ∃ next, schedule idle s = some next ∧ Placed initial idle next (putAt place next.current .off) (some next.current) doomed ∧
      next.status = s.status ∧ next.prev = some (if s.current = next.current then none else some s.current) := by
  unfold schedule nextThreadToRun
  cases list : s.readyList with
  | nil =>
    obtain ⟨off, live⟩ := placed.idleOff
    refine ⟨_, if_neg (by simp [left, live.1]), ?_, rfl, rfl⟩
    refine placed.shift (s.status idle) ?_ ?_ ?_ (fun other apart => ?_) live live ⟨rfl, rfl, rfl⟩
    · rw [putAt_same off]
      have same : ({ s with readyList := [], current := idle, chosen := s.chosen ++ [idle]
                            prev := some (if s.current = idle then none else some s.current) } : System).listAt =
          s.listAt := by
        funext there
        cases there <;> simp [System.listAt, list]
      rw [same]
      exact placed.lists
    · funext other
      split <;> simp_all
    · simp [Agrees, live]
    · simp [apart.symm]
  | cons first rest =>
    have here : place first = .ready := (placed.lists.member .ready (by decide) first).mp (by simp [System.listAt, list])
    have agrees := placed.agrees first
    rw [here] at agrees
    obtain ⟨ready, busy, -⟩ := agrees
    refine ⟨_, if_neg (by simp [left, ready]), ?_, rfl, rfl⟩
    refine placed.shift (s.status first) ?_ ?_ ?_ (fun other apart => ?_) (by simp [ready]) (by simp [ready])
      ⟨rfl, rfl, rfl⟩
    · refine placed.lists.remove here (by simp [System.listAt, list]) fun other apart => ?_
      cases other <;> first | rfl | exact absurd rfl apart
    · funext other
      split <;> simp_all
    · simp [Agrees, ready]
    · simp [apart.symm]

end Parts

/-- In every state: each thread is where its status says, the thread that has the processor is the one that runs
unless it still has to finish the switch, and a switch is from another thread. -/
def Scheduled (initial idle : Nat) (s : System) : Prop :=
  ∃ place, Placed initial idle s place (some s.current) s.prev.join ∧
    (∀ thread, s.status thread = some .running ↔ thread = s.current ∧ s.prev = none) ∧
      ∀ thread, s.prev = some (some thread) → thread ≠ s.current

section Calls
variable {initial idle : Nat} {s leaving : System} {place : Nat → Place}

theorem Placed.weaken {onCpu doomed doomed' : Option Nat} (placed : Placed initial idle s place onCpu doomed)
    (dies : ∀ thread, doomed = some thread → doomed' = some thread) : Placed initial idle s place onCpu doomed' :=
  { placed with agrees := fun thread => (placed.agrees thread).congr Iff.rfl (dies thread) }

/-- The current thread has left the processor for a place, and another gets it. -/
theorem schedule_scheduled (place : Nat → Place) (doomed : Option Nat)
    (placed : Placed initial idle leaving place none doomed)
    (stopped : ∀ thread, leaving.status thread ≠ some .running)
    (dies : ∀ thread, doomed = some thread → thread = leaving.current ∧ leaving.status thread = some .dying) :
    ∃ next, schedule idle leaving = some next ∧ Scheduled initial idle next := by
  obtain ⟨next, done, placed', status, prev⟩ := schedule_placed placed (stopped _)
  refine ⟨next, done, putAt place next.current .off, placed'.weaken fun thread pending => ?_, fun thread => ?_,
    fun thread switched => ?_⟩
  · obtain ⟨rfl, dying⟩ := dies thread pending
    have apart : leaving.current ≠ next.current := by
      intro same
      rw [same, ← status] at dying
      exact placed'.cpuOff.2.2 dying
    rw [prev, if_neg apart]
    rfl
  · simp [status, stopped, prev]
  · rw [prev, Option.some.injEq] at switched
    split at switched <;> simp_all

structure Settled (initial idle : Nat) (s : System) (place : Nat → Place) : Prop where
  placed : Placed initial idle s place (some s.current) none
  running : ∀ thread, s.status thread = some .running ↔ thread = s.current

theorem Scheduled.settled (scheduled : Scheduled initial idle s) (settled : s.prev = none) :
    ∃ place, Settled initial idle s place := by
  obtain ⟨place, placed, running, -⟩ := scheduled
  rw [settled] at placed
  exact ⟨place, placed, fun thread => by simp [running, settled]⟩

section
variable (settled : Settled initial idle s place)
include settled

theorem Settled.scheduled (done : s.prev = none) : Scheduled initial idle s :=
  ⟨place, by rw [done]; exact settled.placed, fun thread => by simp [settled.running, done], by simp [done]⟩

theorem Settled.leave (there : Place) (status : Status) (lists : Lists leaving.listAt (putAt place s.current there))
    (statuses : leaving.status = fun other => if other = s.current then some status else s.status other)
    (agrees : Agrees initial idle none none s.current there (some status))
    (stays : status = .ready ∨ status = .blocked)
    (rest : leaving.allList = s.allList ∧ leaving.created = s.created ∧ leaving.freed = s.freed) :
    ∃ next, schedule idle leaving = some next ∧ Scheduled initial idle next := by
  refine schedule_scheduled (putAt place s.current there) none ?_ (fun thread => ?_) (by simp)
  · refine settled.placed.shift _ lists statuses agrees (fun other apart => ?_) settled.placed.cpuOff.2 ?_ rest
    · simp [apart.symm]
    · obtain rfl | rfl := stays <;> simp
  · rw [statuses]
    have running := settled.running thread
    grind

theorem threadYield_scheduled : ∃ next, threadYield idle s = some next ∧ Scheduled initial idle next := by
  have off := settled.placed.cpuOff.1
  unfold threadYield
  rw [if_pos ((settled.running _).mpr rfl)]
  dsimp only
  split <;> rename_i resting
  · refine settled.leave .off .ready ?_ rfl ?_ (.inl rfl) ⟨rfl, rfl, rfl⟩
    · rw [putAt_same off]
      exact settled.placed.lists
    · simp [Agrees, resting]
  · exact settled.leave .ready .ready (settled.placed.lists.pushReady off) rfl ⟨rfl, resting, by simp⟩ (.inl rfl) ⟨rfl, rfl, rfl⟩

theorem threadTick_scheduled (done : s.prev = none) :
    ∃ next, threadTick idle s = some next ∧ Scheduled initial idle next := by
  have ticked (ticks : Nat) : Settled initial idle { s with threadTicks := ticks } place :=
    ⟨{ settled.placed with }, settled.running⟩
  unfold threadTick
  dsimp only
  split
  · exact threadYield_scheduled (ticked _)
  · exact ⟨_, rfl, (ticked _).scheduled done⟩

theorem threadBlock_scheduled (busy : s.current ≠ idle) (there : Place)
    (waits : there ≠ .off ∧ there ≠ .ready) (lists : Lists leaving.listAt (putAt place s.current there))
    (same : leaving.status = s.status ∧ leaving.current = s.current)
    (rest : leaving.allList = s.allList ∧ leaving.created = s.created ∧ leaving.freed = s.freed) :
    ∃ next, threadBlock idle leaving = some next ∧ Scheduled initial idle next := by
  obtain ⟨status, current⟩ := same
  unfold threadBlock
  rw [if_pos (by rw [status, current, settled.running]), current]
  refine settled.leave there .blocked lists (by rw [System.setStatus, status]) ?_ (.inr rfl) rest
  unfold Agrees
  cases there <;> simp_all

theorem idleBlock_scheduled (resting : s.current = idle) :
    ∃ next, threadBlock idle s = some next ∧ Scheduled initial idle next := by
  unfold threadBlock
  rw [if_pos ((settled.running _).mpr rfl)]
  refine settled.leave .off .blocked ?_ rfl ?_ (.inr rfl) ⟨rfl, rfl, rfl⟩
  · rw [putAt_same settled.placed.cpuOff.1]
    exact settled.placed.lists
  · simp [Agrees, resting]

theorem threadExit_scheduled (busy : s.current ≠ idle) :
    ∃ next, threadExit idle s = some next ∧ Scheduled initial idle next := by
  have placed := settled.placed
  obtain ⟨off, live⟩ := placed.cpuOff
  unfold threadExit
  rw [if_pos ((settled.running _).mpr rfl)]
  refine schedule_scheduled (putAt place s.current .off) (some s.current) ?_ (fun thread => ?_) ?_
  · refine placed.move (some .dying) ?_ rfl ?_ (fun other apart => ?_) (by simp) (fun other => ?_) ?_
      (fun other apart => ?_) placed.kept
    · rw [putAt_same off]
      exact placed.lists
    · simp [Agrees, busy]
    · simp [apart.symm]
    · have all := placed.all other
      simp only [System.setStatus, placed.allOnce.mem_erase_iff]
      grind
    · exact placed.allOnce.erase _
    · have pages := placed.pages other apart
      simp only [System.setStatus]
      grind
  · have running := settled.running thread
    simp only [System.setStatus]
    grind
  · intro thread pending
    simp only [Option.some.injEq] at pending
    subst pending
    exact ⟨rfl, if_pos rfl⟩

theorem woken_scheduled {waiting : System} {thread : Nat} (done : s.prev = none)
    (there : Place) (spot : there ≠ .off ∧ there ≠ .ready) (inside : thread ∈ s.listAt there)
    (own : waiting.listAt there = (s.listAt there).erase thread)
    (others : ∀ other, other ≠ there → waiting.listAt other = s.listAt other)
    (same : waiting.status = s.status ∧ waiting.allList = s.allList ∧ waiting.created = s.created ∧
      waiting.freed = s.freed) (cpu : waiting.current = s.current ∧ waiting.prev = s.prev) :
    ∃ next, threadUnblock waiting thread = some next ∧ Scheduled initial idle next := by
  have here : place thread = there := (settled.placed.lists.member there spot.1 thread).mp inside
  have waits : place thread ≠ .off ∧ place thread ≠ .ready := here ▸ spot
  have lists : Lists waiting.listAt (putAt place thread .off) := settled.placed.lists.remove here own others
  obtain ⟨next, woken, shape, placed⟩ := threadUnblock_placed settled.placed waits lists same
  have current : next.current = s.current := by rw [shape]; exact cpu.1
  have prev : next.prev = none := by rw [shape]; exact cpu.2.trans done
  refine ⟨next, woken, Settled.scheduled ⟨by rw [current]; exact placed, fun other => ?_⟩ prev⟩
  have running := settled.running other
  have blocked := (settled.placed.blocked waits).1
  rw [current, shape]
  simp only [System.setStatus, same.1]
  grind

theorem Settled.setSema {sema : Nat} {value : Semaphore}
    (same : value.waiters = (s.semas sema).waiters) : Settled initial idle (s.setSema sema value) place := by
  have lists : (s.setSema sema value).listAt = s.listAt := by
    funext there
    rw [listAt_setSema]
    split <;> rename_i here
    · rw [here, same]
      rfl
    · rfl
  exact ⟨{ settled.placed with lists := by rw [lists]; exact settled.placed.lists }, settled.running⟩

theorem semaDown_scheduled (done : s.prev = none) (busy : s.current ≠ idle)
    (sema : Nat) : ∃ next, semaDown idle s sema = some next ∧ Scheduled initial idle next := by
  unfold semaDown
  by_cases zero : (s.semas sema).value = 0
  · rw [Semaphore.test_of_zero zero]
    refine threadBlock_scheduled settled busy (.sema sema) (by simp) ?_ ⟨rfl, rfl⟩ ⟨rfl, rfl, rfl⟩
    refine settled.placed.lists.push settled.placed.cpuOff.1 (by simp) ?_ fun other apart => ?_
    · rw [listAt_setSema, if_pos rfl]
      rfl
    · rw [listAt_setSema, if_neg apart]
  · rw [Semaphore.test_of_ne zero]
    have taken : Settled initial idle (s.setSema sema { s.semas sema with value := (s.semas sema).value - 1 }) place :=
      settled.setSema rfl
    exact ⟨_, rfl, taken.scheduled done⟩

theorem semaUp_scheduled (done : s.prev = none) (sema : Nat) :
    ∃ next, semaUp s sema = some next ∧ Scheduled initial idle next := by
  unfold semaUp Semaphore.up
  cases waiters : (s.semas sema).waiters with
  | nil => exact ⟨_, rfl, (settled.setSema waiters.symm).scheduled done⟩
  | cons thread rest =>
    refine woken_scheduled settled done (.sema sema) (by simp) (by simp [System.listAt, waiters]) ?_ (fun other apart => ?_)
      ⟨rfl, rfl, rfl, rfl⟩ ⟨rfl, rfl⟩
    · rw [listAt_setSema, if_pos rfl]
      simp [System.listAt, waiters]
    · rw [listAt_setSema, if_neg apart]

theorem intqWait_scheduled (busy : s.current ≠ idle) {queue : Nat}
    (free : s.waiter queue = none) : ∃ next, intqWait idle s queue = some next ∧ Scheduled initial idle next := by
  refine threadBlock_scheduled settled busy (.queue queue) (by simp) ?_ ⟨rfl, rfl⟩ ⟨rfl, rfl, rfl⟩
  refine settled.placed.lists.push settled.placed.cpuOff.1 (by simp) ?_ fun other apart => ?_
  · rw [listAt_setWaiter, if_pos rfl]
    simp [System.listAt, free]
  · rw [listAt_setWaiter, if_neg apart]

theorem intqSignal_scheduled (done : s.prev = none) (queue : Nat) :
    ∃ next, intqSignal s queue = some next ∧ Scheduled initial idle next := by
  unfold intqSignal
  cases waiter : s.waiter queue with
  | none => exact ⟨_, rfl, settled.scheduled done⟩
  | some thread =>
    refine woken_scheduled settled done (.queue queue) (by simp) (by simp [System.listAt, waiter]) ?_ (fun other apart => ?_)
      ⟨rfl, rfl, rfl, rfl⟩ ⟨rfl, rfl⟩
    · rw [listAt_setWaiter, if_pos rfl]
      simp [System.listAt, waiter]
    · rw [listAt_setWaiter, if_neg apart]

theorem startThread_scheduled (done : s.prev = none) {thread : Nat}
    (made : thread ∈ s.nascent) : ∃ next, startThread s thread = some next ∧ Scheduled initial idle next := by
  refine woken_scheduled settled done .nascent (by simp) made rfl (fun other apart => ?_) ⟨rfl, rfl, rfl, rfl⟩ ⟨rfl, rfl⟩
  cases other <;> first | rfl | exact absurd rfl apart

theorem initThread_scheduled (done : s.prev = none) {page : Nat}
    (unused : s.status page = none) : Scheduled initial idle (initThread s page) := by
  have placed := settled.placed
  have agrees := placed.agrees page
  have off : place page = .off := by
    unfold Agrees at agrees
    split at agrees <;> simp_all
  have fresh : page ≠ initial ∧ page ≠ idle ∧ page ≠ s.current := by
    rw [off] at agrees
    unfold Agrees at agrees
    grind
  have made : Settled initial idle (initThread s page) (putAt place page .nascent) := ?_
  · exact made.scheduled done
  refine ⟨?_, fun thread => ?_⟩
  · refine placed.move (some .blocked) ?_ rfl ?_ (fun _ _ => Iff.rfl) (fun _ _ => id) (fun other => ?_) ?_
      (fun other apart => ?_) placed.kept
    · refine placed.lists.push off (by simp) rfl fun other apart => ?_
      cases other <;> first | rfl | exact absurd rfl apart
    · refine ⟨rfl, fresh.2.1, ?_⟩
      show some s.current ≠ some page
      simpa using fresh.2.2.symm
    · have all := placed.all other
      simp only [initThread, System.setStatus, System.palloc]
      grind
    · have all := placed.all page
      have once := placed.allOnce
      simp only [initThread]
      grind
    · have pages := placed.pages other apart
      simp only [initThread, System.setStatus, System.palloc]
      grind
  · have running := settled.running thread
    simp only [initThread, System.setStatus, System.palloc]
    grind

end

theorem Placed.mark {doomed : Option Nat} (placed : Placed initial idle s place (some s.current) doomed) :
    Placed initial idle { s.setStatus s.current (some .running) with threadTicks := 0, prev := none } place
      (some s.current) doomed := by
  have off := placed.cpuOff
  rw [← putAt_same off.1]
  refine placed.shift (some .running) ?_ rfl ?_ (fun _ _ => Iff.rfl) off.2 (by simp) ⟨rfl, rfl, rfl⟩
  · rw [putAt_same off.1]
    exact placed.lists
  · simp [Agrees]

theorem Placed.free {thread cpu : Nat} (placed : Placed initial idle s place (some cpu) (some thread))
    (dying : s.status thread = some .dying) (other : thread ≠ initial) (away : thread ≠ cpu) :
    Placed initial idle (s.pallocFree thread) place (some cpu) none := by
  have agrees := placed.agrees thread
  have resting := placed.idleOff
  have off : place thread = .off := by
    unfold Agrees at agrees
    split at agrees <;> simp_all
  rw [← putAt_same off]
  refine placed.move none ?_ rfl ?_ (fun _ _ => Iff.rfl) (fun third apart pending => ?_) (fun third => ?_) placed.allOnce
    (fun third apart => ?_) ?_
  · rw [putAt_same off]
    exact placed.lists
  · have busy : thread ≠ idle := by
      rintro rfl
      exact resting.2.2 dying
    simp [Agrees, busy, other, away.symm]
  · simp_all
  · have all := placed.all third
    simp only [System.pallocFree, System.setStatus]
    grind
  · have pages := placed.pages third apart
    simp only [System.pallocFree, System.setStatus]
    grind
  · have kept := placed.kept
    simp only [System.pallocFree, System.setStatus]
    grind

theorem Placed.spare {onCpu doomed : Option Nat} (placed : Placed initial idle s place onCpu doomed)
    (alive : ∀ thread, doomed = some thread → s.status thread = some .dying → thread = initial) :
    Placed initial idle s place onCpu none := by
  refine { placed with agrees := fun thread => ?_ }
  have agrees := placed.agrees thread
  have alive := alive thread
  unfold Agrees at agrees ⊢
  split <;> simp_all
  grind

/-- The switch is over: the current thread runs, and the page of a thread that exited is free. -/
theorem threadScheduleTail_scheduled {prev : Option Nat} (scheduled : Scheduled initial idle s) (switched : s.prev = some prev) :
    ∃ next, threadScheduleTail initial s prev = some next ∧ Scheduled initial idle next := by
  obtain ⟨place, placed, running, away⟩ := scheduled
  have stopped (thread : Nat) : s.status thread ≠ some .running := by
    intro runs
    have none := ((running thread).mp runs).2
    rw [switched] at none
    cases none
  rw [switched] at placed
  have marked := placed.mark
  have runs (thread : Nat) : (s.setStatus s.current (some .running)).status thread = some .running ↔ thread = s.current := by
    have stopped := stopped thread
    simp only [System.setStatus]
    grind
  unfold threadScheduleTail
  cases prev with
  | none => exact ⟨_, rfl, Settled.scheduled ⟨marked, runs⟩ rfl⟩
  | some thread =>
    have apart := away thread switched
    have kept : (s.setStatus s.current (some .running)).status thread = s.status thread := if_neg apart
    dsimp only
    split <;> rename_i dead
    · refine ⟨_, if_neg apart, Settled.scheduled ⟨marked.free dead.1 dead.2 apart, fun other => ?_⟩ rfl⟩
      have runs := runs other
      simp only [System.pallocFree, System.setStatus] at runs ⊢
      grind
    · refine ⟨_, rfl, Settled.scheduled ⟨marked.spare fun other pending dying => ?_, runs⟩ rfl⟩
      obtain rfl : thread = other := by simpa using pending
      by_contra initial
      exact dead ⟨dying, initial⟩

theorem perform_scheduled {event : Event} (scheduled : Scheduled initial idle s) (allowed : Allowed idle s event) :
    ∃ next, perform initial idle s event = some next ∧ Scheduled initial idle next := by
  cases event with
  | tail =>
    obtain ⟨prev, switched⟩ := Option.ne_none_iff_exists'.mp allowed
    simp only [perform, switched]
    exact threadScheduleTail_scheduled scheduled switched
  | init page =>
    obtain ⟨place, settled⟩ := scheduled.settled allowed.1
    exact ⟨_, rfl, initThread_scheduled settled allowed.1 allowed.2.2⟩
  | start thread =>
    obtain ⟨place, settled⟩ := scheduled.settled allowed.1
    exact startThread_scheduled settled allowed.1 allowed.2.2
  | yield =>
    obtain ⟨place, settled⟩ := scheduled.settled allowed
    exact threadYield_scheduled settled
  | tick =>
    obtain ⟨place, settled⟩ := scheduled.settled allowed
    exact threadTick_scheduled settled allowed
  | semaInit sema value =>
    obtain ⟨place, settled⟩ := scheduled.settled allowed.1
    have made : Settled initial idle (s.setSema sema (Semaphore.init value)) place := settled.setSema allowed.2.symm
    exact ⟨_, rfl, made.scheduled allowed.1⟩
  | down sema =>
    obtain ⟨place, settled⟩ := scheduled.settled allowed.1
    exact semaDown_scheduled settled allowed.1 allowed.2 sema
  | tryDown sema =>
    obtain ⟨place, settled⟩ := scheduled.settled allowed
    have tried : Settled initial idle (s.setSema sema (s.semas sema).tryDown.1) place := by
      apply settled.setSema
      unfold Semaphore.tryDown
      split <;> rfl
    exact ⟨_, rfl, tried.scheduled allowed⟩
  | up sema =>
    obtain ⟨place, settled⟩ := scheduled.settled allowed
    exact semaUp_scheduled settled allowed sema
  | wait queue =>
    obtain ⟨place, settled⟩ := scheduled.settled allowed.1
    exact intqWait_scheduled settled allowed.2.1 allowed.2.2
  | signal queue =>
    obtain ⟨place, settled⟩ := scheduled.settled allowed
    exact intqSignal_scheduled settled allowed queue
  | idle =>
    obtain ⟨place, settled⟩ := scheduled.settled allowed.1
    exact idleBlock_scheduled settled allowed.2
  | exit =>
    obtain ⟨place, settled⟩ := scheduled.settled allowed.1
    exact threadExit_scheduled settled allowed.2

theorem step_scheduled {event : Event} {next : System} (scheduled : Scheduled initial idle s)
    (taken : step initial idle s event = some next) : Scheduled initial idle next := by
  unfold step at taken
  split at taken <;> rename_i allowed
  · obtain ⟨made, done, kept⟩ := perform_scheduled scheduled allowed
    cases done.symm.trans taken
    exact kept
  · cases taken

end Calls

theorem afterStart_scheduled {initial idle : Nat} (apart : initial ≠ idle) (preempted : Bool) (semas : Nat → UInt32) :
    Scheduled initial idle (System.afterStart initial idle preempted semas) := by
  refine ⟨fun _ => .off, ⟨⟨fun there somewhere thread => ?_, fun there => ?_⟩, fun thread => ?_, fun thread => ?_, ?_,
    fun thread other => ?_, rfl⟩, fun thread => ?_, by simp [System.afterStart]⟩
  · cases there <;> simp_all [System.listAt, System.afterStart, Semaphore.init]
  · cases there <;> simp [System.listAt, System.afterStart, Semaphore.init]
  · simp only [Agrees, System.afterStart]
    grind
  · simp only [System.afterStart]
    grind
  · simp [System.afterStart, apart]
  · simp only [System.afterStart]
    grind
  · simp only [System.afterStart]
    grind

theorem run_scheduled {initial idle : Nat} (apart : initial ≠ idle) {preempted : Bool} {semas : Nat → UInt32}
    {events : List Event} {final : System}
    (ran : run (step initial idle) (System.afterStart initial idle preempted semas) events = some final) :
    Scheduled initial idle final :=
  invariant_of_reached (step initial idle) (Scheduled initial idle) (fun _ _ _ => step_scheduled)
    (afterStart_scheduled apart preempted semas) ran

end Pintos.Threads.Scheduler
