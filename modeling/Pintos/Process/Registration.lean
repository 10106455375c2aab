import Pintos.Semantics.Transition

/-! Registering a new child with its parent (`register_child_with_parent`, `load`).

The parent creates a thread and looks it up in `all_list` by its tid, stores
itself in the child's `parent` field and waits for the child's load. The child
is runnable from its creation on: its load ends at any time, a failed one takes
its tid away, and then raises the `wait_for_load` of the thread its `parent`
field points to. The parent may be preempted at every list element and at every
access to the child; it may start one child after another.
-/

set_option autoImplicit false

namespace Pintos.Process.Registration
open Semantics

inductive Load where
  /-- Not a new child, or not created yet. -/
  | idle
  | loading
  /-- At `sema_up (&parent->wait_for_load)`. -/
  | raising
  | finished
  /-- That `sema_up` went through the null pointer. -/
  | faulted
  deriving DecidableEq

structure Thread where
  tid : Int
  /-- The `parent` field has been set. -/
  parent : Bool := false
  load : Load := .idle

/-- Where the parent is in `register_child_with_parent`; `rest` is what its loop has yet to visit. -/
inductive Pc where
  | idle
  | searching (tid : Nat) (rest : List Nat) (found : Bool)
  | storing (tid thread : Nat) (rest : List Nat)
  | downing (tid thread : Nat) (rest : List Nat)
  | reading (tid thread : Nat) (rest : List Nat)
  /-- The loop went through `all_list` without a match. -/
  | missed

structure System where
  pc : Pc
  threads : Nat → Thread
  allList : List Nat
  nextTid : Nat
  waitForLoad : Nat
  childList : List Nat

def System.setThread (s : System) (thread : Nat) (value : Thread) : System :=
  { s with threads := Function.update s.threads thread value }

@[simp] theorem System.setThread_threads (s : System) (thread other : Nat) (value : Thread) :
    (s.setThread thread value).threads other = if other = thread then value else s.threads other := by
  simp [System.setThread, Function.update_apply]

@[simp] theorem System.setThread_waitForLoad (s : System) (thread : Nat) (value : Thread) :
    (s.setThread thread value).waitForLoad = s.waitForLoad := rfl

@[simp] theorem System.setThread_pc (s : System) (thread : Nat) (value : Thread) :
    (s.setThread thread value).pc = s.pc := rfl

inductive Event where
  | create
  | advance
  /-- The load of a child comes to its end, with success or not. -/
  | load (child : Nat) (success : Bool)
  | raise (child : Nat)

/-- The parent's next step in `register_child_with_parent`. -/
def advance (s : System) : Option System :=
  match s.pc with
  | .searching tid (thread :: rest) found =>
    if (s.threads thread).tid = tid then some { s with pc := .storing tid thread rest }
    else some { s with pc := .searching tid rest found }
  | .searching _ [] found => some { s with pc := if found then .idle else .missed }
  | .storing tid thread rest =>
    some { s.setThread thread { s.threads thread with parent := true } with pc := .downing tid thread rest }
  | .downing tid thread rest =>
    if 0 < s.waitForLoad then some { s with waitForLoad := s.waitForLoad - 1, pc := .reading tid thread rest } else none
  | .reading tid thread rest =>
    -- a failed child is let go, and the loop goes on behind it
    if (s.threads thread).tid < 0 then some { s with pc := .searching tid rest true }
    else some { s with childList := s.childList ++ [thread], pc := .idle }
  | .idle | .missed => none

def step (s : System) : Event → Option System
  | .create =>
    match s.pc with
    | .idle =>
      let child := s.nextTid
      some { s.setThread child { tid := child, load := .loading } with
        allList := s.allList ++ [child], nextTid := child + 1, pc := .searching child (s.allList ++ [child]) false }
    | _ => none
  | .advance => advance s
  | .load child success =>
    if (s.threads child).load = .loading then
      some (s.setThread child { s.threads child with
        load := .raising, tid := if success then (s.threads child).tid else -1 })
    else none
  | .raise child =>
    if (s.threads child).load = .raising then
      if (s.threads child).parent then
        some { s.setThread child { s.threads child with load := .finished } with waitForLoad := s.waitForLoad + 1 }
      else some (s.setThread child { s.threads child with load := .faulted })
    else none

def boot (count : Nat) : System where
  pc := .idle
  threads thread := { tid := thread }
  allList := List.range' 1 count
  nextTid := count + 1
  waitForLoad := 0
  childList := []

structure Registers (s : System) : Prop where
  /-- A child that got to its `sema_up` had its `parent` field set. -/
  raised : ∀ child, (s.threads child).load = .finished → (s.threads child).parent = true
  nonnull : ∀ child, (s.threads child).load ≠ .faulted
  /-- The search ends at the child it is for, and not before. -/
  found : s.pc ≠ .missed
  finds : ∀ tid rest, s.pc = .searching tid rest false →
    ∃ count next left, run step s (List.replicate count .advance) = some next ∧ next.pc = .storing tid tid left
  /-- The parent reads the child's tid when the load is over. -/
  reads : ∀ tid thread rest, s.pc = .reading tid thread rest → thread = tid ∧ (s.threads thread).load = .finished

/-- A load ends only after the parent has stored itself in the child. -/
def Orderly (s : System) : Event → Prop
  | .load child _ => (s.threads child).parent = true
  | .create | .advance | .raise _ => True

instance (s : System) (event : Event) : Decidable (Orderly s event) := by
  cases event <;> unfold Orderly <;> infer_instance

def Thread.settled (thread : Thread) : Prop :=
  thread.load = .idle ∨ thread.load = .finished ∧ thread.parent = true

def Known (s : System) : Pc → Prop
  | .idle => s.waitForLoad = 0 ∧ ∀ t, (s.threads t).settled
  | .searching tid rest false => s.waitForLoad = 0 ∧ (∀ t ≠ tid, (s.threads t).settled) ∧ tid ∈ rest ∧
    s.threads tid = { tid := tid, load := .loading }
  | .storing tid thread _ => s.waitForLoad = 0 ∧ (∀ t ≠ tid, (s.threads t).settled) ∧ thread = tid ∧
    s.threads tid = { tid := tid, load := .loading }
  | .searching tid _ true => s.waitForLoad = 0 ∧ (∀ t, (s.threads t).settled) ∧ (s.threads tid).tid = -1
  | .downing tid thread _ => (∀ t ≠ tid, (s.threads t).settled) ∧ thread = tid ∧ (s.threads tid).parent = true ∧
    (s.threads tid).load ≠ .idle ∧ (s.threads tid).load ≠ .faulted ∧
    s.waitForLoad = if (s.threads tid).load = .finished then 1 else 0
  | .reading tid thread _ => s.waitForLoad = 0 ∧ (∀ t, (s.threads t).settled) ∧ thread = tid ∧
    (s.threads tid).load = .finished
  | .missed => False

structure Ordered (s : System) : Prop where
  known : Known s s.pc
  /-- A tid is the thread's own or the -1 of a failed load. -/
  tids : ∀ t : Nat, (s.threads t).tid = t ∨ (s.threads t).tid = -1

section Steps
variable {s next : System} (ordered : Ordered s)
include ordered

theorem Ordered.create (here : s.pc = .idle) :
    Ordered { s.setThread s.nextTid { tid := s.nextTid, load := .loading } with
      allList := s.allList ++ [s.nextTid], nextTid := s.nextTid + 1
      pc := .searching s.nextTid (s.allList ++ [s.nextTid]) false } := by
  obtain ⟨quiet, settled⟩ : Known s .idle := here ▸ ordered.known
  refine ⟨⟨quiet, fun t other => ?_, by simp, by simp⟩, fun t => ?_⟩
  · simpa [other] using settled t
  · have := ordered.tids t
    simp only [System.setThread_threads]
    split <;> simp_all

theorem Ordered.advance (taken : advance s = some next) : Ordered next := by
  have known := ordered.known
  have tids := ordered.tids
  unfold Registration.advance at taken
  split at taken <;> rename_i here
  · -- a list element is visited: only the child still has the tid that is looked for
    rename_i tid thread rest found
    rw [here] at known
    split at taken <;> rename_i match_
    · cases taken
      have same : thread = tid := by
        rcases tids thread with own | failed <;> omega
      subst same
      cases found with
      | false => exact ⟨⟨known.1, known.2.1, rfl, known.2.2.2⟩, tids⟩
      | true => 
        have := known.2.2
        omega
    · cases taken
      refine ⟨?_, tids⟩
      cases found with
      | false =>
        obtain ⟨quiet, settled, inside, fresh⟩ := known
        refine ⟨quiet, settled, (List.mem_cons.mp inside).resolve_left fun same => match_ ?_, fresh⟩
        rw [← same, fresh]
      | true => exact known
  · rename_i tid found
    rw [here] at known
    cases taken
    refine ⟨?_, tids⟩
    cases found with
    | false => exact absurd known.2.2.1 List.not_mem_nil
    | true => exact ⟨known.1, known.2.1⟩
  · rw [here] at known
    cases taken
    obtain ⟨quiet, settled, rfl, fresh⟩ := known
    refine ⟨⟨fun t other => ?_, rfl, ?_⟩, fun t => ?_⟩
    · simpa [other] using settled t other
    · simpa [fresh] using quiet
    · simp only [System.setThread_threads]
      split <;> rename_i at_
      · exact at_ ▸ tids t
      · exact tids t
  · rename_i tid thread rest
    rw [here] at known
    split at taken <;> rename_i up
    · cases taken
      obtain ⟨settled, same, parent, -, -, count⟩ := known
      have loaded : (s.threads tid).load = .finished := by
        by_contra unfinished
        rw [if_neg unfinished] at count
        omega
      refine ⟨⟨by simp [count, loaded], fun t => ?_, same, loaded⟩, tids⟩
      by_cases mine : t = tid
      · exact .inr ⟨mine ▸ loaded, mine ▸ parent⟩
      · exact settled t mine
    · cases taken
  · rw [here] at known
    split at taken <;> rename_i failed
    · cases taken
      obtain ⟨quiet, settled, rfl, -⟩ := known
      exact ⟨⟨quiet, settled, (tids _).resolve_left (by omega)⟩, tids⟩
    · cases taken
      exact ⟨⟨known.1, known.2.1⟩, tids⟩
  · cases taken
  · cases taken

/-- A child that is past its load but not registered is the one the parent waits for. -/
theorem Ordered.downing_of_unsettled {child : Nat} (busy : ¬ (s.threads child).settled)
    (past : (s.threads child).parent = true ∨ (s.threads child).load ≠ .loading) :
    ∃ rest, s.pc = .downing child child rest := by
  have known := ordered.known
  cases here : s.pc with
  | idle => exact absurd ((here ▸ known).2 child) busy
  | missed => exact (here ▸ known).elim
  | searching tid rest found =>
    rw [here] at known
    cases found with
    | true => exact absurd (known.2.1 child) busy
    | false =>
      obtain rfl : child = tid := by
        by_contra other
        exact busy (known.2.1 child other)
      simp [known.2.2.2] at past
  | storing tid thread rest =>
    rw [here] at known
    obtain rfl : child = tid := by
      by_contra other
      exact busy (known.2.1 child other)
    simp [known.2.2.2] at past
  | downing tid thread rest =>
    rw [here] at known
    obtain rfl : child = tid := by
      by_contra other
      exact busy (known.1 child other)
    exact ⟨rest, by rw [known.2.1]⟩
  | reading tid thread rest => exact absurd ((here ▸ known).2.1 child) busy

theorem Ordered.load {child : Nat} {success : Bool} (loading : (s.threads child).load = .loading)
    (parent : (s.threads child).parent = true) :
    Ordered (s.setThread child { s.threads child with
      load := .raising, tid := if success then (s.threads child).tid else -1 }) := by
  have busy : ¬ (s.threads child).settled := by simp [Thread.settled, loading]
  obtain ⟨rest, here⟩ := ordered.downing_of_unsettled busy (.inl parent)
  obtain ⟨settled, -, -, -, -, count⟩ : Known s (.downing child child rest) := here ▸ ordered.known
  refine ⟨?_, fun t => ?_⟩
  · rw [System.setThread_pc, here]
    refine ⟨fun t other => by simpa [other] using settled t other, rfl, ?_⟩
    simpa [parent, loading] using count
  · have := ordered.tids t
    simp only [System.setThread_threads]
    grind

theorem Ordered.raise {child : Nat} (raising : (s.threads child).load = .raising) : (s.threads child).parent = true ∧
      Ordered { s.setThread child { s.threads child with load := .finished } with waitForLoad := s.waitForLoad + 1 } := by
  have busy : ¬ (s.threads child).settled := by simp [Thread.settled, raising]
  obtain ⟨rest, here⟩ := ordered.downing_of_unsettled busy (.inr (by simp [raising]))
  obtain ⟨settled, -, parent, -, -, count⟩ : Known s (.downing child child rest) := here ▸ ordered.known
  refine ⟨parent, ?_, fun t => ?_⟩
  · simp only [System.setThread_pc, here]
    refine ⟨fun t other => by simpa [other] using settled t other, rfl, ?_⟩
    simpa [parent, raising] using count
  · have := ordered.tids t
    simp only [System.setThread_threads]
    grind

theorem Ordered.step {event : Event} (orderly : Orderly s event) (taken : step s event = some next) : Ordered next := by
  cases event with
  | create =>
    simp only [Registration.step] at taken
    split at taken <;> rename_i here
    · cases taken
      exact ordered.create here
    · cases taken
  | advance => exact ordered.advance taken
  | load child success =>
    simp only [Registration.step] at taken
    split at taken <;> rename_i loading
    · cases taken
      exact ordered.load loading orderly
    · cases taken
  | raise child =>
    simp only [Registration.step] at taken
    split at taken <;> rename_i raising
    · obtain ⟨parent, raised⟩ := ordered.raise raising
      rw [if_pos parent] at taken
      cases taken
      exact raised
    · cases taken

/-- The search comes to its child when the parent runs on. -/
theorem Ordered.finds {tid : Nat} {rest : List Nat} (here : s.pc = .searching tid rest false) :
    ∃ count next left, run Registration.step s (List.replicate count .advance) = some next ∧ next.pc = .storing tid tid left := by
  induction rest generalizing s with
  | nil =>
    have known := ordered.known
    rw [here] at known
    exact absurd known.2.2.1 List.not_mem_nil
  | cons thread rest ih =>
    by_cases match_ : (s.threads thread).tid = tid
    · have same : thread = tid := by
        rcases ordered.tids thread with own | failed <;> omega
      refine ⟨1, { s with pc := .storing tid thread rest }, rest, ?_, by rw [same]⟩
      simp [run, Registration.step, Registration.advance, here, match_]
    · have taken : Registration.step s .advance = some { s with pc := .searching tid rest false } := by
        simp [Registration.step, Registration.advance, here, match_]
      obtain ⟨count, next, left, reached, found⟩ := ih (ordered.advance taken) rfl
      exact ⟨count + 1, next, left, (run_cons_some _).mpr ⟨_, taken, reached⟩, found⟩

theorem Ordered.registers : Registers s where
  raised child loaded := by
    by_contra unset
    have busy : ¬ (s.threads child).settled := by simp [Thread.settled, loaded, unset]
    obtain ⟨rest, here⟩ := ordered.downing_of_unsettled busy (.inr (by simp [loaded]))
    obtain ⟨-, -, parent, -⟩ : Known s (.downing child child rest) := here ▸ ordered.known
    exact unset parent
  nonnull child faulted := by
    have busy : ¬ (s.threads child).settled := by simp [Thread.settled, faulted]
    obtain ⟨rest, here⟩ := ordered.downing_of_unsettled busy (.inr (by simp [faulted]))
    obtain ⟨-, -, -, -, unfaulted, -⟩ : Known s (.downing child child rest) := here ▸ ordered.known
    exact unfaulted faulted
  found missed := by
    have known := ordered.known
    rw [missed] at known
    exact known
  finds tid rest here := ordered.finds here
  reads tid thread rest here := by
    obtain ⟨-, -, rfl, loaded⟩ : Known s (.reading tid thread rest) := here ▸ ordered.known
    exact ⟨rfl, loaded⟩

end Steps

theorem ordered_boot (count : Nat) : Ordered (boot count) :=
  ⟨⟨rfl, fun _ => .inl rfl⟩, fun _ => .inl rfl⟩

/-- While no load ends before the parent has stored itself in the child, parent and child meet as intended. -/
theorem child_registration_ordered (count : Nat) (events : List Event) (s : System)
    (orderly : Along step Orderly (boot count) events) (reached : run step (boot count) events = some s) : Registers s :=
  (invariant_of_run step Ordered (fun _ _ _ ordered => ordered.step) (ordered_boot count) orderly reached).registers

/-- One child is loaded and registered; the next one's load fails. -/
def twoChildren : List Event :=
  [.create, .advance, .advance, .advance, .load 2 true, .raise 2, .advance, .advance,
    .create, .advance, .advance, .advance, .advance, .load 3 false, .raise 3, .advance, .advance]

theorem child_registration_ordered_twice :
    ∃ s, Along step Orderly (boot 1) twoChildren ∧ run step (boot 1) twoChildren = some s ∧ s.childList = [2] ∧ Registers s := by
  have orderly : Along step Orderly (boot 1) twoChildren := by decide +kernel
  have ends : ((run step (boot 1) twoChildren).any fun s => decide (s.childList = [2])) = true := by decide +kernel
  obtain ⟨s, reached, shape⟩ := (Option.any_eq_true _ _).mp ends
  exact ⟨s, orderly, reached, of_decide_eq_true shape, child_registration_ordered 1 twoChildren s orderly reached⟩

/-- A child that runs first raises a semaphore of the null pointer, or loses the tid its parent looks for. -/
theorem child_outruns_parent :
    (∃ s, run step (boot 1) [.create, .load 2 true, .raise 2] = some s ∧ (s.threads 2).load = .faulted) ∧
      ∃ s, run step (boot 1) [.create, .load 2 false, .advance, .advance, .advance] = some s ∧ s.pc = .missed :=
  ⟨⟨_, rfl, rfl⟩, ⟨_, rfl, rfl⟩⟩

end Pintos.Process.Registration
