import Mathlib.Data.List.Nodup
import Pintos.Semantics.Transition

/-! Waiting for a child to exit (`process_wait`, `thread_exit`).

Every thread may create children, wait for them and exit. A thread loses the
processor at any semaphore operation, so a step goes from one of them to the
next. A thread is known by its tid, and what it still has to do inside a kernel
routine is its program counter. The history kept beside the kernel's own data
is the status each child held when it raised `block_parent`, which children
were ever put on a list, and the returns of `process_wait`.
-/

set_option autoImplicit false

namespace Pintos.Process
open Semantics

inductive Pc where
  | absent
  | running
  /-- In `register_child_with_parent`, waiting for the child's load. -/
  | registering (child : Nat)
  -- `process_wait`, before `sema_down`, before reading the status, before `sema_up`
  | waitDown (child : Nat)
  | waitRead (child : Nat)
  | waitUp (child : Nat) (status : Int)
  -- `thread_exit`, at its loop over the children, before its `sema_up` and before its `sema_down`
  | exitChildren
  | exitUp
  | exitDown
  /-- The loop over the children has freed a list element and is about to read it: the kernel
  gets no further here, though other threads may run before it gets here. -/
  | lost
  /-- The thread is dying and its `struct thread` may be freed. -/
  | released
  deriving DecidableEq

/-- `struct thread`, as far as the handshake goes. -/
structure Thread where
  pc : Pc := .absent
  exitStatus : Int := 0
  parent : Option Nat := none
  childList : List Nat := []
  blockParent : Nat := 0
  blockChild : Nat := 0

/-- A completed `process_wait`: who called it with which tid, the child it found, and its value. -/
structure Return where
  caller : Nat
  tid : Int
  child : Option Nat
  value : Int
  deriving DecidableEq

structure System where
  threads : Nat → Thread
  raised : Nat → Option Int
  registered : List Nat
  returns : List Return

namespace System

def set (s : System) (thread : Nat) (value : Thread) : System :=
  { s with threads := Function.update s.threads thread value }

def goto (s : System) (thread : Nat) (pc : Pc) : System := s.set thread { s.threads thread with pc := pc }

def upBlockChild (s : System) (child : Nat) : System :=
  s.set child { s.threads child with blockChild := (s.threads child).blockChild + 1 }

def answer (s : System) (caller : Nat) (tid : Int) (child : Option Nat) (value : Int) : System :=
  { s with returns := s.returns ++ [⟨caller, tid, child, value⟩] }

end System

inductive Event where
  | create (parent child : Nat)
  | register (parent : Nat)
  | abandon (parent : Nat)
  | wait (parent : Nat) (tid : Int)
  | exit (thread : Nat) (status : Int)
  | advance (thread : Nat)

def advance (s : System) (cur : Nat) : Option System :=
  match (s.threads cur).pc with
  | .waitDown child =>
    if 0 < (s.threads child).blockParent then
      some ((s.set child { s.threads child with blockParent := (s.threads child).blockParent - 1 }).goto cur (.waitRead child))
    else none
  | .waitRead child =>
    some (s.set cur { s.threads cur with
      pc := .waitUp child (s.threads child).exitStatus, childList := (s.threads cur).childList.erase child })
  | .waitUp child status => some (((s.upBlockChild child).goto cur .running).answer cur child (some child) status)
  | .exitChildren =>
    match (s.threads cur).childList with
    | [] => some (s.goto cur .exitUp)
    | child :: _ => some ((s.upBlockChild child).goto cur .lost)
  | .exitUp =>
    some { s.set cur { s.threads cur with pc := .exitDown, blockParent := (s.threads cur).blockParent + 1 } with
      raised := Function.update s.raised cur (some (s.threads cur).exitStatus) }
  | .exitDown =>
    if (s.threads cur).parent = none then some (s.goto cur .released)
    else if 0 < (s.threads cur).blockChild then
      some (s.set cur { s.threads cur with pc := .released, blockChild := (s.threads cur).blockChild - 1 })
    else none
  | _ => none

def step (s : System) : Event → Option System
  | .create parent child =>
    if (s.threads parent).pc = .running ∧ (s.threads child).pc = .absent then
      some ((s.set child { pc := .running, parent := some parent }).goto parent (.registering child))
    else none
  | .register parent =>
    match (s.threads parent).pc with
    | .registering child =>
      some { s.set parent { s.threads parent with pc := .running, childList := (s.threads parent).childList ++ [child] } with
        registered := child :: s.registered }
    | _ => none
  -- the load failed: the parent lets the child go and keeps no record of it
  | .abandon parent =>
    match (s.threads parent).pc with
    | .registering child => some ((s.upBlockChild child).goto parent .running)
    | _ => none
  | .wait parent tid =>
    if (s.threads parent).pc = .running then
      match (s.threads parent).childList.find? fun child : Nat => decide ((child : Int) = tid) with
      | some child => some (s.goto parent (.waitDown child))
      | none => some (s.answer parent tid none (-1))
    else none
  | .exit thread status =>
    if (s.threads thread).pc = .running then
      some (s.set thread { s.threads thread with pc := .exitChildren, exitStatus := status })
    else none
  | .advance thread => advance s thread

def boot : System where
  threads thread := if thread = 1 then { pc := .running } else {}
  raised _ := none
  registered := []
  returns := []

def Pc.exiting : Pc → Bool
  | .exitChildren | .exitUp | .exitDown | .lost | .released => true
  | _ => false

def System.delivered (s : System) : List Nat := s.returns.filterMap Return.child

structure Contract (s : System) : Prop where
  /-- A wait that found a child returned the status the child raised `block_parent` with. -/
  delivers : ∀ r ∈ s.returns, ∀ child, r.child = some child → r.tid = child ∧ s.raised child = some r.value
  once : s.delivered.Nodup
  again : ∀ r ∈ s.returns, ∀ child, r.child = some child → (s.threads r.caller).pc = .running →
    step s (.wait r.caller child) = some (s.answer r.caller child none (-1))
  unlisted : ∀ caller tid, (s.threads caller).pc = .running →
    (∀ child ∈ (s.threads caller).childList, (child : Int) ≠ tid) →
    step s (.wait caller tid) = some (s.answer caller tid none (-1))
  listed : ∀ caller, ∀ child ∈ (s.threads caller).childList, (s.threads caller).pc = .running →
    step s (.wait caller child) = some (s.goto caller (.waitDown child))
  /-- A wait for a listed child that has raised `block_parent` returns its status in three steps. -/
  returns : ∀ caller child status, (s.threads caller).pc = .waitDown child → s.raised child = some status →
    ∃ next, run step s [.advance caller, .advance caller, .advance caller] = some next ∧
      (next.threads caller).pc = .running ∧ next.returns = s.returns ++ [⟨caller, child, some child, status⟩]
  kept : ∀ child ∈ s.registered, ∀ parent, (s.threads child).parent = some parent → (s.threads child).pc = .released →
    child ∈ s.delivered ∨ (s.threads parent).pc.exiting = true

inductive Place where
  | away
  | registering
  | listed
  | reading
  | upping (status : Int)
  | orphaned

def Thread.place (thread : Thread) (child : Nat) : Place :=
  match thread.pc with
  | .registering other => if other = child then .registering else if child ∈ thread.childList then .listed else .away
  | .waitRead other => if other = child then .reading else if child ∈ thread.childList then .listed else .away
  | .waitUp other status => if other = child then .upping status else if child ∈ thread.childList then .listed else .away
  | .lost => if child ∈ thread.childList then .orphaned else .away
  | _ => if child ∈ thread.childList then .listed else .away

def Thread.Sound (thread : Thread) : Prop :=
  thread.childList.Nodup ∧
    match thread.pc with
    | .absent => thread.childList = [] ∧ thread.parent = none
    | .registering child | .waitUp child _ => child ∉ thread.childList
    | .waitDown child | .waitRead child => child ∈ thread.childList
    | .exitUp | .exitDown | .released => thread.childList = []
    | .running | .exitChildren | .lost => True

def Thread.status (thread : Thread) : Option Int :=
  match thread.pc with
  | .exitDown | .released => some thread.exitStatus
  | _ => none

structure Record where
  parent : Option Nat
  blockParent : Nat
  blockChild : Nat
  released : Prop
  raised : Option Int
  registered : Prop
  delivered : Prop

def System.record (s : System) (child : Nat) : Record where
  parent := (s.threads child).parent
  blockParent := (s.threads child).blockParent
  blockChild := (s.threads child).blockChild
  released := (s.threads child).pc = .released
  raised := s.raised child
  registered := child ∈ s.registered
  delivered := child ∈ s.delivered

/-- The child has not been let go and its status has not been returned. -/
def Record.Owed (child : Record) : Prop := child.blockChild = 0 ∧ ¬ child.released ∧ ¬ child.delivered

/-- `block_parent` is up exactly when the child has raised it. -/
def Record.Pending (child : Record) : Prop := 0 < child.blockParent ↔ child.raised ≠ none

def Link (child : Record) : Place → Prop
  | .registering => ¬ child.registered ∧ child.Owed ∧ child.Pending
  | .listed => child.registered ∧ child.Owed ∧ child.Pending
  | .reading => child.registered ∧ child.Owed ∧ child.raised ≠ none
  | .upping status => child.registered ∧ child.Owed ∧ child.raised = some status
  | .orphaned => True
  | .away => child.registered → child.delivered

structure Linked (s : System) : Prop where
  sound : ∀ t, (s.threads t).Sound
  raised : ∀ t, s.raised t = (s.threads t).status
  apart : ∀ c, (s.threads c).parent ≠ some c
  known : ∀ c ∈ s.registered, (s.threads c).parent ≠ none
  parented : ∀ p c, (s.threads p).place c ≠ .away → (s.threads c).parent = some p
  linked : ∀ p c, (s.threads c).parent = some p → Link (s.record c) ((s.threads p).place c)

structure Recorded (s : System) : Prop where
  returned : ∀ r ∈ s.returns, ∀ c, r.child = some c →
    r.tid = c ∧ s.raised c = some r.value ∧ (s.threads c).parent = some r.caller
  once : s.delivered.Nodup

section Updates
variable {s next : System} {cur child : Nat}

@[simp] theorem set_threads (thread other : Nat) (value : Thread) :
    (s.set thread value).threads other = if other = thread then value else s.threads other := by
  simp [System.set, Function.update_apply]

@[simp] theorem set_raised (thread : Nat) (value : Thread) : (s.set thread value).raised = s.raised := rfl

@[simp] theorem set_registered (thread : Nat) (value : Thread) : (s.set thread value).registered = s.registered := rfl

@[simp] theorem set_returns (thread : Nat) (value : Thread) : (s.set thread value).returns = s.returns := rfl

theorem Linked.held {place : Place} (linked : Linked s) (placed : (s.threads cur).place child = place)
    (near : place ≠ .away) : (s.threads child).parent = some cur ∧ child ≠ cur ∧ Link (s.record child) place := by
  subst placed
  have parent := linked.parented cur child near
  refine ⟨parent, fun same => ?_, linked.linked cur child parent⟩
  subst same
  exact linked.apart child parent

/-- Every child is where it was with its parent, and only what is known of one thread changes. -/
theorem Linked.own (linked : Linked s) (cur : Nat) (sound : ∀ t, (next.threads t).Sound)
    (raised : ∀ t, next.raised t = (next.threads t).status) (registered : next.registered = s.registered)
    (places : ∀ p c, (next.threads p).place c = (s.threads p).place c)
    (parents : ∀ c, (next.threads c).parent = (s.threads c).parent)
    (records : ∀ c ≠ cur, next.record c = s.record c)
    (link : ∀ p, (s.threads cur).parent = some p → Link (next.record cur) ((s.threads p).place cur)) : Linked next := by
  refine ⟨sound, raised, fun c => ?_, fun c known => ?_, fun p c placed => ?_, fun p c parent => ?_⟩
  · rw [parents]
    exact linked.apart c
  · rw [parents]
    exact linked.known c (registered ▸ known)
  · rw [parents]
    exact linked.parented p c (places p c ▸ placed)
  · rw [parents] at parent
    rw [places]
    by_cases same : c = cur
    · subst same
      exact link p parent
    · rw [records c same]
      exact linked.linked p c parent

/-- A step of a parent that concerns one child: the parent's other children stay
where they were, and what is known of them and of the parent stays the same. -/
theorem Linked.focus (linked : Linked s) (sound : ∀ t, (next.threads t).Sound)
    (raised : ∀ t, next.raised t = (next.threads t).status)
    (places : ∀ p c, c ≠ child → (next.threads p).place c = (s.threads p).place c)
    (others : ∀ p ≠ cur, (next.threads p).place child = (s.threads p).place child)
    (records : ∀ c ≠ child, next.record c = s.record c) (parent : (next.threads child).parent = some cur)
    (apart : child ≠ cur) (before : ∀ p, (s.threads p).place child ≠ .away → p = cur)
    (link : Link (next.record child) ((next.threads cur).place child)) : Linked next := by
  have parents : ∀ c ≠ child, (next.threads c).parent = (s.threads c).parent :=
    fun c ne => congrArg Record.parent (records c ne)
  refine ⟨sound, raised, fun c => ?_, fun c known => ?_, fun p c placed => ?_, fun p c parented => ?_⟩
  · by_cases same : c = child
    · subst same
      rw [parent]
      exact fun equal => apart (Option.some.inj equal).symm
    · rw [parents c same]
      exact linked.apart c
  · by_cases same : c = child
    · subst same
      rw [parent]
      exact Option.some_ne_none cur
    · have flag : (next.record c).registered = (s.record c).registered := by rw [records c same]
      rw [parents c same]
      exact linked.known c (flag.mp known)
  · by_cases same : c = child
    · subst same
      by_cases mine : p = cur
      · rw [mine, parent]
      · rw [others p mine] at placed
        exact absurd (before p placed) mine
    · rw [places p c same] at placed
      rw [parents c same]
      exact linked.parented p c placed
  · by_cases same : c = child
    · subst same
      cases parent.symm.trans parented
      exact link
    · rw [records c same, places p c same]
      exact linked.linked p c (parents c same ▸ parented)

/-- Returns recorded stay right while raised statuses and parents stay. -/
theorem Recorded.later (recorded : Recorded s) (returns : next.returns = s.returns)
    (raised : ∀ c status, s.raised c = some status → next.raised c = some status)
    (parents : ∀ c p, (s.threads c).parent = some p → (next.threads c).parent = some p) : Recorded next := by
  refine ⟨fun r inside c found => ?_, ?_⟩
  · obtain ⟨tid, value, parent⟩ := recorded.returned r (returns ▸ inside) c found
    exact ⟨tid, raised c _ value, parents c _ parent⟩
  · rw [System.delivered, returns]
    exact recorded.once

end Updates

section Steps
variable {s : System} {cur child : Nat}

variable {value : Thread} {status : Int}

theorem sound_set {thread : Nat} (sound : ∀ t, (s.threads t).Sound) (valid : value.Sound) :
    ∀ t, ((s.set thread value).threads t).Sound := by
  intro t
  rw [set_threads]
  split
  · exact valid
  · exact sound t

theorem raised_set {thread : Nat} (raised : ∀ t, s.raised t = (s.threads t).status)
    (same : value.status = (s.threads thread).status) :
    ∀ t, (s.set thread value).raised t = ((s.set thread value).threads t).status := by
  intro t
  rw [set_threads, set_raised]
  split <;> rename_i at_
  · subst at_
    rw [same, raised]
  · exact raised t

structure Thread.Steady (next thread : Thread) : Prop where
  sound : next.Sound
  status : next.status = thread.status
  parent : next.parent = thread.parent
  blockParent : next.blockParent = thread.blockParent
  blockChild : next.blockChild = thread.blockChild
  released : next.pc = .released ↔ thread.pc = .released

section
variable (linked : Linked s)
include linked

/-- A thread moves between program points at which none of its children changes place. -/
theorem Linked.moves (steady : value.Steady (s.threads cur))
    (places : ∀ c, value.place c = (s.threads cur).place c) : Linked (s.set cur value) := by
  have records : ∀ c, (s.set cur value).record c = s.record c := by
    intro c
    simp only [System.record, set_threads, set_raised, set_registered, System.delivered, set_returns]
    split <;> rename_i at_
    · subst at_
      simp [steady.parent, steady.blockParent, steady.blockChild, steady.released]
    · rfl
  refine linked.own cur (sound_set linked.sound steady.sound) (raised_set linked.raised steady.status) rfl (fun p c => ?_)
    (fun c => ?_) (fun c _ => records c) fun p parented => (records cur).symm ▸ linked.linked p cur parented
  · rw [set_threads]
    split <;> rename_i at_
    · subst at_
      exact places c
    · rfl
  · exact congrArg Record.parent (records c)

theorem Linked.exit (here : (s.threads cur).pc = .running) :
    Linked (s.set cur { s.threads cur with pc := .exitChildren, exitStatus := status }) := by
  refine linked.moves ⟨⟨(linked.sound cur).1, trivial⟩, ?_, rfl, rfl, rfl, ?_⟩ fun c => ?_
  · simp [Thread.status, here]
  · simp [here]
  · simp [Thread.place, here]

theorem Linked.waits (here : (s.threads cur).pc = .running) (listed : child ∈ (s.threads cur).childList) :
    Linked (s.goto cur (.waitDown child)) := by
  refine linked.moves ⟨⟨(linked.sound cur).1, listed⟩, ?_, rfl, rfl, rfl, ?_⟩ fun c => ?_
  · simp [Thread.status, here]
  · simp [here]
  · simp [Thread.place, here]

theorem Linked.childless (here : (s.threads cur).pc = .exitChildren)
    (none : (s.threads cur).childList = []) : Linked (s.goto cur .exitUp) := by
  refine linked.moves ⟨⟨(linked.sound cur).1, none⟩, ?_, rfl, rfl, rfl, ?_⟩ fun c => ?_
  · simp [Thread.status, here]
  · simp [here]
  · simp [Thread.place, here]

/-- A parent's step that concerns one child, whose semaphores may change. -/
theorem Linked.hands {next : System} (value kid : Thread)
    (threads : next.threads = Function.update (Function.update s.threads child kid) cur value)
    (raised : next.raised = s.raised) (steady : value.Steady (s.threads cur)) (valid : kid.Sound)
    (status : kid.status = (s.threads child).status) (apart : child ≠ cur) (mine : kid.parent = some cur)
    (before : ∀ p, (s.threads p).place child ≠ .away → p = cur)
    (places : ∀ c ≠ child, value.place c = (s.threads cur).place c)
    (kidPlaces : ∀ c, kid.place c = (s.threads child).place c)
    (known : ∀ c ≠ child, c ∈ next.registered ↔ c ∈ s.registered)
    (delivered : ∀ c ≠ child, c ∈ next.delivered ↔ c ∈ s.delivered)
    (link : Link ⟨some cur, kid.blockParent, kid.blockChild, kid.pc = .released, s.raised child,
      child ∈ next.registered, child ∈ next.delivered⟩ (value.place child)) : Linked next := by
  have at_ : ∀ t, next.threads t = if t = cur then value else if t = child then kid else s.threads t := by
    simp [threads, Function.update_apply]
  refine linked.focus (fun t => ?_) (fun t => ?_) (fun p c ne => ?_) (fun p ne => ?_) (fun c ne => ?_) ?_ apart before ?_
  · grind [linked.sound t, steady.sound]
  · grind [linked.raised t, steady.status]
  · grind
  · grind
  · have := known c ne
    have := delivered c ne
    by_cases same : c = cur
    · subst same
      simp [System.record, steady.parent, steady.blockParent, steady.blockChild, steady.released, *]
    · simp [System.record, *]
  · simp [at_, apart, mine]
  · simpa [System.record, at_, raised, apart, mine] using link

theorem Linked.only_parent (parent : (s.threads child).parent = some cur) (p : Nat)
    (placed : (s.threads p).place child ≠ .away) : p = cur :=
  Option.some.inj ((linked.parented p child placed).symm.trans parent)

end

theorem Recorded.parent_of_delivered (recorded : Recorded s) (inside : child ∈ s.delivered) :
    (s.threads child).parent ≠ none := by
  obtain ⟨r, returned, found⟩ := List.mem_filterMap.mp inside
  simp [(recorded.returned r returned child found).2.2]

section
variable (linked : Linked s)
include linked

theorem Linked.create (recorded : Recorded s) (here : (s.threads cur).pc = .running)
    (fresh : (s.threads child).pc = .absent) :
    Linked ((s.set child { pc := .running, parent := some cur }).goto cur (.registering child)) := by
  have apart : child ≠ cur := by
    rintro rfl
    simp [here] at fresh
  obtain ⟨empty, parentless⟩ : (s.threads child).childList = [] ∧ (s.threads child).parent = none := by
    simpa [Thread.Sound, fresh] using (linked.sound child).2
  have nowhere : ∀ p, (s.threads p).place child ≠ .away → p = cur := by
    intro p placed
    simp [linked.parented p child placed] at parentless
  have unlisted : child ∉ (s.threads cur).childList := by
    intro listed
    have placed : (s.threads cur).place child ≠ .away := by simp [Thread.place, here, listed]
    simp [linked.parented cur child placed] at parentless
  have quiet : s.raised child = none := by simp [linked.raised, Thread.status, fresh]
  refine linked.hands { s.threads cur with pc := .registering child } { pc := .running, parent := some cur } ?_ rfl
    ⟨⟨(linked.sound cur).1, unlisted⟩, ?_, rfl, rfl, rfl, ?_⟩ ?_ ?_ apart rfl nowhere (fun c ne => ?_) (fun c => ?_)
    (fun c _ => Iff.rfl) (fun c _ => Iff.rfl) ?_
  · simp [System.goto, System.set, apart.symm]
  · simp [Thread.status, here]
  · simp [here]
  · simp [Thread.Sound]
  · simp [Thread.status, fresh]
  · simp [Thread.place, here, Ne.symm ne]
  · simp [Thread.place, fresh, empty]
  · have unknown : child ∉ s.registered := fun known => linked.known child known parentless
    have unreturned : child ∉ s.delivered := fun returned => recorded.parent_of_delivered returned parentless
    simpa [Thread.place, Link, Record.Owed, Record.Pending, quiet, System.goto] using ⟨unknown, unreturned⟩

/-- The load of a new child is over, and its parent goes on without it or with it on its list. -/
theorem Linked.register (here : (s.threads cur).pc = .registering child) :
    Linked { s.set cur { s.threads cur with pc := .running, childList := (s.threads cur).childList ++ [child] } with
      registered := child :: s.registered } := by
  have placed : (s.threads cur).place child = .registering := by simp [Thread.place, here]
  obtain ⟨parent, apart, -, owed, pending⟩ := linked.held placed nofun
  have fresh : child ∉ (s.threads cur).childList := by simpa [Thread.Sound, here] using (linked.sound cur).2
  refine linked.hands { s.threads cur with pc := .running, childList := (s.threads cur).childList ++ [child] }
    (s.threads child) (by simp [System.set]) rfl ⟨⟨?_, trivial⟩, ?_, rfl, rfl, rfl, ?_⟩ (linked.sound child) rfl apart parent (linked.only_parent parent) (fun c ne => ?_) (fun _ => rfl)
    (fun c ne => by simp [ne]) (fun c _ => Iff.rfl) ?_
  · exact List.nodup_append.mpr ⟨(linked.sound cur).1, by simp, by grind⟩
  · simp [Thread.status, here]
  · simp [here]
  · simp [Thread.place, here, ne, Ne.symm ne]
  · rw [show Thread.place _ child = .listed by simp [Thread.place]]
    exact ⟨List.mem_cons_self, owed, pending⟩

theorem Linked.abandon (here : (s.threads cur).pc = .registering child) :
    Linked ((s.upBlockChild child).goto cur .running) := by
  have placed : (s.threads cur).place child = .registering := by simp [Thread.place, here]
  obtain ⟨parent, apart, unknown, -, -⟩ := linked.held placed nofun
  have fresh : child ∉ (s.threads cur).childList := by simpa [Thread.Sound, here] using (linked.sound cur).2
  refine linked.hands { s.threads cur with pc := .running }
    { s.threads child with blockChild := (s.threads child).blockChild + 1 } ?_ rfl
    ⟨⟨(linked.sound cur).1, trivial⟩, ?_, rfl, rfl, rfl, ?_⟩ (linked.sound child) rfl apart parent
    (linked.only_parent parent) (fun c ne => ?_) (fun _ => rfl) (fun c _ => Iff.rfl) (fun c _ => Iff.rfl) ?_
  · simp [System.goto, System.upBlockChild, System.set, apart.symm]
  · simp [Thread.status, here]
  · simp [here]
  · simp [Thread.place, here, Ne.symm ne]
  · rw [show Thread.place _ child = .away by simp [Thread.place, fresh]]
    exact fun known => absurd known unknown

/-- `sema_down (&child->block_parent)` in `process_wait`. -/
theorem Linked.waitDown (here : (s.threads cur).pc = .waitDown child) (up : 0 < (s.threads child).blockParent) :
    Linked ((s.set child { s.threads child with blockParent := (s.threads child).blockParent - 1 }).goto cur
      (.waitRead child)) := by
  have listed : child ∈ (s.threads cur).childList := by simpa [Thread.Sound, here] using (linked.sound cur).2
  have placed : (s.threads cur).place child = .listed := by simp [Thread.place, here, listed]
  obtain ⟨parent, apart, known, owed, pending⟩ := linked.held placed nofun
  refine linked.hands { s.threads cur with pc := .waitRead child }
    { s.threads child with blockParent := (s.threads child).blockParent - 1 } ?_ rfl
    ⟨⟨(linked.sound cur).1, listed⟩, ?_, rfl, rfl, rfl, ?_⟩ (linked.sound child) rfl apart parent
    (linked.only_parent parent) (fun c ne => ?_) (fun _ => rfl) (fun c _ => Iff.rfl) (fun c _ => Iff.rfl) ?_
  · simp [System.goto, System.set, apart.symm]
  · simp [Thread.status, here]
  · simp [here]
  · simp [Thread.place, here, Ne.symm ne]
  · rw [show Thread.place _ child = .reading by simp [Thread.place]]
    exact ⟨known, owed, pending.mp up⟩

/-- `stat = child->exit_status` and the removal of the list element. -/
theorem Linked.waitRead (here : (s.threads cur).pc = .waitRead child) : Linked (s.set cur { s.threads cur with
      pc := .waitUp child (s.threads child).exitStatus, childList := (s.threads cur).childList.erase child }) := by
  have placed : (s.threads cur).place child = .reading := by simp [Thread.place, here]
  obtain ⟨parent, apart, known, owed, raised⟩ := linked.held placed nofun
  have nodup := (linked.sound cur).1
  refine linked.hands { s.threads cur with
      pc := .waitUp child (s.threads child).exitStatus, childList := (s.threads cur).childList.erase child }
    (s.threads child) (by simp [System.set]) rfl ⟨⟨nodup.erase child, ?_⟩, ?_, rfl, rfl, rfl, ?_⟩ (linked.sound child) rfl apart parent (linked.only_parent parent) (fun c ne => ?_) (fun _ => rfl)
    (fun c _ => Iff.rfl) (fun c _ => Iff.rfl) ?_
  · exact nodup.not_mem_erase
  · simp [Thread.status, here]
  · simp [here]
  · simp [Thread.place, here, Ne.symm ne, List.mem_erase_of_ne ne]
  · rw [show Thread.place _ child = .upping (s.threads child).exitStatus by simp [Thread.place]]
    refine ⟨known, owed, ?_⟩
    have status := linked.raised child
    simp only [System.record] at raised
    -- a status that has been raised is the one the thread still holds
    unfold Thread.status at status
    split at status <;> simp_all

/-- `sema_up (&child->block_child)` and the return of `process_wait`. -/
theorem Linked.waitUp (here : (s.threads cur).pc = .waitUp child status) :
    Linked (((s.upBlockChild child).goto cur .running).answer cur child (some child) status) := by
  have unlisted : child ∉ (s.threads cur).childList := by simpa [Thread.Sound, here] using (linked.sound cur).2
  have placed : (s.threads cur).place child = .upping status := by simp [Thread.place, here]
  obtain ⟨parent, apart, -⟩ := linked.held placed nofun
  refine linked.hands { s.threads cur with pc := .running }
    { s.threads child with blockChild := (s.threads child).blockChild + 1 } ?_ rfl
    ⟨⟨(linked.sound cur).1, trivial⟩, ?_, rfl, rfl, rfl, ?_⟩ (linked.sound child) rfl apart parent
    (linked.only_parent parent) (fun c ne => ?_) (fun _ => rfl) (fun c _ => Iff.rfl) (fun c ne => ?_) ?_
  · simp [System.answer, System.goto, System.upBlockChild, System.set, apart.symm]
  · simp [Thread.status, here]
  · simp [here]
  · simp [Thread.place, here, Ne.symm ne]
  · simp [System.delivered, System.answer, System.goto, System.upBlockChild, System.set, ne]
  · rw [show Thread.place _ child = .away by simp [Thread.place, unlisted]]
    intro _
    simp [System.delivered, System.answer]

/-- A thread exits with children on its list: from then on they owe it nothing. -/
theorem Linked.lost {rest : List Nat} (here : (s.threads cur).pc = .exitChildren)
    (children : (s.threads cur).childList = child :: rest) : Linked ((s.upBlockChild child).goto cur .lost) := by
  have placed : (s.threads cur).place child = .listed := by simp [Thread.place, here, children]
  obtain ⟨parent, apart, -⟩ := linked.held placed nofun
  have threads : ∀ t, ((s.upBlockChild child).goto cur .lost).threads t =
      if t = cur then { s.threads cur with pc := .lost }
      else if t = child then { s.threads child with blockChild := (s.threads child).blockChild + 1 } else s.threads t := by
    simp [System.goto, System.upBlockChild, apart.symm]
  have parents : ∀ t, (((s.upBlockChild child).goto cur .lost).threads t).parent = (s.threads t).parent := by
    intro t
    grind
  have records : ∀ c ≠ child, ((s.upBlockChild child).goto cur .lost).record c = s.record c := by
    intro c ne
    by_cases same : c = cur
    · subst same
      simp [System.record, threads, here]
      exact ⟨rfl, Iff.rfl, Iff.rfl⟩
    · simp [System.record, threads, ne, same]
      exact ⟨rfl, Iff.rfl, Iff.rfl⟩
  have places : ∀ p ≠ cur, ∀ c, (((s.upBlockChild child).goto cur .lost).threads p).place c = (s.threads p).place c := by
    intro p ne c
    simp only [threads, if_neg ne]
    split <;> rename_i at_
    · subst at_
      rfl
    · rfl
  refine ⟨fun t => ?_, fun t => ?_, fun c => ?_, fun c known => ?_, fun p c near => ?_, fun p c parented => ?_⟩
  · have := linked.sound t
    grind [Thread.Sound]
  · refine raised_set (raised_set linked.raised (by rfl)) ?_ t
    simp [Thread.status, here, apart.symm]
  · rw [parents]
    exact linked.apart c
  · rw [parents]
    exact linked.known c known
  · rw [parents]
    by_cases mine : p = cur
    · subst mine
      refine linked.parented p c fun away => near ?_
      simp_all [Thread.place]
    · exact linked.parented p c (places p mine c ▸ near)
  · rw [parents] at parented
    by_cases mine : p = cur
    · subst mine
      rw [threads, if_pos rfl]
      by_cases listed : c ∈ (s.threads p).childList
      · simp [Thread.place, listed, Link]
      · have ne : c ≠ child := by
          rintro rfl
          simp [children] at listed
        rw [records c ne]
        simpa [Thread.place, listed, here] using linked.linked p c parented
    · rw [places p mine, records c fun same => mine ?_]
      · exact linked.linked p c parented
      · subst same
        exact Option.some.inj (parented.symm.trans parent)

theorem Linked.exitUp (here : (s.threads cur).pc = .exitUp) :
    Linked { s.set cur { s.threads cur with pc := .exitDown, blockParent := (s.threads cur).blockParent + 1 } with
      raised := Function.update s.raised cur (some (s.threads cur).exitStatus) } := by
  have quiet : s.raised cur = none := by simp [linked.raised, Thread.status, here]
  have empty : (s.threads cur).childList = [] := by simpa [Thread.Sound, here] using (linked.sound cur).2
  refine linked.own cur (sound_set linked.sound ⟨(linked.sound cur).1, empty⟩) (fun t => ?_) rfl (fun p c => ?_)
    (fun c => ?_) (fun c ne => ?_) fun p parent => ?_
  · by_cases same : t = cur
    · simp [same, Thread.status]
    · simp [same, linked.raised]
  · simp only [set_threads]
    split <;> rename_i at_
    · simp [at_, Thread.place, here]
    · rfl
  · simp only [set_threads]
    split <;> rename_i at_
    · simp [at_]
    · rfl
  · simp [System.record, ne, System.delivered]
  · have link := linked.linked p cur parent
    cases place : (s.threads p).place cur <;>
      simp_all [Link, System.record, Record.Owed, Record.Pending, System.delivered]

theorem Linked.exitDown {blockChild : Nat} (here : (s.threads cur).pc = .exitDown)
    (freed : (s.threads cur).parent = none ∨ 0 < (s.threads cur).blockChild) :
    Linked (s.set cur { s.threads cur with pc := .released, blockChild := blockChild }) := by
  have empty : (s.threads cur).childList = [] := by simpa [Thread.Sound, here] using (linked.sound cur).2
  refine linked.own cur (sound_set linked.sound ⟨(linked.sound cur).1, empty⟩) (raised_set linked.raised ?_) rfl
    (fun p c => ?_) (fun c => ?_) (fun c ne => ?_) fun p parent => ?_
  · simp [Thread.status, here]
  · simp only [set_threads]
    split <;> rename_i at_
    · simp [at_, Thread.place, here]
    · rfl
  · simp only [set_threads]
    split <;> rename_i at_
    · rw [at_]
    · rfl
  · simp [System.record, ne, System.delivered]
  · have link := linked.linked p cur parent
    have up : 0 < (s.threads cur).blockChild := by simpa [parent] using freed
    -- a child that is still owed to its parent cannot get past `sema_down`
    cases place : (s.threads p).place cur <;>
      simp_all [Link, System.record, Record.Owed, System.delivered]

end

theorem delivered_answer_none (caller : Nat) (tid value : Int) : (s.answer caller tid none value).delivered = s.delivered := by
  simp [System.delivered, System.answer]

theorem Linked.refuses (linked : Linked s) (tid : Int) : Linked (s.answer cur tid none (-1)) := by
  have records : ∀ c, (s.answer cur tid none (-1)).record c = s.record c := by
    intro c
    simp only [System.record, delivered_answer_none]
    rfl
  exact linked.own cur linked.sound linked.raised rfl (fun _ _ => rfl) (fun _ => rfl) (fun c _ => records c)
    fun p parent => records cur ▸ linked.linked p cur parent

theorem Recorded.refuses (recorded : Recorded s) (tid : Int) : Recorded (s.answer cur tid none (-1)) := by
  refine ⟨fun r inside c found => ?_, ?_⟩
  · rcases List.mem_append.mp inside with before | last
    · exact recorded.returned r before c found
    · rw [List.mem_singleton.mp last] at found
      cases found
  · rw [delivered_answer_none]
    exact recorded.once

theorem Recorded.set (recorded : Recorded s) (parent : ∀ p, (s.threads cur).parent = some p → value.parent = some p) :
    Recorded (s.set cur value) := by
  refine recorded.later rfl (fun _ _ raised => raised) fun c p parented => ?_
  rw [set_threads]
  split <;> rename_i at_
  · subst at_
    exact parent p parented
  · exact parented

theorem Recorded.goto {pc : Pc} (recorded : Recorded s) : Recorded (s.goto cur pc) := recorded.set fun _ parent => parent

theorem Recorded.upBlockChild (recorded : Recorded s) : Recorded (s.upBlockChild child) :=
  recorded.set fun _ parent => parent

theorem Recorded.create (linked : Linked s) (recorded : Recorded s) (fresh : (s.threads child).pc = .absent) :
    Recorded ((s.set child { pc := .running, parent := some cur }).goto cur (.registering child)) := by
  refine (recorded.set fun p parent => ?_).goto
  have parentless : (s.threads child).childList = [] ∧ (s.threads child).parent = none := by
    simpa [Thread.Sound, fresh] using (linked.sound child).2
  simp [parentless.2] at parent

theorem Recorded.exitUp (linked : Linked s) (recorded : Recorded s) (here : (s.threads cur).pc = .exitUp) :
    Recorded { s.set cur { s.threads cur with pc := .exitDown, blockParent := (s.threads cur).blockParent + 1 } with
      raised := Function.update s.raised cur (some (s.threads cur).exitStatus) } := by
  have quiet : s.raised cur = none := by simp [linked.raised, Thread.status, here]
  refine recorded.later rfl (fun c status raised => ?_) fun c p parented => ?_
  · have ne : c ≠ cur := by
      rintro rfl
      simp [quiet] at raised
    simpa [ne] using raised
  · simp only [set_threads]
    split <;> rename_i at_
    · exact at_ ▸ parented
    · exact parented

theorem Recorded.waitUp (linked : Linked s) (recorded : Recorded s) (here : (s.threads cur).pc = .waitUp child status) :
    Recorded (((s.upBlockChild child).goto cur .running).answer cur child (some child) status) := by
  have placed : (s.threads cur).place child = .upping status := by simp [Thread.place, here]
  obtain ⟨parent, -, -, owed, raised⟩ := linked.held placed nofun
  have kept : Recorded ((s.upBlockChild child).goto cur .running) := recorded.upBlockChild.goto
  refine ⟨fun r inside c found => ?_, ?_⟩
  · rcases List.mem_append.mp inside with before | last
    · exact kept.returned r before c found
    · rw [List.mem_singleton.mp last] at found ⊢
      obtain rfl := Option.some.inj found
      refine ⟨rfl, raised, ?_⟩
      simp only [System.answer, System.goto, System.upBlockChild, set_threads]
      grind
  · have fresh : child ∉ s.delivered := owed.2.2
    have grown : (((s.upBlockChild child).goto cur .running).answer cur child (some child) status).delivered =
        s.delivered ++ [child] := by
      simp [System.delivered, System.answer, System.goto, System.upBlockChild]
    rw [grown]
    exact List.nodup_append.mpr ⟨recorded.once, List.nodup_singleton child, by grind⟩

end Steps

section Runs
variable {s next : System}

theorem kept_advance {cur : Nat} (linked : Linked s) (recorded : Recorded s) (taken : advance s cur = some next) :
    Linked next ∧ Recorded next := by
  unfold advance at taken
  split at taken <;> rename_i here
  · split at taken <;> rename_i up
    · cases taken
      refine ⟨linked.waitDown here up, Recorded.goto ?_⟩
      exact recorded.set fun _ parent => parent
    · cases taken
  · cases taken
    exact ⟨linked.waitRead here, recorded.set fun _ parent => parent⟩
  · cases taken
    exact ⟨linked.waitUp here, recorded.waitUp linked here⟩
  · split at taken <;> rename_i children
    · cases taken
      exact ⟨linked.childless here children, recorded.goto⟩
    · cases taken
      exact ⟨linked.lost here children, recorded.upBlockChild.goto⟩
  · cases taken
    exact ⟨linked.exitUp here, recorded.exitUp linked here⟩
  · split at taken <;> rename_i parentless
    · cases taken
      exact ⟨linked.exitDown here (.inl parentless), recorded.goto⟩
    · split at taken <;> rename_i up
      · cases taken
        exact ⟨linked.exitDown here (.inr up), recorded.set fun _ parent => parent⟩
      · cases taken
  · cases taken

theorem kept_step {event : Event} (linked : Linked s) (recorded : Recorded s) (taken : step s event = some next) :
    Linked next ∧ Recorded next := by
  cases event with
  | create parent child =>
    simp only [step] at taken
    split at taken <;> rename_i enabled
    · cases taken
      exact ⟨linked.create recorded enabled.1 enabled.2, recorded.create linked enabled.2⟩
    · cases taken
  | register parent =>
    simp only [step] at taken
    split at taken <;> rename_i here
    · cases taken
      refine ⟨linked.register here, recorded.later rfl (fun _ _ raised => raised) fun c p parented => ?_⟩
      rw [← parented, set_threads]
      split <;> rename_i at_
      · rw [at_]
      · rfl
    · cases taken
  | abandon parent =>
    simp only [step] at taken
    split at taken <;> rename_i here
    · cases taken
      exact ⟨linked.abandon here, recorded.upBlockChild.goto⟩
    · cases taken
  | wait parent tid =>
    simp only [step] at taken
    split at taken <;> rename_i here
    · split at taken <;> rename_i found
      · cases taken
        exact ⟨linked.waits here (List.mem_of_find?_eq_some found), recorded.goto⟩
      · cases taken
        exact ⟨linked.refuses tid, recorded.refuses tid⟩
    · cases taken
  | exit thread status =>
    simp only [step] at taken
    split at taken <;> rename_i here
    · cases taken
      exact ⟨linked.exit here, recorded.set fun _ parent => parent⟩
    · cases taken
  | advance thread => exact kept_advance linked recorded taken

theorem linked_boot : Linked boot where
  sound t := by
    by_cases first : t = 1 <;> simp [boot, Thread.Sound, first]
  raised t := by
    by_cases first : t = 1 <;> simp [boot, Thread.status, first]
  apart t := by
    by_cases first : t = 1 <;> simp [boot, first]
  known := by simp [boot]
  parented p c := by
    by_cases first : p = 1 <;> simp [boot, Thread.place, first]
  linked p c := by
    by_cases first : c = 1 <;> simp [boot, first]

theorem recorded_boot : Recorded boot := by
  constructor <;> simp [boot, System.delivered]

theorem kept_run {events : List Event} (reached : run step boot events = some s) : Linked s ∧ Recorded s :=
  invariant_of_reached step (fun s => Linked s ∧ Recorded s) (fun _ _ _ held taken => kept_step held.1 held.2 taken)
    ⟨linked_boot, recorded_boot⟩ reached

variable {caller child : Nat}

theorem wait_unlisted {tid : Int} (here : (s.threads caller).pc = .running)
    (unlisted : ∀ child ∈ (s.threads caller).childList, (child : Int) ≠ tid) :
    step s (.wait caller tid) = some (s.answer caller tid none (-1)) := by
  have missing : ((s.threads caller).childList.find? fun child : Nat => decide ((child : Int) = tid)) = none := by
    simpa [List.find?_eq_none] using unlisted
  simp [step, here, missing]

theorem wait_listed (here : (s.threads caller).pc = .running) (listed : child ∈ (s.threads caller).childList) :
    step s (.wait caller child) = some (s.goto caller (.waitDown child)) := by
  cases search : (s.threads caller).childList.find? fun other : Nat => decide ((other : Int) = child) with
  | none => simpa using List.find?_eq_none.mp search child listed
  | some other =>
    have same : other = child := Int.ofNat.inj (by simpa using List.find?_some search)
    rw [same] at search
    simp only [step, here, if_true]
    rw [search]

/-- The status raised with `block_parent` is the one the thread holds from then on. -/
theorem Linked.status_of_raised {status : Int} (linked : Linked s) (raised : s.raised child = some status) :
    (s.threads child).exitStatus = status := by
  have held := linked.raised child
  unfold Thread.status at held
  split at held <;> simp_all

theorem Linked.wait_returns {status : Int} (linked : Linked s) (here : (s.threads caller).pc = .waitDown child)
    (raised : s.raised child = some status) :
    ∃ next, run step s [.advance caller, .advance caller, .advance caller] = some next ∧
      (next.threads caller).pc = .running ∧ next.returns = s.returns ++ [⟨caller, child, some child, status⟩] := by
  have listed : child ∈ (s.threads caller).childList := by simpa [Thread.Sound, here] using (linked.sound caller).2
  have placed : (s.threads caller).place child = .listed := by simp [Thread.place, here, listed]
  obtain ⟨-, apart, -, -, pending⟩ := linked.held placed nofun
  have up : 0 < (s.threads child).blockParent := pending.mpr (by simp [System.record, raised])
  have status_ := linked.status_of_raised raised
  simp [run, step, advance, here, up, System.goto, System.upBlockChild, System.answer, apart, apart.symm, status_]

theorem Linked.delivered_of_released {parent : Nat} (linked : Linked s) (known : child ∈ s.registered)
    (mine : (s.threads child).parent = some parent) (gone : (s.threads child).pc = .released) :
    child ∈ s.delivered ∨ (s.threads parent).pc.exiting = true := by
  have link := linked.linked parent child mine
  cases place : (s.threads parent).place child with
  | away =>
    rw [place] at link
    exact .inl (link known)
  | orphaned =>
    -- only a thread lost in its exit has let its children go unread
    refine .inr ?_
    unfold Thread.place at place
    split at place <;> grind [Pc.exiting]
  | registering | listed | reading | upping status =>
    rw [place] at link
    exact absurd gone link.2.1.2.1

theorem Linked.contract (linked : Linked s) (recorded : Recorded s) : Contract s where
  delivers r inside child found := by
    obtain ⟨tid, value, -⟩ := recorded.returned r inside child found
    exact ⟨tid, value⟩
  once := recorded.once
  again r inside child found here := by
    refine wait_unlisted here fun other listed same => ?_
    obtain rfl : other = child := Int.ofNat.inj same
    have placed : (s.threads r.caller).place other = .listed := by simp [Thread.place, here, listed]
    obtain ⟨-, -, -, owed, -⟩ := linked.held placed nofun
    exact owed.2.2 (List.mem_filterMap.mpr ⟨r, inside, found⟩)
  unlisted caller tid here unlisted := wait_unlisted here unlisted
  listed caller child listed here := wait_listed here listed
  returns caller child status here raised := linked.wait_returns here raised
  kept child known parent mine gone := linked.delivered_of_released known mine gone

end Runs

/-- In every interleaving of waits and exits, `process_wait` keeps its contract. -/
theorem process_wait_contract (events : List Event) (s : System) (reached : run step boot events = some s) :
    Contract s :=
  (kept_run reached).1.contract (kept_run reached).2

/-- Two children exit, the second while the first is being waited for, and a third wait finds nothing. -/
def siblings : List Event :=
  [.create 1 2, .register 1, .create 1 3, .register 1, .wait 1 2, .exit 3 7, .advance 3, .advance 3,
    .exit 2 5, .advance 2, .advance 2, .advance 1, .advance 1, .advance 1, .advance 2,
    .wait 1 3, .advance 1, .advance 1, .advance 1, .wait 1 3]

theorem process_wait_contract_siblings :
    ∃ s, run step boot siblings = some s ∧
      s.returns = [⟨1, 2, some 2, 5⟩, ⟨1, 3, some 3, 7⟩, ⟨1, 3, none, -1⟩] ∧ (s.threads 2).pc = .released ∧ Contract s := by
  have ends : ((run step boot siblings).any fun s =>
      decide (s.returns = [⟨1, 2, some 2, 5⟩, ⟨1, 3, some 3, 7⟩, ⟨1, 3, none, -1⟩] ∧ (s.threads 2).pc = .released)) = true := by
    decide +kernel
  obtain ⟨s, reached, shape⟩ := (Option.any_eq_true _ _).mp ends
  obtain ⟨returned, gone⟩ := of_decide_eq_true shape
  exact ⟨s, reached, returned, gone, process_wait_contract siblings s reached⟩

end Pintos.Process
