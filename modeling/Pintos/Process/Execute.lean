import Mathlib.Algebra.Group.Int.Defs
import Mathlib.Algebra.Group.Nat.Defs
import Mathlib.Data.List.Basic

/-! What `process_execute` returns (`userprog/process.c`, `threads/thread.c`).

`register_child_with_parent` walks `all_list` for the tid `thread_create` gave
it. New threads enter the list at its end, so what the loop does is a function
of the threads it comes to, those that arrived behind the child while it waited
included. The result is the tid of the thread the loop variable pointed at last.
-/

set_option autoImplicit false

namespace Pintos.Process.Execute

def tidError : Int := -1

inductive Load where
  /-- The thread has still to raise `wait_for_load` of the thread in its `parent` field. -/
  | pending (success : Bool)
  /-- It raises it no more: it runs, it is no new process, or it went through a null `parent`. -/
  | over
  deriving DecidableEq, Repr

/-- A thread as the walk finds it on `all_list`. A failed load has set its tid to -1. -/
structure Thread where
  tid : Int
  load : Load
  /-- If the walk raises its `block_child`, it dies and is freed before the walk has left it. -/
  reaped : Bool := false
  deriving DecidableEq, Repr

def Thread.settled (thread : Thread) : Int := if thread.load = .pending false then tidError else thread.tid

inductive Outcome where
  /-- The value returned and the tids of the threads that nodes were added for. -/
  | returned (value : Int) (nodes : List Int)
  /-- `sema_down (&wait_for_load)` is never raised. -/
  | blocked
  /-- `c->kid` was written through the null pointer, or `list_next` went through a freed thread. -/
  | faulted
  deriving DecidableEq, Repr

/-- The loop; `last` is the tid of `child_thread`, `page` whether a page for the node is free. -/
def walk (tid : Int) (page : Bool) : Int → List Thread → Outcome
  | last, [] => .returned last []
  | _, thread :: rest =>
    if thread.tid = tid then
      match thread.load with
      | .over => .blocked
      | .pending _ =>
        if thread.settled < 0 then
          -- `block_child` is raised and the loop goes on with the next thread
          if thread.reaped then .faulted else walk tid page thread.settled rest
        else if page then .returned thread.settled [thread.settled] else .faulted
    else walk tid page thread.tid rest

structure Child where
  tid : Int
  success : Bool
  /-- The walk stored the parent before the child got to the end of its load. -/
  registered : Bool
  /-- The child is off `all_list` again when the walk gets to its place. -/
  gone : Bool
  reaped : Bool
  positive : 0 < tid
  stays : registered = true → gone = false

/-- What the walk finds of the child. One that was not registered in time has faulted in `load`. -/
def Child.threads (child : Child) : List Thread :=
  if child.gone then []
  else if child.registered then [⟨child.tid, .pending child.success, child.reaped⟩]
  else [⟨if child.success then child.tid else tidError, .over, child.reaped⟩]

inductive Creation where
  /-- No page for the copy of the command line. -/
  | noCopy
  | failed
  | created (child : Child)

/-- The tid `thread_create` returned. -/
def Creation.tid : Creation → Int
  | .created child => child.tid
  | .noCopy | .failed => tidError

def Creation.threads : Creation → List Thread
  | .created child => child.threads
  | .noCopy | .failed => []

/-- A call: the threads ahead of the child, which include the caller, the outcome of the creation,
and those behind the child when the walk gets there. Tids are given once. -/
structure Call where
  ahead : List Thread
  creation : Creation
  behind : List Thread
  page : Bool
  caller : ∃ thread ∈ ahead, 0 < thread.tid
  fresh : ∀ child, creation = .created child → ∀ thread ∈ ahead ++ behind, thread.tid ≠ child.tid

def Call.visited (call : Call) : List Thread := call.ahead ++ call.creation.threads ++ call.behind

/-- The list is not empty, so the tid the walk starts from is never returned. -/
def registerChildWithParent (call : Call) : Outcome := walk call.creation.tid call.page 0 call.visited

def processExecute (call : Call) : Outcome :=
  match call.creation with
  | .noCopy => .returned tidError []
  | _ => registerChildWithParent call

/-- The tid of the new thread and one node for it if its load succeeded; otherwise -1 and no node. -/
def Documented (call : Call) : Prop :=
  match call.creation with
  | .created child =>
    if child.success then processExecute call = .returned child.tid [child.tid]
    else processExecute call = .returned tidError []
  | .noCopy | .failed => processExecute call = .returned tidError []

/-- The tid that `child_thread` has after the walk, if none of the threads makes the loop end early. -/
def lastTid (tid : Int) : Int → List Thread → Int
  | last, [] => last
  | _, thread :: rest => lastTid tid (if thread.tid = tid then thread.settled else thread.tid) rest

/-- The walk gets past the thread after a match: it is woken, and the thread is not freed under it. -/
def Thread.Passable (thread : Thread) : Prop := thread.load ≠ .over ∧ thread.reaped = false

/-- When the result is the documented one: a child that loaded was registered in time and its node has
a page; otherwise the walk gets to its end and the last thread there happens to have the tid -1. -/
def Reports (call : Call) : Prop :=
  match call.creation with
  | .noCopy => True
  | .failed =>
    lastTid tidError 0 call.visited = tidError ∧ ∀ thread ∈ call.visited, thread.tid = tidError → thread.Passable
  | .created child =>
    if child.success then child.registered = true ∧ call.page = true
    else lastTid child.tid 0 call.visited = tidError ∧ (child.registered = true → child.reaped = false)

section Walk
variable {tid : Int} {page : Bool}

theorem lastTid_append (last : Int) (front rest : List Thread) :
    lastTid tid last (front ++ rest) = lastTid tid (lastTid tid last front) rest := by
  induction front generalizing last with
  | nil => rfl
  | cons thread front ih => exact ih _

theorem walk_others {front : List Thread} (others : ∀ thread ∈ front, thread.tid ≠ tid) (last : Int)
    (rest : List Thread) : walk tid page last (front ++ rest) = walk tid page (lastTid tid last front) rest := by
  induction front generalizing last with
  | nil => rfl
  | cons thread front ih =>
    have other := others thread (by simp)
    rw [List.cons_append, walk, if_neg other, lastTid, if_neg other]
    exact ih (fun thread member => others thread (by simp [member])) _

theorem walk_unmatched {threads : List Thread} (others : ∀ thread ∈ threads, thread.tid ≠ tid) (last : Int) :
    walk tid page last threads = .returned (lastTid tid last threads) [] := by
  have whole : walk tid page last (threads ++ []) = walk tid page (lastTid tid last threads) [] :=
    walk_others others last []
  rwa [List.append_nil] at whole

theorem settled_error {thread : Thread} (error : thread.tid = tidError) : thread.settled = tidError := by
  unfold Thread.settled
  split
  · rfl
  · exact error

/-- A walk for the tid -1 never adds a node; it gets to the end if every thread it matches is still to raise. -/
theorem walk_error_iff (last : Int) (threads : List Thread) :
    walk tidError page last threads = .returned tidError [] ↔
      lastTid tidError last threads = tidError ∧ ∀ thread ∈ threads, thread.tid = tidError → thread.Passable := by
  induction threads generalizing last with
  | nil => simp [walk, lastTid]
  | cons thread rest ih =>
    rw [walk, lastTid]
    by_cases error : thread.tid = tidError
    · rw [if_pos error, if_pos error, settled_error error]
      cases load : thread.load with
      | pending success =>
        have negative : tidError < 0 := by decide
        cases reaped : thread.reaped <;> simp [negative, ih, error, load, reaped, Thread.Passable]
      | _ => simp [error, load, Thread.Passable]
    · rw [if_neg error, if_neg error, ih]
      simp [error]

end Walk

section Children
variable {call : Call} {child : Child}

theorem Call.ahead_fresh (call : Call) (created : call.creation = .created child) :
    ∀ thread ∈ call.ahead, thread.tid ≠ child.tid :=
  fun thread member => call.fresh child created thread (by simp [member])

theorem Call.behind_fresh (call : Call) (created : call.creation = .created child) :
    ∀ thread ∈ call.behind, thread.tid ≠ child.tid :=
  fun thread member => call.fresh child created thread (by simp [member])

section
variable (created : call.creation = .created child)
include created

theorem processExecute_created :
    processExecute call = walk child.tid call.page (lastTid child.tid 0 call.ahead) (child.threads ++ call.behind) := by
  have visited : call.visited = call.ahead ++ (child.threads ++ call.behind) := by
    rw [Call.visited, created, List.append_assoc]
    rfl
  rw [processExecute, created, registerChildWithParent, created, visited]
  exact walk_others (call.ahead_fresh created) 0 _

/-- A child that has gone was not registered, and the loop does not come to it. -/
theorem walk_gone (gone : child.gone = true) : child.registered ≠ true ∧ child.threads = [] ∧
      ∀ page last, walk child.tid page last call.behind = .returned (lastTid child.tid last call.behind) [] :=
  ⟨fun registered => by simp [child.stays registered] at gone, if_pos gone,
    fun _ => walk_unmatched (call.behind_fresh created)⟩

theorem loaded_iff (success : child.success = true) :
    processExecute call = .returned child.tid [child.tid] ↔ child.registered = true ∧ call.page = true := by
  rw [processExecute_created created]
  have positive := child.positive
  cases gone : child.gone with
  | true =>
    obtain ⟨unregistered, none, walked⟩ := walk_gone created gone
    rw [none, List.nil_append, walked]
    simp [unregistered]
  | false =>
    cases registered : child.registered with
    | true =>
      have settled : (Thread.mk child.tid (.pending true) child.reaped).settled = child.tid := rfl
      have nonnegative : ¬ child.tid < 0 := by omega
      simp only [Child.threads, gone, registered, success, Bool.false_eq_true, if_false, if_true, List.singleton_append,
        walk, settled, if_neg nonnegative]
      cases call.page <;> simp
    | false => simp [Child.threads, gone, registered, success, walk]

theorem unloaded_iff (failure : child.success = false) : processExecute call = .returned tidError [] ↔
      lastTid child.tid 0 call.visited = tidError ∧ (child.registered = true → child.reaped = false) := by
  have positive := child.positive
  have error : tidError ≠ child.tid := by
    unfold tidError
    omega
  have visited : call.visited = call.ahead ++ (child.threads ++ call.behind) := by
    rw [Call.visited, created, List.append_assoc]
    rfl
  rw [processExecute_created created, visited, lastTid_append]
  cases gone : child.gone with
  | true =>
    obtain ⟨unregistered, none, walked⟩ := walk_gone created gone
    rw [none, List.nil_append, walked]
    simp [unregistered]
  | false =>
    cases registered : child.registered with
    | true =>
      -- The child is let go and the loop runs on to the end of the list.
      have settled : (Thread.mk child.tid (.pending false) child.reaped).settled = tidError := rfl
      have negative : tidError < 0 := by decide
      cases reaped : child.reaped <;> rw [reaped] at settled <;>
        simp [Child.threads, gone, registered, failure, walk, lastTid, settled, negative, reaped,
          walk_unmatched (call.behind_fresh created)]
    | false =>
      simp [Child.threads, gone, registered, failure, walk, lastTid, error,
        walk_unmatched (call.behind_fresh created)]

end

end Children

/-- Exactly which calls return what is documented. -/
theorem execute_documented_iff (call : Call) : Documented call ↔ Reports call := by
  unfold Documented Reports
  cases creation : call.creation with
  | noCopy => simp [processExecute, creation]
  | failed =>
    simp only [processExecute, creation, registerChildWithParent, Creation.tid]
    exact walk_error_iff 0 call.visited
  | created child =>
    cases success : child.success with
    | true => simpa [success] using loaded_iff creation success
    | false => simpa [success] using unloaded_iff creation success

def noThread : Call where
  ahead := [⟨1, .over, false⟩, ⟨2, .over, false⟩]
  creation := .failed
  behind := []
  page := true
  caller := ⟨⟨1, .over, false⟩, by decide, by decide⟩
  fresh := nofun

def failedLoad : Call where
  ahead := [⟨1, .over, false⟩, ⟨2, .over, false⟩]
  creation := .created ⟨3, false, true, false, false, by decide, fun _ => rfl⟩
  behind := [⟨4, .pending true, false⟩]
  page := true
  caller := ⟨⟨1, .over, false⟩, by decide, by decide⟩
  fresh := by
    rintro child same
    cases same
    decide

/-- A failed creation returns the tid of the idle thread, a failed load that of another process. -/
theorem failures_return_other_tids :
    (processExecute noThread = .returned 2 [] ∧ ¬ Documented noThread) ∧
      (processExecute failedLoad = .returned 4 [] ∧ ¬ Documented failedLoad) := by
  have thread : processExecute noThread = .returned 2 [] := by decide
  have load : processExecute failedLoad = .returned 4 [] := by decide
  refine ⟨⟨thread, fun documented => ?_⟩, load, fun documented => ?_⟩
  · cases thread.symm.trans documented
  · cases load.symm.trans documented

end Pintos.Process.Execute
