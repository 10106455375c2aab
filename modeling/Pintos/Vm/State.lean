import Mathlib.Tactic.Simps.Basic
import Pintos.Semantics.Computation
import Pintos.Vm.Address

/-! The kernel state the virtual memory code works on.

Structures of the source keep their fields. Pages are the `struct page_t`
objects `malloc` returned, by address; the model allocates them in increasing
order because the code never frees one. A supplemental page table is the list
of pages its hash table holds, a frame's contents are indexed by its kernel
address, and a device sector by its number.
-/

set_option autoImplicit false

namespace Pintos.Vm
open Semantics

/-- `page_t.location`; `cleared` is the 0 that `page_clear_all` stores. -/
inductive Location where
  | cleared
  | inFrame
  | inSwap
  | inFilesys
  deriving DecidableEq, Repr

/-- `struct page_t`. A `file` of 0 is the null pointer of a stack page. -/
structure Page where
  upage : Nat := 0
  kpage : Nat := 0
  file : Nat := 0
  writable : Bool := false
  pageReadBytes : Nat := 0
  pageZeroBytes : Nat := 0
  location : Location := .cleared
  swapLocation : Nat := 0
  ofs : Nat := 0
  pagedir : Nat := 0
  deriving DecidableEq, Repr

/-- The `swap_location` of -1 of a page that has no slot. -/
def noSlot : Nat := 2 ^ 32 - 1

structure FrameTableElem where
  kpage : Nat
  upage : Nat := 0
  pagedir : Nat := 0
  pagePointer : Nat := 0
  deriving DecidableEq, Repr

/-- `TOTAL_PAGES`: entries of the frame table. -/
def totalPages : Nat := 367

def firstEvictable : Nat := 25

/-- Where a process is in its life. A process that `system_exit_helper` was
called for is `exiting` until its `thread_exit` has run. -/
inductive Phase where
  | unborn
  | running
  | exiting
  | gone
  deriving DecidableEq, Repr

/-- The members of `struct thread` the paging code reads and writes. -/
structure Thread where
  phase : Phase := .unborn
  spt : List Nat := []
  pagedir : Nat := 0
  esp : Nat := 0
  exitStatus : Int := 0

/-- A process that has not been torn down: its pages are still its own. -/
def Thread.live (thread : Thread) : Prop := thread.phase = .running ∨ thread.phase = .exiting

instance (thread : Thread) : Decidable thread.live := inferInstanceAs (Decidable (_ ∨ _))

structure State where
  frameTable : Nat → FrameTableElem
  occupancy : Int
  clockPointer : Nat
  pages : Nat → Page
  nextPage : Nat
  pagedirs : Nat → Pagedir
  /-- Pages `palloc` has handed out for page directories. -/
  directories : List Nat
  threads : Nat → Thread
  ram : Nat → Nat → UInt8
  swap : Nat → Nat → UInt8
  freeBitmap : Nat → Bool
  /-- Bits in `free_bitmap`. -/
  slots : Nat
  files : Nat → List UInt8

namespace State

@[simps] def setPage (s : State) (page : Nat) (value : Page) : State :=
  { s with pages := Function.update s.pages page value }

@[simps] def setThread (s : State) (thread : Nat) (value : Thread) : State :=
  { s with threads := Function.update s.threads thread value }

@[simps] def setFrame (s : State) (index : Nat) (value : FrameTableElem) : State :=
  { s with frameTable := Function.update s.frameTable index value }

@[simps] def setPte (s : State) (pd upage : Nat) (entry : Pte) : State :=
  { s with pagedirs := Function.update s.pagedirs pd ((s.pagedirs pd).setPte upage entry) }

@[simps] def setRam (s : State) (kpage : Nat) (bytes : Nat → UInt8) : State :=
  { s with ram := Function.update s.ram kpage bytes }

@[simps] def setSlot (s : State) (slot : Nat) (used : Bool) : State :=
  { s with freeBitmap := Function.update s.freeBitmap slot used }

def pte (s : State) (pd upage : Nat) : Pte := (s.pagedirs pd).pte upage

theorem pte_setPte (s : State) (pd upage otherPd other : Nat) (entry : Pte) :
    (s.setPte pd upage entry).pte otherPd other =
      if otherPd = pd ∧ pgNo other = pgNo upage then entry else s.pte otherPd other := by
  by_cases same : otherPd = pd
  · subst same
    simp [pte, Pagedir.pte_setPte]
  · simp [pte, same]

def hashFind (s : State) (thread upage : Nat) : Option Nat :=
  (s.threads thread).spt.find? fun page => (s.pages page).upage = upage

end State

/-- Why kernel code does not return to its caller: the process is being ended
with a status, an assertion failed, or a loop ran out of its fuel. -/
inductive Halt where
  | exit (status : Int)
  | panic
  | diverge
  deriving DecidableEq, Repr

abbrev Kernel (A : Type) := Computation State Halt A

def assert (condition : Bool) : Kernel Unit := Computation.require .panic fun _ => condition

@[simp] theorem assert_true (s : State) : assert true s = .returned () s := rfl

@[simp] theorem assert_false (s : State) : assert false s = .stopped .panic s := rfl

theorem assert_returned {condition : Bool} {s final : State} :
    assert condition s = .returned () final ↔ condition = true ∧ final = s :=
  Computation.require_returned

theorem assert_stopped {condition : Bool} {s final : State} {why : Halt} :
    assert condition s = .stopped why final ↔ condition = false ∧ why = .panic ∧ final = s :=
  Computation.require_stopped

/-- The state in which `system_exit_helper` has marked the process as ending. -/
def State.ending (s : State) (cur : Nat) (status : Int) : State :=
  s.setThread cur { s.threads cur with phase := .exiting, exitStatus := status }

/-- `system_exit_helper`; `thread_exit` runs as a step of its own. -/
def systemExitHelper {A : Type} (cur : Nat) (status : Int) : Kernel A :=
  fun s => .stopped (.exit status) (s.ending cur status)

end Pintos.Vm
