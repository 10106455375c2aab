import Pintos.Syscall.Confinement
import Pintos.Syscall.Vocabulary
import Pintos.Semantics.Transition

/-! Who holds `filesys_lock`.

Threads run the handlers call by call in any interleaving, and may be ended
in user mode, by a refused pointer, by `system_exit_helper` or by a page fault
on memory the kernel dereferences for them. The handlers bracket their file
work with the lock; `thread_exit` does not release it.
-/

set_option autoImplicit false

namespace Pintos.Syscall
open Semantics

/-- The phases of a handler: outside or inside the brackets of `filesys_lock`.
Inside, nothing may end the process. -/
def lockProtocol : Bool → Call → Option Bool
  | false, .routine .lockAcquire => some true
  | true, .routine .lockAcquire => none
  | true, .routine .lockRelease => some false
  | false, .routine .lockRelease => none
  | held, .checkPointer _ | held, .systemExitHelper _ => if held then none else some false
  | held, .load _ | held, .store _ _ | held, .hang | held, .routine _ => some held

/-- Started outside the brackets, the routine stays in the protocol and returns outside them. -/
abbrev Brackets {A : Type} (body : Routines A) : Prop :=
  Procedure.Conforms (I := calls) lockProtocol body false fun _ held => held = false

section Brackets
open Procedure
variable {A B : Type}

theorem lockProtocol_inner {held : Bool} {call : Call} (inner : call.Inner) : lockProtocol held call = some held := by
  cases call with
  | load | store | hang => cases held <;> rfl
  | checkPointer | systemExitHelper => exact inner.elim
  | routine which =>
    cases which with
    | lockAcquire | lockRelease => exact inner.elim
    | _ => cases held <;> rfl

theorem brackets_of_inner {body : Routines A} (inner : Inner body) : Brackets body :=
  conforms_of_makes (fun _ => lockProtocol_inner) inner

theorem brackets_bind {first : Routines A} {next : A → Routines B} (before : Brackets first)
    (after : ∀ value, Brackets (next value)) : Brackets (first >>= next) := by
  refine (conforms_bind _ _ _ _).mpr (conforms_mono (fun value held outside => ?_) before)
  subst outside
  exact after value

theorem brackets_checkPointer (pointer : Nat) : Brackets (checkPointer pointer) := ⟨false, rfl, fun _ => rfl⟩

theorem brackets_systemExitHelper (status : Int) : Brackets (systemExitHelper status : Routines A) := ⟨false, rfl, nofun⟩

theorem brackets_withFilesysLock {body : Routines A} (inner : Inner body) : Brackets (withFilesysLock body) := by
  refine (conforms_bind _ _ _ _).mpr ⟨true, rfl, fun _ => (conforms_bind _ _ _ _).mpr ?_⟩
  refine conforms_mono (fun value held inside => ?_) (conforms_of_makes (fun _ => lockProtocol_inner) inner)
  subst inside
  exact (conforms_bind _ _ _ _).mpr ⟨false, rfl, fun _ => rfl⟩

theorem composes_brackets : Composes fun A (body : Routines A) => Brackets body where
  inner := brackets_of_inner
  bind := brackets_bind
  checkPointer := brackets_checkPointer
  withFilesysLock := brackets_withFilesysLock
  refuse := brackets_systemExitHelper (-1)

theorem brackets_dispatch (stackPointer : Nat) (number : Option Number) : Brackets (dispatch stackPointer number) := by
  by_cases exits : number = some .exit
  · subst exits
    exact brackets_bind (brackets_bind (composes_brackets.argument _) fun _ => brackets_systemExitHelper _) fun _ => rfl
  · exact composes_brackets.dispatch stackPointer exits

theorem brackets_syscallHandler (stackPointer : Nat) : Brackets (syscallHandler stackPointer) :=
  brackets_bind (composes_brackets.argument stackPointer) fun number => brackets_dispatch stackPointer (Number.ofWord number)

end Brackets

/-- The calls in which the kernel dereferences memory that need not be there:
user memory, and a file or inode pointer that is not a kernel address, as slot
`MAX_FILES` of `fd_pointers` yields. -/
def Call.mayFault : Call → Bool
  | .load _ | .store _ _ => true
  | .routine (.fileInode pointer) | .routine (.filePos pointer) | .routine (.setFilePos pointer _)
  | .routine (.fileClose pointer) | .routine (.inodeLength pointer) | .routine (.denyWriteCnt pointer)
  | .routine (.byteToSector pointer _) | .routine (.inodeClose pointer) | .routine (.inodeRemove pointer) =>
    !isKernelVaddr pointer
  | _ => false

namespace Locking

/-- Where a process is: in user mode, inside a system call with the rest of its
handler still to run, inside `thread_exit`, or at its end. -/
inductive Activity where
  | absent
  | user
  | kernel (rest : Routines (Option Int))
  | exiting
  | terminated

def Activity.isTerminated : Activity → Bool
  | .terminated => true
  | _ => false

structure Processes where
  activity : Nat → Activity
  filesysLock : Option Nat

def Processes.goto (processes : Processes) (process : Nat) (activity : Activity) : Processes :=
  { processes with activity := Function.update processes.activity process activity }

inductive Event where
  /-- A created process has run `load`, which succeeded or not. -/
  | arrive (process : Nat) (loaded : Bool)
  /-- The user program executes `int $0x30`. -/
  | trap (process : Nat) (stackPointer : Nat)
  /-- The call the process has made returns; the byte is for a load, the replies for the routines. -/
  | proceed (process : Nat) (byte : UInt8) (reply : (which : Routine) → Option which.Reply)
  /-- The kernel's access faults and the fault handler ends the process. -/
  | fault (process : Nat)
  /-- The process is ended while in user mode, by an exception or a bad page fault. -/
  | kill (process : Nat)
  /-- `thread_exit` reaches its end. -/
  | finish (process : Nat)

/-- One call of a handler returns; `none` while it does not. -/
def Processes.advance (processes : Processes) (process : Nat) (byte : UInt8)
    (reply : (which : Routine) → Option which.Reply) : Routines (Option Int) → Option Processes
  | .done _ => some (processes.goto process .user)
  | .call (.load _) next => some (processes.goto process (.kernel (next byte)))
  | .call (.store _ _) next => some (processes.goto process (.kernel (next ())))
  | .call (.checkPointer pointer) next =>
    some (processes.goto process (if validPointer pointer then .kernel (next ()) else .exiting))
  | .call (.systemExitHelper _) _ => some (processes.goto process .exiting)
  | .call .hang _ => none
  | .call (.routine .lockAcquire) next =>
    if processes.filesysLock = none then
      some { processes.goto process (.kernel (next ())) with filesysLock := some process }
    else none
  | .call (.routine .lockRelease) next =>
    if processes.filesysLock = some process then
      some { processes.goto process (.kernel (next ())) with filesysLock := none }
    else none
  | .call (.routine which) next => (reply which).map fun value => processes.goto process (.kernel (next value))

def step (processes : Processes) : Event → Option Processes
  | .arrive process loaded =>
    match processes.activity process with
    | .absent => some (processes.goto process (if loaded then .user else .exiting))
    | _ => none
  | .trap process stackPointer =>
    match processes.activity process with
    | .user => some (processes.goto process (.kernel (syscallHandler stackPointer)))
    | _ => none
  | .proceed process byte reply =>
    match processes.activity process with
    | .kernel rest => processes.advance process byte reply rest
    | _ => none
  | .fault process =>
    match processes.activity process with
    | .kernel (.call call _) => if call.mayFault then some (processes.goto process .exiting) else none
    | _ => none
  | .kill process =>
    match processes.activity process with
    | .user => some (processes.goto process .exiting)
    | _ => none
  | .finish process =>
    match processes.activity process with
    | .exiting => some (processes.goto process .terminated)
    | _ => none

def boot : Processes := ⟨fun _ => .absent, none⟩

/-- `filesys_lock` is free or its holder has not terminated. -/
def LockLive (processes : Processes) : Prop :=
  ∀ process, processes.filesysLock = some process → (processes.activity process).isTerminated = false

/-- No access that the kernel makes for the holder of `filesys_lock` ends in its death. -/
def FaultsUnlocked (processes : Processes) : Event → Prop
  | .fault process => processes.filesysLock ≠ some process
  | _ => True

instance (processes : Processes) : (event : Event) → Decidable (FaultsUnlocked processes event)
  | .fault _ => inferInstanceAs (Decidable (_ ≠ _))
  | .arrive _ _ | .trap _ _ | .proceed _ _ _ | .kill _ | .finish _ => isTrue trivial

/-- What a process owes: in a system call its handler is in the protocol in the
phase that the lock's holder says, elsewhere it does not hold the lock. -/
def Activity.Owes (activity : Activity) (held : Bool) : Prop :=
  match activity with
  | .kernel rest => Procedure.Conforms (I := calls) lockProtocol rest held fun _ after => after = false
  | _ => held = false

def Disciplined (processes : Processes) : Prop :=
  ∀ process, (processes.activity process).Owes (processes.filesysLock == some process)

variable {processes : Processes} {process : Nat}

section
variable (disciplined : Disciplined processes)
include disciplined

theorem Disciplined.lockLive : LockLive processes := by
  intro process holds
  have owes := disciplined process
  rw [holds, beq_self_eq_true] at owes
  cases activity : processes.activity process with
  | kernel rest => rfl
  | absent | user | exiting | terminated =>
    rw [activity] at owes
    cases owes

theorem Disciplined.goto {activity : Activity} (owes : activity.Owes (processes.filesysLock == some process)) :
    Disciplined (processes.goto process activity) := by
  intro other
  by_cases same : other = process
  · subst same
    simpa [Processes.goto] using owes
  · simpa [Processes.goto, same] using disciplined other

/-- One process takes or gives back the lock, which is with no other process before and after. -/
theorem Disciplined.relock {activity : Activity} {holder : Option Nat}
    (owes : activity.Owes (holder == some process)) (before : ∀ other ≠ process, processes.filesysLock ≠ some other)
    (after : ∀ other ≠ process, holder ≠ some other) :
    Disciplined { processes.goto process activity with filesysLock := holder } := by
  intro other
  by_cases same : other = process
  · subst same
    simpa [Processes.goto] using owes
  · have owed := disciplined other
    have free : (processes.filesysLock == some other) = false := by simpa using before other same
    have free' : (holder == some other) = false := by simpa using after other same
    rw [free] at owed
    simpa [Processes.goto, same, free'] using owed

theorem Disciplined.advance {next : Processes} {byte : UInt8} {reply : (which : Routine) → Option which.Reply}
    {rest : Routines (Option Int)} (owes : (Activity.kernel rest).Owes (processes.filesysLock == some process))
    (taken : processes.advance process byte reply rest = some next) : Disciplined next := by
  cases rest with
  | done value =>
    cases taken
    exact disciplined.goto owes
  | call call continue_ =>
    obtain ⟨after, admitted, later⟩ := owes
    cases call with
    | load address =>
      cases taken
      have stays : lockProtocol (processes.filesysLock == some process) (.load address) = _ := lockProtocol_inner trivial
      cases stays.symm.trans admitted
      exact disciplined.goto (later byte)
    | store address stored =>
      cases taken
      have stays : lockProtocol (processes.filesysLock == some process) (.store address stored) = _ := lockProtocol_inner trivial
      cases stays.symm.trans admitted
      exact disciplined.goto (later ())
    | checkPointer pointer =>
      cases taken
      refine disciplined.goto ?_
      -- the protocol has no pointer check inside the brackets, where a refusal would keep the lock
      cases holds : (processes.filesysLock == some process) with
      | true => simp [lockProtocol, holds] at admitted
      | false =>
        simp only [lockProtocol, holds] at admitted
        cases admitted
        split
        · exact later ()
        · rfl
    | systemExitHelper status =>
      cases taken
      refine disciplined.goto ?_
      cases holds : (processes.filesysLock == some process) with
      | true => simp [lockProtocol, holds] at admitted
      | false => rfl
    | hang => cases taken
    | routine which =>
      by_cases inner : (Call.routine which).Inner
      · rw [lockProtocol_inner inner] at admitted
        cases admitted
        have moved : ∃ value, next = processes.goto process (.kernel (continue_ value)) := by
          cases which with
          | lockAcquire | lockRelease => exact inner.elim
          | _ =>
            obtain ⟨value, _, rfl⟩ := Option.map_eq_some_iff.mp taken
            exact ⟨value, rfl⟩
        obtain ⟨value, rfl⟩ := moved
        exact disciplined.goto (later value)
      · cases which with
        | lockAcquire =>
          simp only [Processes.advance] at taken
          split at taken <;> rename_i free
          · cases taken
            have phase : after = true := by simpa [lockProtocol, free] using admitted.symm
            subst phase
            refine disciplined.relock ?_ (by simp [free]) (by simp [eq_comm])
            rw [beq_self_eq_true]
            exact later ()
          · cases taken
        | lockRelease =>
          simp only [Processes.advance] at taken
          split at taken <;> rename_i holds
          · cases taken
            have phase : after = false := by simpa [lockProtocol, holds] using admitted.symm
            subst phase
            refine disciplined.relock ?_ (by simp [holds, eq_comm]) (by simp)
            exact later ()
          · cases taken
        | _ => exact absurd trivial inner

theorem Disciplined.step {next : Processes} {event : Event}
    (unlocked : FaultsUnlocked processes event) (taken : Locking.step processes event = some next) :
    Disciplined next := by
  cases event with
  | arrive process loaded =>
    have owes := disciplined process
    simp only [Locking.step] at taken
    split at taken <;> rename_i where_
    · cases taken
      rw [where_] at owes
      cases loaded <;> exact disciplined.goto owes
    · cases taken
  | trap process stackPointer =>
    have owes := disciplined process
    simp only [Locking.step] at taken
    split at taken <;> rename_i where_
    · cases taken
      rw [where_] at owes
      refine disciplined.goto ?_
      rw [show (processes.filesysLock == some process) = false from owes]
      exact brackets_syscallHandler stackPointer
    · cases taken
  | proceed process byte reply =>
    have owes := disciplined process
    simp only [Locking.step] at taken
    split at taken <;> rename_i where_
    · rw [where_] at owes
      exact disciplined.advance owes taken
    · cases taken
  | fault process =>
    simp only [Locking.step] at taken
    split at taken
    · split at taken
      · cases taken
        exact disciplined.goto (beq_eq_false_iff_ne.mpr unlocked)
      · cases taken
    · cases taken
  | kill process =>
    have owes := disciplined process
    simp only [Locking.step] at taken
    split at taken <;> rename_i where_
    · cases taken
      rw [where_] at owes
      exact disciplined.goto owes
    · cases taken
  | finish process =>
    have owes := disciplined process
    simp only [Locking.step] at taken
    split at taken <;> rename_i where_
    · cases taken
      rw [where_] at owes
      exact disciplined.goto owes
    · cases taken

end

theorem boot_disciplined : Disciplined boot := fun _ => rfl

theorem filesys_lock_live {events : List Event} {final : Processes} (along : Along step FaultsUnlocked boot events)
    (reached : run step boot events = some final) : LockLive final :=
  (invariant_of_run step Disciplined (fun _ _ _ disciplined => disciplined.step) boot_disciplined along reached).lockLive

def served (bytes : List UInt8) : List Event :=
  bytes.map fun byte =>
    .proceed 1 byte fun which => (generous ⟨0, [], false, Nat.zero_le _⟩ which ()).map Prod.fst

/-- Process 1 calls `read (2, 0x08048000, 1)` and runs until it holds the lock
and is about to store the byte read. -/
def untilStore : List Event :=
  [.arrive 1 true, .trap 1 0xbfffff00] ++
    -- the call number and the descriptor, each after its pointer check
    served [0, 8, 0, 0, 0, 0, 2, 0, 0, 0] ++
    -- the buffer, its own check, and the length
    served [0, 0, 0x80, 4, 8, 0, 0, 1, 0, 0, 0] ++
    -- the slot, the lock, and the routines of `file_read` up to the copy
    served [0, 0, 0, 0, 0, 0, 0, 0]

theorem filesys_lock_live_read :
    ∃ final, run step boot (untilStore ++ served [0, 0, 0, 0, 0] ++ [.kill 1, .finish 1]) = some final ∧
      LockLive final := by
  have enabled : (run step boot (untilStore ++ served [0, 0, 0, 0, 0] ++ [.kill 1, .finish 1])).isSome = true := by
    decide +kernel
  obtain ⟨final, reached⟩ := Option.isSome_iff_exists.mp enabled
  exact ⟨final, reached, filesys_lock_live (by decide +kernel) reached⟩

theorem fault_keeps_filesys_lock :
    ∃ final, run step boot (untilStore ++ [.fault 1, .finish 1]) = some final ∧ ¬ LockLive final := by
  have held : (run step boot (untilStore ++ [.fault 1, .finish 1])).any (fun final =>
      final.filesysLock == some 1 && (final.activity 1).isTerminated) = true := by decide +kernel
  obtain ⟨final, reached, left⟩ := (Option.any_eq_true _ _).mp held
  rw [Bool.and_eq_true, beq_iff_eq] at left
  refine ⟨final, reached, fun live => ?_⟩
  rw [live 1 left.1] at left
  exact Bool.false_ne_true left.2

end Locking

end Pintos.Syscall
