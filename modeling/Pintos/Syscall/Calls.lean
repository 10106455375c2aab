import Pintos.Semantics.Procedure
import Pintos.Vm.Address

/-! What a system call asks of the rest of the kernel.

The handlers of `userprog/syscall.c` are procedures over the calls below: the
accesses to user memory byte by byte, `check_pointer`, `system_exit_helper`,
and the routines that touch no user memory. Nothing is assumed about what a
routine answers: the file system, the console, the allocators and the process
layer are an arbitrary environment.
-/

set_option autoImplicit false

namespace Pintos.Syscall
open Semantics

def nameMax : Nat := 14

def maxFiles : Nat := 128

/-- `struct dir_entry`; the name is its bytes up to the terminator. -/
structure DirEntry where
  inodeSector : Nat
  name : List UInt8
  inUse : Bool
  short : name.length ≤ nameMax

inductive Routine where
  -- filesys_lock
  | lockAcquire
  | lockRelease
  -- the machine, the console and the keyboard
  | shutdownPowerOff
  | assertionFailed
  | inputGetc
  | acquireConsole
  | putcharHaveLock (byte : UInt8)
  | releaseConsole
  -- processes and memory; registering a child is the part of
  -- `register_child_with_parent` after the new thread's name has been copied
  | pallocGetPage
  | registerChild (name : Option (List UInt8)) (command : List UInt8)
  | processWait (pid : Int)
  | malloc
  | free
  -- the open files of the running thread
  | numOpenFiles
  | setNumOpenFiles (count : Int)
  | fdPointer (index : Nat)
  | setFdPointer (index : Nat) (pointer : Nat)
  -- the root directory, by entry number
  | dirOpenRoot
  | dirClose
  | readEntry (number : Nat)
  | writeEntry (number : Nat) (entry : DirEntry)
  -- inodes, files and sectors, with 0 for the null pointer
  | freeMapAllocate
  | freeMapRelease (sector : Nat)
  | inodeCreate (sector : Nat) (length : Int)
  | inodeOpen (sector : Nat)
  | inodeClose (inode : Nat)
  | inodeRemove (inode : Nat)
  | inodeLength (inode : Nat)
  | denyWriteCnt (inode : Nat)
  | byteToSector (inode : Nat) (offset : Int)
  | blockRead (sector : Nat)
  | blockWrite (sector : Nat) (bytes : List UInt8)
  | fileOpen (inode : Nat)
  | fileClose (file : Nat)
  | fileInode (file : Nat)
  | filePos (file : Nat)
  | setFilePos (file : Nat) (pos : Int)

@[reducible] def Routine.Reply : Routine → Type
  | .shutdownPowerOff | .assertionFailed => Empty
  | .inputGetc => UInt8
  | .pallocGetPage | .malloc | .dirOpenRoot | .writeEntry _ _ | .inodeCreate _ _ => Bool
  | .registerChild _ _ | .processWait _ | .numOpenFiles | .inodeLength _ | .filePos _ => Int
  | .fdPointer _ | .inodeOpen _ | .denyWriteCnt _ | .byteToSector _ _ | .fileOpen _ | .fileInode _ => Nat
  | .readEntry _ => Option DirEntry
  | .freeMapAllocate => Option Nat
  | .blockRead _ => Nat → UInt8
  | _ => Unit

inductive Call where
  | load (address : Nat)
  | store (address : Nat) (byte : UInt8)
  | checkPointer (pointer : Nat)
  | systemExitHelper (status : Int)
  /-- A loop of the source that has come back to where it was and never ends. -/
  | hang
  | routine (which : Routine)

@[reducible] def Call.Reply : Call → Type
  | .load _ => UInt8
  | .store _ _ | .checkPointer _ => Unit
  | .systemExitHelper _ | .hang => Empty
  | .routine which => which.Reply

abbrev calls : Signature := ⟨Call, Call.Reply⟩

abbrev Routines (A : Type) := Procedure calls A

def load (address : Nat) : Routines UInt8 := Procedure.perform (I := calls) (.load address)

def store (address : Nat) (byte : UInt8) : Routines Unit := Procedure.perform (I := calls) (.store address byte)

def checkPointer (pointer : Nat) : Routines Unit := Procedure.perform (I := calls) (.checkPointer pointer)

def routine (which : Routine) : Routines which.Reply := Procedure.perform (I := calls) (.routine which)

def systemExitHelper {A : Type} (status : Int) : Routines A := .call (.systemExitHelper status) nofun

def hang {A : Type} : Routines A := .call .hang nofun

/-- `ASSERT`: the kernel panics when the condition fails. -/
def assert (condition : Bool) : Routines Unit :=
  if condition then pure () else .call (.routine .assertionFailed) nofun

/-- Memory as the running process's page directory and the fault handler show
it to the kernel, over all 32-bit addresses. An access that is not readable or
not writable is one whose fault ends in `system_exit_helper`. -/
structure UserMemory where
  read : Nat → Option UInt8
  writable : Nat → Bool

def UserMemory.readable (memory : UserMemory) (address : Nat) : Bool := (memory.read address).isSome

def UserMemory.write (memory : UserMemory) (address : Nat) (byte : UInt8) : UserMemory :=
  { memory with read := Function.update memory.read address (some byte) }

structure World (K : Type) where
  memory : UserMemory
  kernel : K

inductive Ending where
  | exited (status : Int)
  | faulted (address : Nat)
  /-- The routine does not come back: the machine stops or the thread blocks for good. -/
  | stuck
  deriving DecidableEq

/-- An answer to every routine, `none` when it does not come back. -/
def Environment (K : Type) := (which : Routine) → K → Option (which.Reply × K)

def validPointer (pointer : Nat) : Bool := !(pointer == 0 || isKernelVaddr pointer)

section Handling
variable {K : Type}

/-- The kernel's answers to the calls; `refuses` says which pointers `check_pointer` rejects. -/
def answer (environment : Environment K) (refuses : Nat → Bool) : Procedure.Handler calls (World K) Ending
  | .load address => fun world =>
    match world.memory.read address with
    | some byte => .returned byte world
    | none => .stopped (.faulted address) world
  | .store address byte => fun world =>
    if world.memory.writable address then .returned () { world with memory := world.memory.write address byte }
    else .stopped (.faulted address) world
  | .checkPointer pointer => fun world =>
    if refuses pointer then .stopped (.exited (-1)) world else .returned () world
  | .systemExitHelper status => fun world => .stopped (.exited status) world
  | .hang => fun world => .stopped .stuck world
  | .routine which => fun world =>
    match environment which world.kernel with
    | some (reply, kernel) => .returned reply { world with kernel := kernel }
    | none => .stopped .stuck world

/-- The kernel as it is: `check_pointer` rejects null and kernel addresses with status -1. -/
def checked (environment : Environment K) : Procedure.Handler calls (World K) Ending :=
  answer environment fun pointer => !validPointer pointer

/-- The same kernel without its pointer checks: what the handlers would access. -/
def unchecked (environment : Environment K) : Procedure.Handler calls (World K) Ending :=
  answer environment fun _ => false

end Handling

def Call.touches : Call → Option Nat
  | .load address => some address
  | .store address _ => some address
  | _ => none

end Pintos.Syscall
