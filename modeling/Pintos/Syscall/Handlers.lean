import Pintos.Syscall.Files

/-! The system call handlers (`userprog/syscall.c`).

Each handler fetches its argument words from the user stack, one checked word
after another, and checks some of the addresses it finds there. `syscall_handler`
returns what it stores in `eax`, if anything.
-/

set_option autoImplicit false

namespace Pintos.Syscall

def argument (stackPointer : Nat) : Routines Nat := do
  checkPointer stackPointer
  loadWord stackPointer

def withFilesysLock {A : Type} (body : Routines A) : Routines A := do
  routine .lockAcquire
  let result ← body
  routine .lockRelease
  pure result

/-- The open file behind a descriptor, or the null pointer. The range test lets
`MAX_FILES + 2` through, whose slot is one past the end of `fd_pointers`. -/
def openFile (fd : Int) : Routines Nat :=
  if 2 ≤ fd ∧ fd ≤ maxFiles + 2 then routine (.fdPointer (fd - 2).toNat) else pure 0

def systemHalt : Routines Unit := .call (.routine .shutdownPowerOff) nofun

def systemExit (stackPointer : Nat) : Routines Unit := do
  let status ← argument (ptrAdd stackPointer 4)
  systemExitHelper (signed status)

def systemExec (stackPointer : Nat) : Routines Int := do
  let fileName ← argument (ptrAdd stackPointer 4)
  checkPointer fileName
  processExecute fileName

def systemWait (stackPointer : Nat) : Routines Int := do
  let pid ← argument (ptrAdd stackPointer 4)
  routine (.processWait (signed pid))

def systemCreate (stackPointer : Nat) : Routines Int := do
  let fileName ← argument (ptrAdd stackPointer 4)
  checkPointer fileName
  let size ← argument (ptrAdd stackPointer 8)
  let result ← withFilesysLock (filesysCreate fileName (signed size))
  pure (if result then 1 else 0)

def systemRemove (stackPointer : Nat) : Routines Int := do
  let fileName ← argument (ptrAdd stackPointer 4)
  checkPointer fileName
  let result ← withFilesysLock (filesysRemove fileName)
  pure (if result then 1 else 0)

def openSlotLoop (file : Nat) : Nat → Nat → Routines Int
  | 0, _ => pure (-1)
  | left + 1, i => do
    let pointer ← routine (.fdPointer i)
    if pointer = 0 then do
      routine (.setFdPointer i file)
      let count ← routine .numOpenFiles
      routine (.setNumOpenFiles (count + 1))
      pure (i + 2)
    else openSlotLoop file left (i + 1)

def systemOpen (stackPointer : Nat) : Routines Int := do
  let count ← routine .numOpenFiles
  if maxFiles ≤ count then pure (-1)
  else do
    let fileName ← argument (ptrAdd stackPointer 4)
    checkPointer fileName
    let file ← withFilesysLock (filesysOpen fileName)
    if file = 0 then pure (-1) else openSlotLoop file maxFiles 0

def systemFilesize (stackPointer : Nat) : Routines Int := do
  let fd ← argument (ptrAdd stackPointer 4)
  let file ← openFile (signed fd)
  if file = 0 then pure (-1) else withFilesysLock (fileLength file)

def systemRead (stackPointer : Nat) : Routines Int := do
  let fd ← argument (ptrAdd stackPointer 4)
  let buffer ← argument (ptrAdd stackPointer 8)
  checkPointer buffer
  let length ← argument (ptrAdd stackPointer 12)
  if fd = 0 then do
    let key ← routine .inputGetc
    pure key.toNat
  else do
    let file ← openFile (signed fd)
    if file = 0 then pure (-1) else withFilesysLock (fileRead file buffer (signed length))

def systemWrite (stackPointer : Nat) : Routines Int := do
  let fd ← argument (ptrAdd stackPointer 4)
  let string ← argument (ptrAdd stackPointer 8)
  checkPointer string
  let length ← argument (ptrAdd stackPointer 12)
  -- the end is computed in 32 bits and may have wrapped around
  checkPointer (ptrAdd string length)
  if fd = 0 then pure 0
  else if fd = 1 then do
    -- `(size_t) length`: a negative length is a huge count
    putbuf string length
    pure (signed length)
  else do
    let file ← openFile (signed fd)
    if file = 0 then pure 0
    else withFilesysLock do
      -- the slot is read once more under the lock
      let file ← openFile (signed fd)
      fileWrite file string (signed length)

def systemSeek (stackPointer : Nat) : Routines Unit := do
  let fd ← argument (ptrAdd stackPointer 4)
  let position ← argument (ptrAdd stackPointer 8)
  let file ← openFile (signed fd)
  if file = 0 then pure () else withFilesysLock (fileSeek file (signed position))

def systemTell (stackPointer : Nat) : Routines Int := do
  let fd ← argument (ptrAdd stackPointer 4)
  let file ← openFile (signed fd)
  if file = 0 then pure 0 else withFilesysLock (routine (.filePos file))

def systemClose (stackPointer : Nat) : Routines Unit := do
  let fd ← argument (ptrAdd stackPointer 4)
  let file ← openFile (signed fd)
  if file = 0 then pure ()
  else do
    withFilesysLock (routine (.fileClose file))
    let count ← routine .numOpenFiles
    routine (.setNumOpenFiles (count - 1))
    routine (.setFdPointer (signed fd - 2).toNat 0)

/-- `lib/syscall-nr.h`, as far as the handler knows the numbers. -/
inductive Number where
  | halt | exit | exec | wait | create | remove | open | filesize | read | write | seek | tell | close
  deriving DecidableEq

def Number.ofWord : Nat → Option Number
  | 0 => some .halt | 1 => some .exit | 2 => some .exec | 3 => some .wait | 4 => some .create
  | 5 => some .remove | 6 => some .open | 7 => some .filesize | 8 => some .read | 9 => some .write
  | 10 => some .seek | 11 => some .tell | 12 => some .close
  | _ => none

def toEax (handler : Routines Int) : Routines (Option Int) := do
  let value ← handler
  pure (some value)

def keepEax (handler : Routines Unit) : Routines (Option Int) := do
  handler
  pure none

def dispatch (stackPointer : Nat) : Option Number → Routines (Option Int)
  | some .halt => keepEax systemHalt
  | some .exit => keepEax (systemExit stackPointer)
  | some .exec => toEax (systemExec stackPointer)
  | some .wait => toEax (systemWait stackPointer)
  | some .create => toEax (systemCreate stackPointer)
  | some .remove => toEax (systemRemove stackPointer)
  | some .open => toEax (systemOpen stackPointer)
  | some .filesize => toEax (systemFilesize stackPointer)
  | some .read => toEax (systemRead stackPointer)
  | some .write => toEax (systemWrite stackPointer)
  | some .seek => keepEax (systemSeek stackPointer)
  | some .tell => toEax (systemTell stackPointer)
  | some .close => keepEax (systemClose stackPointer)
  | none => systemExitHelper (-1)

def syscallHandler (stackPointer : Nat) : Routines (Option Int) := do
  let number ← argument stackPointer
  dispatch stackPointer (Number.ofWord number)

end Pintos.Syscall
