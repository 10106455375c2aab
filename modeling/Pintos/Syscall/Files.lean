import Pintos.Syscall.UserStrings

/-! The file routines that are handed user addresses (`filesys/inode.c`,
`file.c`, `directory.c`, `filesys.c`, `lib/kernel/console.c`).

A file name stays at its user address all the way down to `strcmp` and
`strlcpy`, and a user buffer all the way down to the sector copies. Offsets and
sizes are the signed `off_t` of the source.
-/

set_option autoImplicit false

namespace Pintos.Syscall

def slice (sector : Nat → UInt8) (offset count : Nat) : List UInt8 :=
  (List.range count).map fun index => sector (offset + index)

def readLoop (inode buffer : Nat) : Nat → Int → Int → Nat → Bool → Routines Nat
  | 0, _, _, _, _ => hang
  | bound + 1, size, offset, bytesRead, bounce =>
    if 0 < size then do
      let sectorIdx ← routine (.byteToSector inode offset)
      let length ← routine (.inodeLength inode)
      let sectorOfs := offset.tmod blockSectorSize
      let chunkSize := min size (min (length - offset) (blockSectorSize - sectorOfs))
      if chunkSize ≤ 0 then pure bytesRead
      else do
        -- a whole sector goes straight to the caller's buffer
        let direct := sectorOfs = 0 ∧ chunkSize = blockSectorSize
        let ready ← (if direct ∨ bounce then pure true else routine .malloc : Routines Bool)
        if ready then do
          let sector ← routine (.blockRead sectorIdx)
          copyOut (slice sector sectorOfs.toNat chunkSize.toNat) (ptrAdd buffer bytesRead)
          readLoop inode buffer bound (size - chunkSize) (offset + chunkSize) (bytesRead + chunkSize.toNat)
            (bounce || !direct)
        else pure bytesRead
    else pure bytesRead

def inodeReadAt (inode buffer : Nat) (size offset : Int) : Routines Nat := do
  let bytesRead ← readLoop inode buffer (size.toNat + 1) size offset 0 false
  routine .free
  pure bytesRead

def writeLoop (inode buffer : Nat) : Nat → Int → Int → Nat → Bool → Routines Nat
  | 0, _, _, _, _ => hang
  | bound + 1, size, offset, bytesWritten, bounce =>
    if 0 < size then do
      let sectorIdx ← routine (.byteToSector inode offset)
      let length ← routine (.inodeLength inode)
      let sectorOfs := offset.tmod blockSectorSize
      let sectorLeft := blockSectorSize - sectorOfs
      let chunkSize := min size (min (length - offset) sectorLeft)
      if chunkSize ≤ 0 then pure bytesWritten
      else do
        let direct := sectorOfs = 0 ∧ chunkSize = blockSectorSize
        let ready ← (if direct ∨ bounce then pure true else routine .malloc : Routines Bool)
        if ready then do
          -- data of the sector around the chunk is read in first
          let sector ← (if 0 < sectorOfs ∨ chunkSize < sectorLeft then routine (.blockRead sectorIdx)
            else pure fun _ => 0 : Routines (Nat → UInt8))
          let bytes ← copyIn chunkSize.toNat (ptrAdd buffer bytesWritten)
          routine (.blockWrite sectorIdx (slice sector 0 sectorOfs.toNat ++ bytes ++
            slice sector (sectorOfs + chunkSize).toNat (sectorLeft - chunkSize).toNat))
          writeLoop inode buffer bound (size - chunkSize) (offset + chunkSize) (bytesWritten + chunkSize.toNat)
            (bounce || !direct)
        else pure bytesWritten
    else pure bytesWritten

def inodeWriteAt (inode buffer : Nat) (size offset : Int) : Routines Nat := do
  let denied ← routine (.denyWriteCnt inode)
  if denied ≠ 0 then pure 0
  else do
    let bytesWritten ← writeLoop inode buffer (size.toNat + 1) size offset 0 false
    routine .free
    pure bytesWritten

def fileRead (file buffer : Nat) (size : Int) : Routines Int := do
  let inode ← routine (.fileInode file)
  let pos ← routine (.filePos file)
  let bytesRead ← inodeReadAt inode buffer size pos
  routine (.setFilePos file (pos + bytesRead))
  pure bytesRead

def fileWrite (file buffer : Nat) (size : Int) : Routines Int := do
  let inode ← routine (.fileInode file)
  let pos ← routine (.filePos file)
  let bytesWritten ← inodeWriteAt inode buffer size pos
  routine (.setFilePos file (pos + bytesWritten))
  pure bytesWritten

def fileLength (file : Nat) : Routines Int := do
  let inode ← routine (.fileInode file)
  routine (.inodeLength inode)

def fileSeek (file : Nat) (newPos : Int) : Routines Unit := do
  assert (0 ≤ newPos)
  routine (.setFilePos file newPos)

def lookupLoop (name : Nat) : Nat → Nat → Routines (Option (DirEntry × Nat))
  | 0, _ => hang
  | bound + 1, number => do
    let entry ← routine (.readEntry number)
    match entry with
    | none => pure none
    | some entry =>
      if entry.inUse then do
        let order ← strcmp name entry.name
        if order = 0 then pure (some (entry, number)) else lookupLoop name bound (number + 1)
      else lookupLoop name bound (number + 1)

def lookup (name : Nat) : Routines (Option (DirEntry × Nat)) := lookupLoop name addresses 0

def freeEntryLoop : Nat → Nat → Routines Nat
  | 0, _ => hang
  | bound + 1, number => do
    let entry ← routine (.readEntry number)
    match entry with
    | none => pure number
    | some entry => if entry.inUse then freeEntryLoop bound (number + 1) else pure number

def dirAdd (name inodeSector : Nat) : Routines Bool := do
  let first ← load name
  if first = 0 then pure false
  else do
    let length ← strlen name
    if nameMax < length then pure false
    else do
      let present ← lookup name
      if present.isSome then pure false
      else do
        let number ← freeEntryLoop addresses 0
        let bytes ← strlcpy name (nameMax + 1)
        routine (.writeEntry number ⟨inodeSector, bytes.take nameMax, true, List.length_take_le _ _⟩)

def dirRemove (name : Nat) : Routines Bool := do
  let found ← lookup name
  match found with
  | none => pure false
  | some (entry, number) => do
    let inode ← routine (.inodeOpen entry.inodeSector)
    if inode = 0 then pure false
    else do
      let erased ← routine (.writeEntry number { entry with inUse := false })
      (if erased then routine (.inodeRemove inode) else pure () : Routines Unit)
      routine (.inodeClose inode)
      pure erased

def inodeCreate (sector : Nat) (length : Int) : Routines Bool := do
  assert (0 ≤ length)
  routine (.inodeCreate sector length)

/-- The conjunction of `filesys_create` on an open directory, with its clean-up. -/
def createIn (name : Nat) (initialSize : Int) : Routines Bool := do
  let allocated ← routine .freeMapAllocate
  match allocated with
  | none => pure false
  | some inodeSector => do
    let created ← inodeCreate inodeSector initialSize
    let success ← (if created then dirAdd name inodeSector else pure false : Routines Bool)
    (if !success ∧ inodeSector ≠ 0 then routine (.freeMapRelease inodeSector) else pure () : Routines Unit)
    pure success

def filesysCreate (name : Nat) (initialSize : Int) : Routines Bool := do
  let dir ← routine .dirOpenRoot
  if dir then do
    let success ← createIn name initialSize
    routine .dirClose
    pure success
  else pure false

def dirLookup (name : Nat) : Routines Nat := do
  let found ← lookup name
  match found with
  | none => pure 0
  | some (entry, _) => routine (.inodeOpen entry.inodeSector)

def filesysOpen (name : Nat) : Routines Nat := do
  let dir ← routine .dirOpenRoot
  if dir then do
    let inode ← dirLookup name
    routine .dirClose
    routine (.fileOpen inode)
  else routine (.fileOpen 0)

def filesysRemove (name : Nat) : Routines Bool := do
  let dir ← routine .dirOpenRoot
  if dir then do
    let success ← dirRemove name
    routine .dirClose
    pure success
  else pure false

def putbufLoop : Nat → Nat → Routines Unit
  | 0, _ => pure ()
  | count + 1, address => do
    let byte ← load address
    routine (.putcharHaveLock byte)
    putbufLoop count (ptrAdd address 1)

def putbuf (buffer count : Nat) : Routines Unit := do
  routine .acquireConsole
  putbufLoop count buffer
  routine .releaseConsole

/-- The part of `thread_create` that reads the new thread's name: none when there
is no page for the thread, else what `init_thread` copies of it. -/
def threadName (name : Nat) : Routines (Option (List UInt8)) := do
  let page ← routine .pallocGetPage
  if page then do
    let bytes ← strlcpy name 16
    pure (some bytes)
  else pure none

def processExecute (fileName : Nat) : Routines Int := do
  let fnCopy ← routine .pallocGetPage
  if fnCopy then do
    let command ← strlcpy fileName pgSize
    -- the thread takes its name from the user's address once more
    let name ← threadName fileName
    routine (.registerChild name command)
  else pure (-1)

end Pintos.Syscall
