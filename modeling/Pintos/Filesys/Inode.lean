import Pintos.Filesys.Device

/-! The free map, inodes and files (`filesys/free-map.c`, `inode.c`, `file.c`).

What the operations do to the structures in memory is given by the functions on
`Table`; releasing memory forgets the structure at its address.
-/

set_option autoImplicit false

namespace Pintos.Filesys
open Semantics Computation

def freeMapSector : Nat := 0

def rootDirSector : Nat := 1

namespace Table
variable (table : Table)

def setInode (inode : Nat) (value : Inode) : Table :=
  { table with inodes := Function.update table.inodes inode (some value) }

def setFile (file : Nat) (value : File) : Table := { table with files := Function.update table.files file (some value) }

def search (sector : Nat) : Option Nat :=
  table.openInodes.find? fun inode => (table.inodes inode).any fun found => found.sector = sector

def insert (sector : Nat) (data : InodeDisk) : Table :=
  { table with
    openInodes := table.next :: table.openInodes
    inodes := Function.update table.inodes table.next (some ⟨sector, 1, false, 0, data⟩)
    next := table.next + 1 }

def addFile (inode : Nat) : Table :=
  { table with
    files := Function.update table.files table.next (some ⟨inode, 0, false⟩)
    next := table.next + 1 }

def freeInode (inode : Nat) : Table := { table with inodes := Function.update table.inodes inode none }

def freeFile (file : Nat) : Table := { table with files := Function.update table.files file none }

end Table

def onTable (change : Table → Table) : Fs Unit := modify fun s => { s with table := change s.table }

section FreeMap

def bitmapWrite : Fs Bool := do
  let s ← get
  let written ← fileWriteAt s.freeMapFile s.freeMap.bytes 0
  return written == byteCnt s.freeMap.bitCnt

def setFreeMap (change : Bitmap → Bitmap) : Fs Unit := modify fun s => { s with freeMap := change s.freeMap }

def freeMapAllocate (cnt : Nat) : Fs (Option Nat) := do
  let s ← get
  match s.freeMap.scan 0 cnt false with
  | none => return none
  | some sector => do
    setFreeMap fun map => map.setMultiple sector cnt true
    if s.freeMapFile ≠ 0 then do
      let written ← bitmapWrite
      if written then return some sector
      else do
        setFreeMap fun map => map.setMultiple sector cnt false
        return none
    else return some sector

def freeMapRelease (sector cnt : Nat) : Fs Unit := do
  let s ← get
  -- `bitmap_contains` asserts the range before it looks at the bits
  assert (sector + cnt ≤ s.freeMap.bitCnt)
  assert (s.freeMap.all sector cnt)
  setFreeMap fun map => map.setMultiple sector cnt false
  let _ ← bitmapWrite

end FreeMap

section Inodes

def zeroLoop (start : Nat) : Nat → Fs Unit
  | 0 => return ()
  | left + 1 => do
    blockWrite start (List.replicate blockSectorSize 0)
    zeroLoop (start + 1) left

def inodeCreate (sector : Nat) (length : Int) : Fs Bool := do
  assert (0 ≤ length)
  if ← malloc then do
    let sectors := bytesToSectors length
    match ← freeMapAllocate sectors with
    | some start => do
      blockWrite sector (InodeDisk.encode ⟨start, length⟩)
      zeroLoop start sectors
      return true
    | none => return false
  else return false

def inodeReopen (inode : Nat) : Fs Nat := do
  if inode ≠ 0 then do
    let found ← inodeAt inode
    onTable fun table => table.setInode inode { found with openCnt := found.openCnt + 1 }
  return inode

def inodeFinish (sector : Nat) : Option Nat → Fs Nat
  | some inode => inodeReopen inode
  | none => do
    if ← malloc then do
      let bytes ← blockRead sector
      let s ← get
      onTable fun table => table.insert sector (InodeDisk.decode bytes)
      return s.table.next
    else return 0

def inodeOpen (sector : Nat) : Fs Nat := do
  let s ← get
  inodeFinish sector (s.table.search sector)

def inodeClose (inode : Nat) : Fs Unit := do
  if inode = 0 then return ()
  else do
    let found ← inodeAt inode
    onTable fun table => table.setInode inode { found with openCnt := found.openCnt - 1 }
    if found.openCnt - 1 = 0 then do
      onTable fun table => { table with openInodes := table.openInodes.erase inode }
      if found.removed then do
        freeMapRelease found.sector 1
        freeMapRelease found.data.start (bytesToSectors found.data.length)
      onTable fun table => table.freeInode inode

def inodeRemove (inode : Nat) : Fs Unit := do
  assert (inode != 0)
  let found ← inodeAt inode
  onTable fun table => table.setInode inode { found with removed := true }

def inodeDenyWrite (inode : Nat) : Fs Unit := do
  let found ← inodeAt inode
  onTable fun table => table.setInode inode { found with denyWriteCnt := found.denyWriteCnt + 1 }
  assert (found.denyWriteCnt + 1 ≤ found.openCnt)

def inodeAllowWrite (inode : Nat) : Fs Unit := do
  let found ← inodeAt inode
  assert (0 < found.denyWriteCnt)
  assert (found.denyWriteCnt ≤ found.openCnt)
  onTable fun table => table.setInode inode { found with denyWriteCnt := found.denyWriteCnt - 1 }

end Inodes

section Files

def fileOpen (inode : Nat) : Fs Nat := do
  let file ← malloc
  if inode ≠ 0 ∧ file then do
    let s ← get
    onTable fun table => table.addFile inode
    return s.table.next
  else do
    inodeClose inode
    return 0

def fileReopen (file : Nat) : Fs Nat := do
  let found ← fileAt file
  let inode ← inodeReopen found.inode
  fileOpen inode

def fileDenyWrite (file : Nat) : Fs Unit := do
  assert (file != 0)
  let found ← fileAt file
  if !found.denyWrite then do
    onTable fun table => table.setFile file { found with denyWrite := true }
    inodeDenyWrite found.inode

def fileAllowWrite (file : Nat) : Fs Unit := do
  assert (file != 0)
  let found ← fileAt file
  if found.denyWrite then do
    onTable fun table => table.setFile file { found with denyWrite := false }
    inodeAllowWrite found.inode

def fileClose (file : Nat) : Fs Unit := do
  if file ≠ 0 then do
    fileAllowWrite file
    let found ← fileAt file
    inodeClose found.inode
    onTable fun table => table.freeFile file

def fileRead (file size : Nat) : Fs (List UInt8) := do
  let found ← fileAt file
  let bytes ← inodeReadAt found.inode size found.pos
  onTable fun table => table.setFile file { found with pos := found.pos + bytes.length }
  return bytes

def fileWrite (file : Nat) (bytes : List UInt8) : Fs Nat := do
  let found ← fileAt file
  let written ← inodeWriteAt found.inode bytes found.pos
  onTable fun table => table.setFile file { found with pos := found.pos + written }
  return written

def fileSeek (file : Nat) (newPos : Int) : Fs Unit := do
  assert (file != 0)
  assert (0 ≤ newPos)
  let found ← fileAt file
  onTable fun table => table.setFile file { found with pos := newPos.toNat }

end Files

end Pintos.Filesys
