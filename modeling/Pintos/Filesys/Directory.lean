import Pintos.Filesys.Inode

/-! The root directory and the file system (`filesys/directory.c`, `filesys.c`). -/

set_option autoImplicit false

namespace Pintos.Filesys
open Semantics Computation

def nameMax : Nat := 14

/-- A file name as the string functions see it: the bytes before the terminator. -/
abbrev Name := { bytes : List UInt8 // 0 ∉ bytes }

def entrySize : Nat := 20

/-- `struct dir_entry`, with all bytes of its name field. -/
structure DirEntry where
  inodeSector : Nat
  field : List UInt8
  inUse : Bool

namespace DirEntry

def encode (entry : DirEntry) : List UInt8 :=
  toBytes 4 entry.inodeSector ++ entry.field ++ [if entry.inUse then 1 else 0]

def decode (bytes : List UInt8) : DirEntry where
  inodeSector := ofBytes (bytes.take 4)
  field := (bytes.drop 4).take (nameMax + 1)
  inUse := bytes.getD 19 0 != 0

def name (entry : DirEntry) : List UInt8 := entry.field.takeWhile (· ≠ 0)

/-- `strlcpy` into the name field: what stood behind the terminator stays. -/
def copyName (entry : DirEntry) (name : List UInt8) : DirEntry :=
  let copied := name.take nameMax
  { entry with field := copied ++ 0 :: entry.field.drop (copied.length + 1) }

end DirEntry

section Directories

/-- `dir_open` of an inode: the directory, by its inode, if there is one. -/
def dirOpen (inode : Nat) : Fs (Option Nat) := do
  let dir ← malloc
  if inode ≠ 0 ∧ dir then return some inode
  else do
    inodeClose inode
    return none

def dirOpenRoot : Fs (Option Nat) := do
  let inode ← inodeOpen rootDirSector
  dirOpen inode

def dirClose : Option Nat → Fs Unit
  | some inode => inodeClose inode
  | none => return ()

def readEntry (dir ofs : Nat) : Fs (Option DirEntry) := do
  let bytes ← inodeReadAt dir entrySize ofs
  return if bytes.length = entrySize then some (DirEntry.decode bytes) else none

def lookupLoop (dir : Nat) (name : Name) : Nat → Nat → Fs (Option (DirEntry × Nat))
  | 0, _ => stop .diverge
  | fuel + 1, ofs => do
    match ← readEntry dir ofs with
    | none => return none
    | some entry =>
      if entry.inUse ∧ entry.name = name.val then return some (entry, ofs)
      else lookupLoop dir name fuel (ofs + entrySize)

def entryFuel (dir : Nat) : Fs Nat := do
  let found ← inodeAt dir
  return found.data.length.toNat / entrySize + 2

def lookup (dir : Nat) (name : Name) : Fs (Option (DirEntry × Nat)) := do
  let fuel ← entryFuel dir
  lookupLoop dir name fuel 0

def dirLookup (dir : Nat) (name : Name) : Fs Nat := do
  match ← lookup dir name with
  | some (entry, _) => inodeOpen entry.inodeSector
  | none => return 0

def freeEntryLoop (dir : Nat) : Nat → Nat → DirEntry → Fs (DirEntry × Nat)
  | 0, _, _ => stop .diverge
  | fuel + 1, ofs, last => do
    match ← readEntry dir ofs with
    | none => return (last, ofs)
    | some entry => if entry.inUse then freeEntryLoop dir fuel (ofs + entrySize) entry else return (entry, ofs)

/-- The local variable of `dir_add` before anything is read into it. -/
def blankEntry : DirEntry := ⟨0, List.replicate (nameMax + 1) 0, false⟩

def dirAdd (dir : Nat) (name : Name) (inodeSector : Nat) : Fs Bool := do
  if name.val = [] ∨ nameMax < name.val.length then return false
  else
    match ← lookup dir name with
    | some _ => return false
    | none => do
      let fuel ← entryFuel dir
      let (last, ofs) ← freeEntryLoop dir fuel 0 blankEntry
      let entry := { last.copyName name.val with inUse := true, inodeSector := inodeSector }
      let written ← inodeWriteAt dir entry.encode ofs
      return written == entrySize

def dirRemove (dir : Nat) (name : Name) : Fs Bool := do
  match ← lookup dir name with
  | none => do
    inodeClose 0
    return false
  | some (entry, ofs) => do
    let inode ← inodeOpen entry.inodeSector
    if inode = 0 then do
      inodeClose inode
      return false
    else do
      let written ← inodeWriteAt dir { entry with inUse := false }.encode ofs
      if written ≠ entrySize then do
        inodeClose inode
        return false
      else do
        inodeRemove inode
        inodeClose inode
        return true

def dirCreate (sector entryCnt : Nat) : Fs Bool := inodeCreate sector (entryCnt * entrySize)

end Directories

section Filesys

/-- The conjunction of `filesys_create`: whether it succeeded, and the sector
that was allocated for the inode, 0 if none was. -/
def createIn (dir : Option Nat) (name : Name) (initialSize : Int) : Fs (Bool × Nat) := do
  match dir with
  | none => return (false, 0)
  | some dir =>
    match ← freeMapAllocate 1 with
    | none => return (false, 0)
    | some inodeSector => do
      if ← inodeCreate inodeSector initialSize then do
        let added ← dirAdd dir name inodeSector
        return (added, inodeSector)
      else return (false, inodeSector)

def filesysCreate (name : Name) (initialSize : Int) : Fs Bool := do
  let dir ← dirOpenRoot
  let (success, inodeSector) ← createIn dir name initialSize
  if !success ∧ inodeSector ≠ 0 then freeMapRelease inodeSector 1
  dirClose dir
  return success

def filesysOpen (name : Name) : Fs Nat := do
  let dir ← dirOpenRoot
  let inode ← (match dir with
    | some dir => dirLookup dir name
    | none => return 0 : Fs Nat)
  dirClose dir
  fileOpen inode

def filesysRemove (name : Name) : Fs Bool := do
  let dir ← dirOpenRoot
  let success ← (match dir with
    | some dir => dirRemove dir name
    | none => return false : Fs Bool)
  dirClose dir
  return success

end Filesys

section Formatting

/-- `free_map_init`. The elements `malloc` returns hold what memory held. -/
def freeMapInit : Fs Unit := do
  let header ← malloc
  let s ← get
  let elements ← malloc
  assert (header && elements && byteCnt s.size != 0)
  setFreeMap fun map =>
    let cleared := Bitmap.setMultiple { bitCnt := s.size, bits := map.bits } 0 s.size false
    (cleared.mark freeMapSector).mark rootDirSector

/-- The assignment of `free_map_open` and `free_map_create`. -/
def openFreeMapFile : Fs Unit := do
  let inode ← inodeOpen freeMapSector
  let file ← fileOpen inode
  modify fun s => { s with freeMapFile := file }
  assert (file != 0)

def freeMapCreate : Fs Unit := do
  let s ← get
  let created ← inodeCreate freeMapSector (byteCnt s.freeMap.bitCnt)
  assert created
  openFreeMapFile
  let written ← bitmapWrite
  assert written

def freeMapOpen : Fs Unit := do
  openFreeMapFile
  let s ← get
  if 0 < s.freeMap.bitCnt then do
    let bytes ← fileReadAt s.freeMapFile (byteCnt s.freeMap.bitCnt) 0
    assert (bytes.length = byteCnt s.freeMap.bitCnt)
    setFreeMap fun map => map.load bytes

def freeMapClose : Fs Unit := do
  let s ← get
  fileClose s.freeMapFile

def doFormat : Fs Unit := do
  freeMapCreate
  let created ← dirCreate rootDirSector 16
  assert created
  freeMapClose

def inodeInit : Fs Unit := onTable fun table => { table with openInodes := [] }

def filesysInit (format : Bool) : Fs Unit := do
  inodeInit
  freeMapInit
  if format then doFormat
  freeMapOpen

end Formatting

end Pintos.Filesys
