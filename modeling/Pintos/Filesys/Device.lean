import Pintos.Filesys.Bitmap
import Pintos.Semantics.Computation
import Pintos.Semantics.Overlay
import Pintos.Semantics.Words
import Pintos.Vm.Address

/-! The state of the file system and the transfers between it and memory
(`filesys/inode.c`, `devices/block.c`).

The device is an array of bytes, sector after sector. The structures in memory
are kept by address, 0 being the null pointer, and an address that has been
freed holds nothing: reaching for it stops the model. Whether an allocation
succeeds is read from a sequence of outcomes that is not known in advance.
Sizes and positions are the non-negative numbers the callers pass.
-/

set_option autoImplicit false

namespace Pintos.Filesys
open Semantics Computation

/-- `struct inode_disk`: what is read of it again. -/
structure InodeDisk where
  start : Nat
  length : Int
  deriving DecidableEq, Repr

structure Inode where
  sector : Nat
  openCnt : Int
  removed : Bool
  denyWriteCnt : Int
  data : InodeDisk
  deriving DecidableEq, Repr

structure File where
  inode : Nat
  pos : Nat
  denyWrite : Bool
  deriving DecidableEq, Repr

structure Table where
  openInodes : List Nat
  inodes : Nat → Option Inode
  files : Nat → Option File
  next : Nat

structure State where
  size : Nat
  disk : Nat → UInt8
  freeMap : Bitmap
  freeMapFile : Nat
  table : Table
  memory : Nat → Bool
  allocations : Nat

inductive Halt where
  | panic
  /-- A pointer to nothing was followed. -/
  | wild
  | diverge
  deriving DecidableEq, Repr

abbrev Fs (A : Type) := Computation State Halt A

def assert (condition : Bool) : Fs Unit := require .panic fun _ => condition

def malloc : Fs Bool := fun s => .returned (s.memory s.allocations) { s with allocations := s.allocations + 1 }

section Blocks

/-- `check_sector` panics beyond the end of the device. -/
def blockRead (sector : Nat) : Fs (Nat → UInt8) := do
  let s ← get
  assert (sector < s.size)
  return fun offset => s.disk (blockSectorSize * sector + offset)

def blockWrite (sector : Nat) (bytes : List UInt8) : Fs Unit := do
  let s ← get
  assert (sector < s.size)
  modify fun s => { s with disk := overlay s.disk (blockSectorSize * sector) bytes }

end Blocks

section Inodes

def inodeMagic : Nat := 0x494e4f44

def InodeDisk.encode (inode : InodeDisk) : List UInt8 :=
  toBytes 4 inode.start ++ toBytes 4 (word32 inode.length) ++ toBytes 4 inodeMagic ++ List.replicate 500 0

def InodeDisk.decode (sector : Nat → UInt8) : InodeDisk where
  start := ofBytes (window sector 0 4)
  length := signed32 (ofBytes (window sector 4 4))

/-- `DIV_ROUND_UP` of an `off_t`, converted to `size_t`; the sum may wrap around. -/
def bytesToSectors (size : Int) : Nat := word32 ((signed32 (word32 (size + (blockSectorSize - 1)))).tdiv blockSectorSize)

def byteToSector (inode : InodeDisk) (pos : Nat) : Nat :=
  if (pos : Int) < inode.length then (inode.start + pos / blockSectorSize) % 2 ^ 32 else 2 ^ 32 - 1

def inodeAt (inode : Nat) : Fs Inode := do
  let s ← get
  match s.table.inodes inode with
  | some found => return found
  | none => stop .wild

def chunkSize (inode : InodeDisk) (size offset : Nat) : Nat :=
  min size (min (inode.length - offset).toNat (blockSectorSize - offset % blockSectorSize))

/-- The loop of `inode_read_at`, with what it has read so far; `bounce` says that
the bounce buffer has been allocated. -/
def readLoop (inode : InodeDisk) : Nat → Nat → Nat → Bool → List UInt8 → Fs (List UInt8)
  | 0, _, _, _, _ => stop .diverge
  | fuel + 1, size, offset, bounce, read =>
    if 0 < size then do
      let sectorIdx := byteToSector inode offset
      let sectorOfs := offset % blockSectorSize
      let chunk := chunkSize inode size offset
      if chunk = 0 then return read
      else do
        let direct := decide (sectorOfs = 0 ∧ chunk = blockSectorSize)
        let ready ← (if direct || bounce then pure true else malloc : Fs Bool)
        if ready then do
          let sector ← blockRead sectorIdx
          readLoop inode fuel (size - chunk) (offset + chunk) (bounce || !direct) (read ++ window sector sectorOfs chunk)
        else return read
    else return read

def inodeReadAt (inode size offset : Nat) : Fs (List UInt8) := do
  let found ← inodeAt inode
  readLoop found.data (size + 1) size offset false []

def writeLoop (inode : InodeDisk) : Nat → List UInt8 → Nat → Bool → Nat → Fs Nat
  | 0, _, _, _, _ => stop .diverge
  | fuel + 1, bytes, offset, bounce, written =>
    if 0 < bytes.length then do
      let sectorIdx := byteToSector inode offset
      let sectorOfs := offset % blockSectorSize
      let sectorLeft := blockSectorSize - sectorOfs
      let chunk := chunkSize inode bytes.length offset
      if chunk = 0 then return written
      else do
        let direct := decide (sectorOfs = 0 ∧ chunk = blockSectorSize)
        let ready ← (if direct || bounce then pure true else malloc : Fs Bool)
        if ready then do
          -- data of the sector around the chunk is read in first
          let sector ← (if 0 < sectorOfs ∨ chunk < sectorLeft then blockRead sectorIdx else pure fun _ => 0 : Fs (Nat → UInt8))
          blockWrite sectorIdx
            (window sector 0 sectorOfs ++ bytes.take chunk ++ window sector (sectorOfs + chunk) (sectorLeft - chunk))
          writeLoop inode fuel (bytes.drop chunk) (offset + chunk) (bounce || !direct) (written + chunk)
        else return written
    else return written

def inodeWriteAt (inode : Nat) (bytes : List UInt8) (offset : Nat) : Fs Nat := do
  let found ← inodeAt inode
  if found.denyWriteCnt ≠ 0 then return 0
  else writeLoop found.data (bytes.length + 1) bytes offset false 0

end Inodes

section Files

def fileAt (file : Nat) : Fs File := do
  let s ← get
  match s.table.files file with
  | some found => return found
  | none => stop .wild

def fileReadAt (file size fileOfs : Nat) : Fs (List UInt8) := do
  let found ← fileAt file
  inodeReadAt found.inode size fileOfs

def fileWriteAt (file : Nat) (bytes : List UInt8) (fileOfs : Nat) : Fs Nat := do
  let found ← fileAt file
  inodeWriteAt found.inode bytes fileOfs

end Files

end Pintos.Filesys
