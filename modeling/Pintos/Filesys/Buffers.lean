import Pintos.Filesys.Handles

/-! `inode_read_at` and `inode_write_at` between the device and a buffer.

A round moves a whole sector straight between the device and the caller's
buffer, or part of one through the bounce buffer. The other modules ask only
which bytes arrive, and for that the two ways are one; here each is written as
the source has it, in the signed numbers of the source, and shown to move the
bytes that the transfers of lists move.
-/

set_option autoImplicit false

namespace Pintos.Filesys.Buffers
open Semantics Computation

abbrev Memory := Nat → UInt8

def memcpy (memory : Memory) (dst : Nat) (other : Memory) (src size : Nat) : Memory :=
  overlay memory dst (window other src size)

section Code

def chunkSize (inode : InodeDisk) (size offset : Int) : Int :=
  let inodeLeft := inode.length - offset
  let sectorLeft := blockSectorSize - offset.tmod blockSectorSize
  let minLeft := if inodeLeft < sectorLeft then inodeLeft else sectorLeft
  if size < minLeft then size else minLeft

def readDirect (sectorIdx buffer : Nat) (memory : Memory) : Fs Memory := do
  let sector ← blockRead sectorIdx
  return memcpy memory buffer sector 0 blockSectorSize

def readBounced (sectorIdx buffer sectorOfs chunk : Nat) (memory : Memory) : Fs Memory := do
  let bounce ← blockRead sectorIdx
  return memcpy memory buffer bounce sectorOfs chunk

def writeDirect (sectorIdx buffer : Nat) (memory : Memory) : Fs Unit :=
  blockWrite sectorIdx (window memory buffer blockSectorSize)

/-- The bounce buffer starts as the sector when it has data around the chunk, else as zeros. -/
def writeBounced (sectorIdx buffer sectorOfs chunk : Nat) (memory : Memory) : Fs Unit := do
  let bounce ← (if 0 < sectorOfs ∨ chunk < blockSectorSize - sectorOfs then blockRead sectorIdx
    else pure fun _ => 0 : Fs Memory)
  blockWrite sectorIdx (window (memcpy bounce sectorOfs memory buffer chunk) 0 blockSectorSize)

def getBounce (bounce : Bool) : Fs Bool := if bounce then pure true else malloc

def readLoop (inode : InodeDisk) (buffer : Nat) : Nat → Int → Int → Nat → Bool → Memory → Fs (Nat × Memory)
  | 0, _, _, _, _, _ => stop .diverge
  | fuel + 1, size, offset, bytesRead, bounce, memory =>
    if 0 < size then
      let sectorIdx := byteToSector inode offset.toNat
      let sectorOfs := (offset.tmod blockSectorSize).toNat
      let chunk := chunkSize inode size offset
      if chunk ≤ 0 then return (bytesRead, memory)
      else if sectorOfs = 0 ∧ chunk = blockSectorSize then do
        let memory ← readDirect sectorIdx (buffer + bytesRead) memory
        readLoop inode buffer fuel (size - chunk) (offset + chunk) (bytesRead + chunk.toNat) bounce memory
      else do
        if ← getBounce bounce then do
          let memory ← readBounced sectorIdx (buffer + bytesRead) sectorOfs chunk.toNat memory
          readLoop inode buffer fuel (size - chunk) (offset + chunk) (bytesRead + chunk.toNat) true memory
        else return (bytesRead, memory)
    else return (bytesRead, memory)

/-- `inode_read_at`: the number of bytes read, and the memory it leaves. -/
def inodeReadAt (inode buffer : Nat) (size offset : Int) (memory : Memory) : Fs (Nat × Memory) := do
  let found ← inodeAt inode
  readLoop found.data buffer (size.toNat + 1) size offset 0 false memory

def writeLoop (inode : InodeDisk) (buffer : Nat) (memory : Memory) : Nat → Int → Int → Nat → Bool → Fs Nat
  | 0, _, _, _, _ => stop .diverge
  | fuel + 1, size, offset, bytesWritten, bounce =>
    if 0 < size then
      let sectorIdx := byteToSector inode offset.toNat
      let sectorOfs := (offset.tmod blockSectorSize).toNat
      let chunk := chunkSize inode size offset
      if chunk ≤ 0 then return bytesWritten
      else if sectorOfs = 0 ∧ chunk = blockSectorSize then do
        writeDirect sectorIdx (buffer + bytesWritten) memory
        writeLoop inode buffer memory fuel (size - chunk) (offset + chunk) (bytesWritten + chunk.toNat) bounce
      else do
        if ← getBounce bounce then do
          writeBounced sectorIdx (buffer + bytesWritten) sectorOfs chunk.toNat memory
          writeLoop inode buffer memory fuel (size - chunk) (offset + chunk) (bytesWritten + chunk.toNat) true
        else return bytesWritten
    else return bytesWritten

def inodeWriteAt (inode buffer : Nat) (size offset : Int) (memory : Memory) : Fs Nat := do
  let found ← inodeAt inode
  if found.denyWriteCnt ≠ 0 then return 0
  else writeLoop found.data buffer memory (size.toNat + 1) size offset 0 false

end Code

section Rounds
variable {size offset : Int}

theorem toNat_tmod (low : 0 ≤ offset) : (offset.tmod blockSectorSize).toNat = offset.toNat % blockSectorSize := by
  have sector : (blockSectorSize : Int) = 512 := rfl
  have same : blockSectorSize = 512 := rfl
  rw [Int.tmod_eq_emod_of_nonneg low, sector, same]
  omega

/-- The signed minimum is the bytes of the round, or not positive when there are none. -/
theorem chunkSize_cases (inode : InodeDisk) (low : 0 ≤ offset) (more : 0 < size) :
    (chunkSize inode size offset ≤ 0 ∧ Filesys.chunkSize inode size.toNat offset.toNat = 0) ∨
      (0 < chunkSize inode size offset ∧ chunkSize inode size offset = Filesys.chunkSize inode size.toNat offset.toNat) := by
  have sector : blockSectorSize = 512 := rfl
  simp only [chunkSize, Filesys.chunkSize, Int.tmod_eq_emod_of_nonneg low, sector]
  omega

end Rounds

/-- A whole sector through the bounce buffer is the sector itself, read or written. -/
theorem direct_eq_bounced (sectorIdx buffer : Nat) (memory : Memory) :
    readDirect sectorIdx buffer memory = readBounced sectorIdx buffer 0 blockSectorSize memory ∧
      writeDirect sectorIdx buffer memory = writeBounced sectorIdx buffer 0 blockSectorSize memory := by
  refine ⟨rfl, ?_⟩
  have copied : window (overlay (fun _ => 0) 0 (window memory buffer blockSectorSize)) 0
      (window memory buffer blockSectorSize).length = window memory buffer blockSectorSize := window_overlay _
  rw [length_window] at copied
  funext s
  rw [writeBounced, if_neg (by decide), bind_pure_apply, memcpy, copied, writeDirect]

theorem window_memcpy (bounce memory : Memory) (buffer : Nat) {sectorOfs chunk : Nat}
    (inside : sectorOfs + chunk ≤ blockSectorSize) :
    window (memcpy bounce sectorOfs memory buffer chunk) 0 blockSectorSize =
      window bounce 0 sectorOfs ++ window memory buffer chunk ++
        window bounce (sectorOfs + chunk) (blockSectorSize - sectorOfs - chunk) := by
  have within : window (overlay bounce (0 + sectorOfs) (window memory buffer chunk)) 0 blockSectorSize = _ :=
    window_overlay_within _ (by rw [length_window]; exact inside)
  rw [Nat.zero_add, length_window, take_window, drop_window, Nat.min_eq_left (Nat.le_of_add_right_le inside), Nat.zero_add,
    ← Nat.sub_sub] at within
  rw [memcpy, within]

/-- What part of a sector adds to the bytes that are already in the buffer. -/
theorem readBounced_append {A : Type} (sectorIdx buffer sectorOfs chunk : Nat) (memory : Memory) (read : List UInt8)
    (next : Memory → Fs A) (s : State) :
    (readBounced sectorIdx (buffer + read.length) sectorOfs chunk (overlay memory buffer read) >>= next) s =
      (blockRead sectorIdx >>= fun sector => next (overlay memory buffer (read ++ window sector sectorOfs chunk))) s := by
  rw [readBounced, bind_bind]
  refine bind_congr fun sector after _ => ?_
  rw [bind_pure_apply, memcpy, overlay_append]

/-- What part of a sector is written with: the rest of it as it was. -/
theorem writeBounced_around {A : Type} (sectorIdx buffer : Nat) {sectorOfs chunk : Nat} (memory : Memory)
    (inside : sectorOfs + chunk ≤ blockSectorSize) (next : Unit → Fs A) (s : State) :
    (writeBounced sectorIdx buffer sectorOfs chunk memory >>= next) s =
      ((if 0 < sectorOfs ∨ chunk < blockSectorSize - sectorOfs then blockRead sectorIdx else pure fun _ => 0 : Fs Memory) >>=
        fun sector => blockWrite sectorIdx (window sector 0 sectorOfs ++ window memory buffer chunk ++
          window sector (sectorOfs + chunk) (blockSectorSize - sectorOfs - chunk)) >>= next) s := by
  rw [writeBounced, bind_bind]
  refine bind_congr fun sector after _ => ?_
  rw [window_memcpy sector memory buffer inside]

theorem round_counts {chunk offset : Int} {count : Nat} (size : Int) (low : 0 ≤ offset) (some : 0 < chunk)
    (same : chunk = count) : count ≠ 0 ∧ (size - chunk).toNat = size.toNat - count ∧
      (offset + chunk).toNat = offset.toNat + count ∧ chunk.toNat = count := by
  omega

section Refining
variable (inode : InodeDisk) (buffer : Nat) (memory : Memory)

theorem readLoop_eq (fuel : Nat) (size offset : Int) (bounce : Bool) (read : List UInt8) (low : 0 ≤ offset) (s : State) :
    readLoop inode buffer fuel size offset read.length bounce (overlay memory buffer read) s =
      (Filesys.readLoop inode fuel size.toNat offset.toNat bounce read >>= fun all =>
        return (all.length, overlay memory buffer all)) s := by
  induction fuel generalizing size offset bounce read s with
  | zero => rfl
  | succ fuel ih =>
    rw [readLoop, Filesys.readLoop]
    by_cases more : 0 < size
    · rw [if_pos more, if_pos (by omega : 0 < size.toNat)]
      obtain ⟨none, zero⟩ | ⟨some, same⟩ := chunkSize_cases inode low more
      · simp only [if_pos none, if_pos zero]
        rfl
      · generalize chunkSize inode size offset = chunk at *
        generalize Filesys.chunkSize inode size.toNat offset.toNat = count at *
        obtain ⟨nonzero, rest, next, counted⟩ := round_counts size low some same
        -- both loops have read the sector and go on from what it holds
        have round : ∀ sectorOfs there s, (blockRead (byteToSector inode offset.toNat) >>= fun sector =>
              readLoop inode buffer fuel (size - chunk) (offset + chunk) (read.length + count) there
                (overlay memory buffer (read ++ window sector sectorOfs count))) s =
            ((blockRead (byteToSector inode offset.toNat) >>= fun sector => Filesys.readLoop inode fuel (size.toNat - count)
              (offset.toNat + count) there (read ++ window sector sectorOfs count)) >>= fun all =>
                return (all.length, overlay memory buffer all)) s := by
          intro sectorOfs there s
          rw [bind_bind]
          refine bind_congr fun sector after _ => ?_
          have going := ih (size - chunk) (offset + chunk) there (read ++ window sector sectorOfs count) (by omega) after
          rwa [List.length_append, length_window, rest, next] at going
        simp only [if_neg (Int.not_le.mpr some), if_neg nonzero, toNat_tmod low, counted]
        by_cases direct : offset.toNat % blockSectorSize = 0 ∧ count = blockSectorSize
        · rw [if_pos ⟨direct.1, by rw [same, direct.2]⟩, (direct_eq_bounced ..).1, ← direct.2, readBounced_append, round]
          simp only [direct, and_self, decide_true, Bool.true_or, if_true, Bool.not_true, Bool.or_false]
          rfl
        · rw [if_neg (by rw [same, Int.ofNat_inj]; exact direct), bind_bind]
          simp only [direct, decide_false, Bool.false_or, Bool.not_false, Bool.or_true]
          refine bind_congr fun ready after _ => ?_
          cases ready with
          | false => rfl
          | true =>
            simp only [if_true]
            rw [readBounced_append, round]
    · rw [if_neg more, if_neg (by omega)]
      rfl

theorem writeLoop_eq (fuel : Nat) (size offset : Int) (written : Nat) (bounce : Bool) (low : 0 ≤ offset) (s : State) :
    writeLoop inode buffer memory fuel size offset written bounce s =
      Filesys.writeLoop inode fuel (window memory (buffer + written) size.toNat) offset.toNat bounce written s := by
  induction fuel generalizing size offset written bounce s with
  | zero => rfl
  | succ fuel ih =>
    rw [writeLoop, Filesys.writeLoop, length_window]
    by_cases more : 0 < size
    · rw [if_pos more, if_pos (by omega : 0 < size.toNat)]
      have bounds := chunkSize_le inode size.toNat offset.toNat
      obtain ⟨none, zero⟩ | ⟨some, same⟩ := chunkSize_cases inode low more
      · simp only [if_pos none, if_pos zero]
      · generalize chunkSize inode size offset = chunk at *
        generalize Filesys.chunkSize inode size.toNat offset.toNat = count at *
        obtain ⟨nonzero, rest, next, counted⟩ := round_counts size low some same
        have taken : (window memory (buffer + written) size.toNat).take count = window memory (buffer + written) count := by
          rw [take_window, Nat.min_eq_left (by omega)]
        have dropped : (window memory (buffer + written) size.toNat).drop count =
            window memory (buffer + (written + count)) (size.toNat - count) := by rw [drop_window, Nat.add_assoc]
        have going := fun there after => ih (size - chunk) (offset + chunk) (written + count) there (by omega) after
        simp only [rest, next] at going
        simp only [if_neg (Int.not_le.mpr some), if_neg nonzero, toNat_tmod low, counted, taken, dropped]
        by_cases direct : offset.toNat % blockSectorSize = 0 ∧ count = blockSectorSize
        · rw [if_pos ⟨direct.1, by rw [same, direct.2]⟩, (direct_eq_bounced ..).2, ← direct.2, ← direct.1,
            writeBounced_around _ _ _ bounds.2]
          simp only [direct, and_self, decide_true, Bool.true_or, if_true, Bool.not_true, Bool.or_false, bind_pure_apply]
          refine bind_congr fun sector between _ => bind_congr fun _ after _ => ?_
          rw [← direct.2]
          exact going bounce after
        · rw [if_neg (by rw [same, Int.ofNat_inj]; exact direct)]
          simp only [direct, decide_false, Bool.false_or, Bool.not_false, Bool.or_true]
          refine bind_congr fun ready ahead _ => ?_
          cases ready with
          | false => rfl
          | true =>
            simp only [if_true]
            rw [writeBounced_around _ _ _ bounds.2]
            exact bind_congr fun sector between _ => bind_congr fun _ after _ => going true after
    · rw [if_neg more, if_neg (by omega)]

variable {s : State} {size offset : Int} (low : 0 ≤ offset)
include low

theorem inodeReadAt_eq (inode : Nat) : inodeReadAt inode buffer size offset memory s =
    (Filesys.inodeReadAt inode size.toNat offset.toNat >>= fun all => return (all.length, overlay memory buffer all)) s := by
  rw [inodeReadAt, Filesys.inodeReadAt, bind_bind]
  refine bind_congr fun found after _ => ?_
  have ran := readLoop_eq found.data buffer memory (size.toNat + 1) size offset false [] low after
  rwa [overlay_nil, List.length_nil] at ran

theorem inodeWriteAt_eq (inode : Nat) : inodeWriteAt inode buffer size offset memory s =
    Filesys.inodeWriteAt inode (window memory buffer size.toNat) offset.toNat s := by
  rw [inodeWriteAt, Filesys.inodeWriteAt]
  refine bind_congr fun found after _ => ?_
  split
  · rfl
  · rw [writeLoop_eq _ _ _ _ _ _ _ _ low, length_window]
    rfl

end Refining

def fileBytes (disk : Nat → UInt8) (inode : InodeDisk) : List UInt8 := window disk inode.base inode.size

structure Delivered (file : List UInt8) (offset count buffer : Nat) (memory after : Memory) : Prop where
  bytes : window after buffer count = (file.drop offset).take count
  rest : ∀ address, address < buffer ∨ buffer + count ≤ address → after address = memory address

structure Stored (inode : InodeDisk) (offset : Nat) (bytes : List UInt8) (disk after : Nat → UInt8) : Prop where
  file : fileBytes after inode =
    (fileBytes disk inode).take offset ++ bytes ++ (fileBytes disk inode).drop (offset + bytes.length)
  rest : ∀ address, address < inode.base + offset ∨ inode.base + offset + bytes.length ≤ address →
    after address = disk address

section Transfers
variable {s : State} {inode : Nat} {found : Inode} (there : s.table.inodes inode = some found) (fits : found.data.Fits s.size)
  (plenty : s.Plenty) {size offset : Int} (low : 0 ≤ offset) (buffer : Nat) (memory : Memory)
include there fits plenty low

theorem inodeReadAt_delivers : ∃ after allocations, inodeReadAt inode buffer size offset memory s =
      .returned ((min size (found.data.length - offset)).toNat, after) { s with allocations := allocations } ∧
    Delivered (fileBytes s.disk found.data) offset.toNat (min size (found.data.length - offset)).toNat buffer memory after := by
  obtain ⟨done, allocations, ran, reached⟩ := Filesys.inodeReadAt_returned there fits size.toNat offset.toNat
  have full := reached.full plenty
  have length : found.data.size = found.data.length.toNat := rfl
  have count : (min size (found.data.length - offset)).toNat = done := by omega
  rw [inodeReadAt_eq buffer memory low, bind_of_returned ran, length_window, count]
  refine ⟨_, allocations, rfl, ?_, fun address out => overlay_outside _ (by rwa [length_window])⟩
  have copied : window (overlay memory buffer (window s.disk (found.data.base + offset.toNat) done)) buffer
      (window s.disk (found.data.base + offset.toNat) done).length = _ := window_overlay _
  rw [length_window] at copied
  rw [copied, fileBytes, drop_window, take_window, Nat.min_eq_left (by omega)]

theorem inodeWriteAt_stores (allowed : found.denyWriteCnt = 0) :
    ∃ disk allocations, inodeWriteAt inode buffer size offset memory s =
      .returned (min size (found.data.length - offset)).toNat { s with disk := disk, allocations := allocations } ∧
    Stored found.data offset.toNat (window memory buffer (min size (found.data.length - offset)).toNat) s.disk disk := by
  obtain ⟨done, allocations, ran, reached⟩ :=
    Filesys.inodeWriteAt_returned there fits allowed (window memory buffer size.toNat) offset.toNat
  have full := reached.full plenty
  rw [length_window] at full
  have length : found.data.size = found.data.length.toNat := rfl
  have count : (min size (found.data.length - offset)).toNat = done := by omega
  rw [inodeWriteAt_eq buffer memory low, ran, count, take_window, Nat.min_eq_left (by omega)]
  refine ⟨_, allocations, rfl, ?_, fun address out => overlay_outside _ out⟩
  by_cases inside : offset.toNat ≤ found.data.size
  · exact window_overlay_within _ (by rw [length_window]; omega)
  · have none : done = 0 := by omega
    rw [none, window_zero, overlay_nil, List.append_nil, List.length_nil, Nat.add_zero, List.take_append_drop]

end Transfers

/-- Both transfers move the bytes that are both asked for and in the file, and
move them alike on either way between the device and the buffer. -/
theorem transfers_exact {s : State} {inode : Nat} {found : Inode} (there : s.table.inodes inode = some found)
    (fits : found.data.Fits s.size) (plenty : s.Plenty) (size : Int) {offset : Int} (low : 0 ≤ offset) (buffer : Nat)
    (memory : Memory) :
    (∃ after allocations, inodeReadAt inode buffer size offset memory s =
        .returned ((min size (found.data.length - offset)).toNat, after) { s with allocations := allocations } ∧
      Delivered (fileBytes s.disk found.data) offset.toNat (min size (found.data.length - offset)).toNat buffer memory
        after) ∧
    (found.denyWriteCnt = 0 → ∃ disk allocations, inodeWriteAt inode buffer size offset memory s =
        .returned (min size (found.data.length - offset)).toNat { s with disk := disk, allocations := allocations } ∧
      Stored found.data offset.toNat (window memory buffer (min size (found.data.length - offset)).toNat) s.disk disk) ∧
    (∀ sectorIdx address, readDirect sectorIdx address memory = readBounced sectorIdx address 0 blockSectorSize memory ∧
      writeDirect sectorIdx address memory = writeBounced sectorIdx address 0 blockSectorSize memory) :=
  ⟨inodeReadAt_delivers there fits plenty low buffer memory, inodeWriteAt_stores there fits plenty low buffer memory,
    fun sectorIdx address => direct_eq_bounced sectorIdx address memory⟩

def openFile : State :=
  { blankDevice with
    size := 8
    table := { Table.empty with inodes := fun inode => if inode = 1 then some ⟨1, 1, false, 0, ⟨2, 1300⟩⟩ else none } }

/-- From the middle of the first sector through the second one into the third. -/
theorem transfers_exact_straddling :
    (∃ after allocations, inodeReadAt 1 100 900 300 (fun _ => 7) openFile =
        .returned (900, after) { openFile with allocations := allocations } ∧
      Delivered (fileBytes openFile.disk ⟨2, 1300⟩) 300 900 100 (fun _ => 7) after) ∧
    (∃ disk allocations, inodeWriteAt 1 100 900 300 (fun _ => 7) openFile =
        .returned 900 { openFile with disk := disk, allocations := allocations } ∧
      Stored ⟨2, 1300⟩ 300 (window (fun _ => 7) 100 900) openFile.disk disk) := by
  have there : openFile.table.inodes 1 = some ⟨1, 1, false, 0, ⟨2, 1300⟩⟩ := rfl
  have moved := transfers_exact there ⟨by decide, by decide, by decide, by decide⟩ (fun _ => rfl) 900
    (by decide : (0 : Int) ≤ 300) 100 fun _ => 7
  exact ⟨moved.1, moved.2.1 rfl⟩

end Pintos.Filesys.Buffers
