import Pintos.Semantics.Overlay
import Pintos.Syscall.Descriptors

/-! What `read` gives the process.

A descriptor stands for a stream: the keys to come, or the bytes of an open file
from its position on. To read is to store the next bytes of the stream in the
buffer, to move the stream on by as many and to return their number. Reading a
file does so; the branch for the keyboard takes one key and returns its code.
-/

set_option autoImplicit false

namespace Pintos.Syscall.Reading
open Semantics Procedure Computation Descriptors

/-- The keys to come, and the files; the data of an inode is in consecutive sectors. -/
structure Streams where
  keys : List UInt8
  disk : Nat → UInt8
  inode : Nat → Nat
  start : Nat → Nat
  length : Nat → Nat
  pos : Nat → Nat

def serving : Environment Streams := fun which streams =>
  match which with
  | .inputGetc =>
    match streams.keys with
    | [] => none
    | key :: rest => some (key, { streams with keys := rest })
  | .lockAcquire | .lockRelease | .free => some ((), streams)
  | .malloc => some (true, streams)
  | .fileInode file => some (streams.inode file, streams)
  | .filePos file => some (streams.pos file, streams)
  | .setFilePos file pos => some ((), { streams with pos := Function.update streams.pos file pos.toNat })
  | .inodeLength inode => some (streams.length inode, streams)
  | .byteToSector inode offset =>
    some (if offset < streams.length inode then streams.start inode + offset.toNat / blockSectorSize else 2 ^ 32 - 1, streams)
  | .blockRead sector => some (fun offset => streams.disk (blockSectorSize * sector + offset), streams)
  | _ => none

def Streams.bytes (streams : Streams) (inode offset count : Nat) : List UInt8 :=
  window streams.disk (blockSectorSize * streams.start inode + offset) (min count (streams.length inode - offset))

def next (process : Process Streams) (fd count : Nat) : List UInt8 :=
  if fd = 0 then process.files.keys.take count
  else
    let file := process.table.fileOf (signed fd)
    process.files.bytes (process.files.inode file) (process.files.pos file) count

/-- `bytes` are stored in the buffer and nothing else is, the stream moves on and their number is returned. -/
def Delivers (fd buffer : Nat) (bytes : List UInt8) (before : World (Process Streams))
    (outcome : Execution (World (Process Streams)) Ending Int) : Prop :=
  ∃ after, outcome = .returned bytes.length after ∧ after.memory = before.memory.writeAll bytes buffer ∧
    ∀ more, next before.kernel fd (bytes.length + more) = bytes ++ next after.kernel fd more

/-- The arguments of a call on an open descriptor, with a buffer of the process and enough keys typed. -/
structure Request (memory : UserMemory) (stackPointer : Nat) (process : Process Streams) (fd buffer length : Nat) :
    Prop where
  first : memory.fetch (ptrAdd stackPointer 4) = some fd
  second : memory.fetch (ptrAdd stackPointer 8) = some buffer
  third : memory.fetch (ptrAdd stackPointer 12) = some length
  nonnegative : length < 2 ^ 31
  valid : validPointer buffer = true
  fits : buffer + length ≤ physBase
  writable : ∀ index < length, memory.writable (buffer + index) = true
  available : if fd = 0 then max 1 length ≤ process.files.keys.length else process.table.fileOf (signed fd) ≠ 0

abbrev served {A : Type} (body : Routines A) (memory : UserMemory) (process : Process Streams) :
    Execution (World (Process Streams)) Ending A :=
  body.execute (checked (tabled serving)) ⟨memory, process⟩

section Files
variable {A B : Type} {memory : UserMemory} {process after : Process Streams} {buffer : Nat}

theorem served_bind {first : Routines A} {rest : A → Routines B} {value : A} {later : UserMemory}
    (done : served first memory process = .returned value ⟨later, after⟩) :
    served (first >>= rest) memory process = served (rest value) later after := by
  rw [served, execute_bind]
  exact bind_of_returned done

theorem served_routine {which : Routine} {reply : which.Reply} {rest : which.Reply → Routines A}
    (answers : tabled serving which process = some (reply, after)) :
    served (routine which >>= rest) memory process = served (rest reply) memory after := by
  refine served_bind ?_
  rw [served, routine, execute_perform]
  simp only [checked, answer, answers]

theorem served_query {which : Routine} {reply : which.Reply} {rest : which.Reply → Routines A}
    (answers : tabled serving which process = some (reply, process)) :
    served (routine which >>= rest) memory process = served (rest reply) memory process := served_routine answers

theorem served_copyOut {bytes : List UInt8} (fits : buffer + bytes.length ≤ physBase)
    (writable : ∀ index < bytes.length, memory.writable (buffer + index) = true) :
    served (copyOut bytes buffer) memory process = .returned () ⟨memory.writeAll bytes buffer, process⟩ := by
  induction bytes generalizing buffer memory with
  | nil => rfl
  | cons byte rest ih =>
    rw [List.length_cons] at fits writable
    have stored : served (store buffer byte) memory process = .returned () ⟨memory.write buffer byte, process⟩ := by
      rw [served, store, execute_perform]
      exact if_pos (writable 0 (Nat.succ_pos _))
    rw [copyOut, served_bind stored, UserMemory.writeAll, ptrAdd_one (by omega)]
    refine ih (by omega) fun index inside => ?_
    rw [Nat.add_right_comm]
    exact writable (index + 1) (by omega)

theorem writeAll_append {first second : List UInt8} (fits : buffer + first.length ≤ physBase) :
    memory.writeAll (first ++ second) buffer = (memory.writeAll first buffer).writeAll second (buffer + first.length) := by
  induction first generalizing memory buffer with
  | nil => rfl
  | cons byte rest ih =>
    rw [List.length_cons] at fits ⊢
    rw [List.cons_append, UserMemory.writeAll, UserMemory.writeAll, ptrAdd_one (by omega), ih (by omega), Nat.add_right_comm]
    rfl

variable {streams : Streams} {inode : Nat}

theorem length_bytes (offset count : Nat) :
    (streams.bytes inode offset count).length = min count (streams.length inode - offset) := length_window _

theorem bytes_add (offset : Nat) {count part : Nat} (most : part ≤ count) (inside : part ≤ streams.length inode - offset) :
    streams.bytes inode offset count = streams.bytes inode offset part ++
      streams.bytes inode (offset + part) (count - part) := by
  have total : min count (streams.length inode - offset) =
      part + min (count - part) (streams.length inode - (offset + part)) := by omega
  rw [Streams.bytes, total, window_add, Streams.bytes, Nat.min_eq_left inside, Streams.bytes, Nat.add_assoc]

/-- A part of one sector is read at the offset counted from the start of the data. -/
theorem slice_sector {offset part : Nat} (inside : part ≤ streams.length inode - offset) :
    slice (fun index => streams.disk (blockSectorSize * (streams.start inode + offset / blockSectorSize) + index))
      (offset % blockSectorSize) part = streams.bytes inode offset part := by
  rw [Streams.bytes, Nat.min_eq_left inside]
  refine List.map_congr_left fun index _ => congrArg streams.disk ?_
  have whole := Nat.div_add_mod offset blockSectorSize
  rw [Nat.mul_add]
  omega

theorem served_readLoop {bound size offset bytesRead : Nat} {bounce : Bool} (enough : size < bound)
    (fits : buffer + bytesRead + size ≤ physBase)
    (writable : ∀ index < size, memory.writable (buffer + bytesRead + index) = true) :
    served (readLoop inode buffer bound size offset bytesRead bounce) memory process =
      .returned (bytesRead + (process.files.bytes inode offset size).length)
        ⟨memory.writeAll (process.files.bytes inode offset size) (buffer + bytesRead), process⟩ := by
  induction bound generalizing size offset bytesRead bounce memory with
  | zero => omega
  | succ bound ih =>
    rw [readLoop]
    by_cases more : 0 < size
    swap
    · rw [if_neg (by omega), Nat.eq_zero_of_not_pos more, Streams.bytes, Nat.zero_min]
      rfl
    rw [if_pos (by omega), served_query rfl, served_query rfl]
    have ofs : (offset : Int).tmod blockSectorSize = (offset % blockSectorSize : Nat) := rfl
    have below := Nat.mod_lt offset (by decide : 0 < blockSectorSize)
    dsimp only
    by_cases left : offset < process.files.length inode
    swap
    · rw [if_pos (by omega), Streams.bytes, Nat.sub_eq_zero_of_le (by omega), Nat.min_zero]
      rfl
    rw [ofs, if_pos (Int.ofNat_lt.mpr left)]
    obtain ⟨chunk, is⟩ : ∃ chunk, chunk = min size (min (process.files.length inode - offset)
        (blockSectorSize - offset % blockSectorSize)) := ⟨_, rfl⟩
    have same : min (size : Int) (min (process.files.length inode - offset)
        (blockSectorSize - (offset % blockSectorSize : Nat))) = chunk := by omega
    rw [same, if_neg (by omega), served_bind (by split <;> rfl), if_pos rfl, served_query rfl, Int.toNat_natCast,
      Int.toNat_natCast, Int.toNat_natCast, ptrAdd_of_le (by omega), slice_sector (by omega)]
    have length : (process.files.bytes inode offset chunk).length = chunk := by
      rw [length_bytes]
      omega
    rw [served_bind (served_copyOut (by omega) fun index inside => writable index (by omega)),
      show (size : Int) - chunk = (size - chunk : Nat) by omega, ← Int.natCast_add, ih (by omega) (by omega)]
    · rw [bytes_add offset (by omega : chunk ≤ size) (by omega), List.length_append, length, writeAll_append (by omega),
        length, Nat.add_assoc, Nat.add_assoc]
    · intro index inside
      rw [UserMemory.writable_writeAll, ← Nat.add_assoc, Nat.add_assoc _ chunk]
      exact writable (chunk + index) (by omega)

theorem served_fileRead {file length : Nat} {bytes : List UInt8} (fits : buffer + length ≤ physBase)
    (writable : ∀ index < length, memory.writable (buffer + index) = true)
    (is : bytes = process.files.bytes (process.files.inode file) (process.files.pos file) length) :
    served (fileRead file buffer length) memory process =
      .returned bytes.length ⟨memory.writeAll bytes buffer, { process with files := { process.files with
        pos := Function.update process.files.pos file (process.files.pos file + bytes.length) } }⟩ := by
  subst is
  have read : served (readLoop (process.files.inode file) buffer (length + 1) length (process.files.pos file) 0 false) memory
      process = _ := served_readLoop (Nat.lt_succ_self length) fits writable
  rw [fileRead, served_query rfl, served_query rfl, inodeReadAt, Int.toNat_natCast, served_bind (served_bind read), Nat.zero_add]
  rfl

end Files

section Requests
variable {memory : UserMemory} {stackPointer : Nat} {process : Process Streams} {fd buffer length : Nat}
  (request : Request memory stackPointer process fd buffer length)
include request

theorem Request.fetches : served (systemRead stackPointer) memory process =
    served (if fd = 0 then routine .inputGetc >>= fun key => pure (key.toNat : Int)
      else openFile (signed fd) >>= fun file =>
        if file = 0 then pure (-1) else withFilesysLock (fileRead file buffer length)) memory process := by
  have word : signed length = length := by
    rw [signed, Nat.mod_eq_of_lt (Nat.lt_trans request.nonnegative (by decide)), if_pos request.nonnegative]
  have checking : served (checkPointer buffer) memory process = .returned () ⟨memory, process⟩ := by
    rw [served, execute_checkPointer, if_pos request.valid]
  rw [systemRead, served_bind (argument_returned.mpr ⟨request.first, rfl⟩),
    served_bind (argument_returned.mpr ⟨request.second, rfl⟩), served_bind checking,
    served_bind (argument_returned.mpr ⟨request.third, rfl⟩), word]

theorem Request.file (other : fd ≠ 0) :
    Delivers fd buffer (next process fd length) ⟨memory, process⟩ (served (systemRead stackPointer) memory process) := by
  have present := request.available
  rw [if_neg other] at present
  rw [request.fetches, if_neg other, served_bind (openFile_returned present), if_neg present, withFilesysLock,
    served_query rfl, served_bind (served_fileRead request.fits request.writable rfl)]
  simp only [Delivers, next, if_neg other]
  refine ⟨_, rfl, rfl, fun more => ?_⟩
  dsimp only
  rw [bytes_add _ (Nat.le_add_right _ more) (by rw [length_bytes]; exact Nat.min_le_right _ _), Nat.add_sub_cancel_left,
    Function.update_self]
  congr 1
  rw [length_bytes, Streams.bytes, Nat.min_assoc, Nat.min_self]
  rfl

theorem Request.keyboard (keyboard : fd = 0) :
    Delivers fd buffer (next process fd length) ⟨memory, process⟩ (served (systemRead stackPointer) memory process) ↔
      length = 1 ∧ process.files.keys.head? = some 1 ∧ memory.read buffer = some 1 := by
  have enough := request.available
  rw [if_pos keyboard] at enough
  obtain ⟨key, rest, typed⟩ := List.exists_cons_of_length_pos (Nat.lt_of_lt_of_le (by omega : 0 < max 1 length) enough)
  have taken : tabled serving .inputGetc process = some (key, { process with files := { process.files with keys := rest } }) := by
    simp [tabled, serving, typed]
  rw [request.fetches, if_pos keyboard, served_routine taken]
  simp only [Delivers, next, if_pos keyboard, typed]
  constructor
  · rintro ⟨after, returned, stored, moved⟩
    obtain ⟨count, rfl⟩ := Execution.returned.inj returned
    have lengths := congrArg List.length (moved (rest.length + 1))
    simp only [typed, List.length_cons, List.length_append, List.length_take] at enough lengths count
    obtain rfl : length = 1 := by omega
    obtain rfl : key = 1 := UInt8.toNat_inj.mp (show key.toNat = 1 by omega)
    exact ⟨rfl, rfl, (congrFun (congrArg UserMemory.read stored) buffer).trans (Function.update_self ..)⟩
  · rintro ⟨rfl, first, holds⟩
    cases first
    have unchanged : Function.update memory.read buffer (some 1) = memory.read := by
      rw [← holds, Function.update_eq_self]
    exact ⟨_, rfl, congrArg (UserMemory.mk · memory.writable) unchanged.symm, fun more => by simp [Nat.add_comm 1]⟩

end Requests

/-- Two keys are typed, and a file of 600 bytes is open as descriptor 2 at position 500. -/
def opened : Process Streams :=
  ⟨⟨fun index => if index = 0 then 1 else 0, 1⟩, ⟨[104, 105], fun address => .ofNat address, id, id, fun _ => 600, fun _ => 500⟩⟩

/-- The words of `read (fd, 0x1000, 2)` at 0xbffffff0, in memory that is all writable. -/
def reading (fd : UInt8) : UserMemory :=
  { stack [8, 0, 0, 0, fd, 0, 0, 0, 0, 16, 0, 0, 2, 0, 0, 0] with writable := fun _ => true }

theorem reading_request (fd : UInt8) (either : fd = 0 ∨ fd = 2) : Request (reading fd) 0xbffffff0 opened fd.toNat 0x1000 2 := by
  rcases either with rfl | rfl
  · exact ⟨by decide, by decide, by decide, by decide, by decide, by decide, fun _ _ => rfl, by decide⟩
  · exact ⟨by decide, by decide, by decide, by decide, by decide, by decide, fun _ _ => rfl, by decide⟩

end Pintos.Syscall.Reading
