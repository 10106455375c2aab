import Pintos.Filesys.Directory

/-! What reading and writing at an offset do.

The sectors of a file follow one another, so its bytes are a window of the
device and a write is an overlay on it. A transfer that finds no memory for its
bounce buffer stops early, and only between two sectors.
-/

set_option autoImplicit false

namespace Pintos.Filesys
open Semantics Computation

def State.Plenty (s : State) : Prop := ∀ n, s.memory n = true

def InodeDisk.base (inode : InodeDisk) : Nat := blockSectorSize * inode.start

def InodeDisk.size (inode : InodeDisk) : Nat := inode.length.toNat

def InodeDisk.sectors (inode : InodeDisk) : Nat := bytesToSectors inode.length

structure InodeDisk.Fits (inode : InodeDisk) (size : Nat) : Prop where
  low : 0 ≤ inode.length
  high : inode.length < 2 ^ 31
  ends : inode.start + inode.sectors ≤ size
  device : size ≤ 2 ^ 32

theorem bytesToSectors_of_small {size : Int} (low : 0 ≤ size) (small : size + 511 < 2 ^ 31) :
    bytesToSectors size = (size.toNat + 511) / 512 := by
  have sector : (blockSectorSize : Int) = 512 := rfl
  rw [bytesToSectors, sector, signed32_word32 (by omega) (by omega), Int.tdiv_eq_ediv_of_nonneg (by omega), word32]
  omega

/-- When the sum wraps around, the count is that of no device. -/
theorem bytesToSectors_of_large {size : Int} (large : 2 ^ 31 ≤ size + 511) (high : size < 2 ^ 31) :
    2 ^ 32 - 2 ^ 23 ≤ bytesToSectors size := by
  have sector : (blockSectorSize : Int) = 512 := rfl
  have wraps : signed32 (word32 (size + (512 - 1))) = -(2 ^ 32 - (size + 511)) := by
    unfold signed32
    rw [if_neg (by unfold word32; omega)]
    unfold word32
    omega
  rw [bytesToSectors, sector, wraps, Int.neg_tdiv, Int.tdiv_eq_ediv_of_nonneg (by omega), word32]
  omega

theorem size_le_sectors {inode : InodeDisk} (low : 0 ≤ inode.length) (high : inode.length < 2 ^ 31) :
    inode.size ≤ blockSectorSize * inode.sectors := by
  unfold InodeDisk.size InodeDisk.sectors
  have sector : blockSectorSize = 512 := rfl
  by_cases small : inode.length + 511 < 2 ^ 31
  · rw [bytesToSectors_of_small low small, sector]
    omega
  · have many := bytesToSectors_of_large (by omega) high
    rw [sector]
    omega

section Sectors
variable {inode : InodeDisk} {size offset : Nat}

theorem byteToSector_of_lt (fits : inode.Fits size) (inside : offset < inode.size) :
    byteToSector inode offset = inode.start + offset / blockSectorSize ∧ byteToSector inode offset < size := by
  have covered := size_le_sectors fits.low fits.high
  have ends := fits.ends
  have device := fits.device
  have part : offset / blockSectorSize < inode.sectors := Nat.div_lt_of_lt_mul (Nat.lt_of_lt_of_le inside covered)
  have short : (offset : Int) < inode.length := by
    simp only [InodeDisk.size] at inside
    omega
  rw [byteToSector, if_pos short, Nat.mod_eq_of_lt (by omega)]
  omega

/-- The bytes of one round are at the offset counted from the start of the data. -/
theorem sector_address (inode : InodeDisk) (offset : Nat) :
    blockSectorSize * (inode.start + offset / blockSectorSize) + offset % blockSectorSize = inode.base + offset := by
  have := Nat.div_add_mod offset blockSectorSize
  simp only [InodeDisk.base, Nat.mul_add]
  omega

theorem chunkSize_le (inode : InodeDisk) (size offset : Nat) : chunkSize inode size offset ≤ min size (inode.size - offset) ∧
    offset % blockSectorSize + chunkSize inode size offset ≤ blockSectorSize := by
  have bound := Nat.mod_lt offset (by decide : 0 < blockSectorSize)
  simp only [chunkSize, InodeDisk.size]
  omega

theorem chunkSize_eq_zero (none : chunkSize inode size offset = 0) : min size (inode.size - offset) = 0 := by
  have bound := Nat.mod_lt offset (by decide : 0 < blockSectorSize)
  simp only [chunkSize, InodeDisk.size] at *
  omega

/-- A round that is not the last one ends with a sector. -/
theorem chunkSize_boundary (more : chunkSize inode size offset < min size (inode.size - offset)) :
    (offset + chunkSize inode size offset) % blockSectorSize = 0 := by
  have bound := Nat.mod_lt offset (by decide : 0 < blockSectorSize)
  have whole : offset % blockSectorSize + chunkSize inode size offset = blockSectorSize := by
    simp only [chunkSize, InodeDisk.size] at *
    omega
  have split := Nat.div_add_mod offset blockSectorSize
  have sum : offset + chunkSize inode size offset = blockSectorSize * (offset / blockSectorSize + 1) := by
    rw [Nat.mul_add]
    omega
  rw [sum, Nat.mul_mod_right]

end Sectors

theorem bind_malloc {A : Type} (next : Bool → Fs A) (s : State) :
    (malloc >>= next) s = next (s.memory s.allocations) { s with allocations := s.allocations + 1 } := rfl

theorem ready_returned (there : Bool) (s : State) :
    ∃ ready after, (if there then pure true else malloc : Fs Bool) s = .returned ready { s with allocations := after } ∧
      (s.Plenty → ready = true) := by
  cases there with
  | true => exact ⟨true, s.allocations, rfl, fun _ => rfl⟩
  | false => exact ⟨s.memory s.allocations, s.allocations + 1, rfl, fun plenty => plenty _⟩

/-- How far a transfer of `count` bytes that could be made in full has got. -/
structure Reached (plenty : Prop) (offset count done : Nat) : Prop where
  most : done ≤ count
  full : plenty → done = count
  boundary : done = count ∨ done = 0 ∨ (offset + done) % blockSectorSize = 0

theorem Reached.zero {plenty : Prop} {offset count : Nat} (empty : count = 0) : Reached plenty offset count 0 :=
  ⟨Nat.zero_le _, fun _ => empty.symm, .inr (.inl rfl)⟩

theorem Reached.round {plenty : Prop} {inode : InodeDisk} {offset size done : Nat}
    (rest : Reached plenty (offset + chunkSize inode size offset)
      (min (size - chunkSize inode size offset) (inode.size - (offset + chunkSize inode size offset))) done) :
    Reached plenty offset (min size (inode.size - offset)) (chunkSize inode size offset + done) := by
  have most := chunkSize_le inode size offset
  have left := rest.most
  refine ⟨by omega, fun enough => ?_, ?_⟩
  · have full := rest.full enough
    omega
  · rcases rest.boundary with full | none | whole
    · exact .inl (by omega)
    · by_cases last : chunkSize inode size offset = min size (inode.size - offset)
      · exact .inl (by omega)
      · exact .inr (.inr (by rw [none, Nat.add_zero]; exact chunkSize_boundary (by omega)))
    · exact .inr (.inr (by rw [← Nat.add_assoc]; exact whole))

theorem assert_returned {condition : Bool} (met : condition = true) (s : State) : assert condition s = .returned () s :=
  require_of_true met

theorem blockRead_returned {sector : Nat} {s : State} (inside : sector < s.size) :
    blockRead sector s = .returned (fun o => s.disk (blockSectorSize * sector + o)) s := by
  simp [blockRead, assert, require, bind_apply, inside]

theorem blockWrite_returned {sector : Nat} {s : State} (bytes : List UInt8) (inside : sector < s.size) :
    blockWrite sector bytes s = .returned () { s with disk := overlay s.disk (blockSectorSize * sector) bytes } := by
  simp [blockWrite, assert, require, bind_apply, inside]

theorem readLoop_returned {inode : InodeDisk} (fuel size offset : Nat) (bounce : Bool) (read : List UInt8) (s : State)
    (fits : inode.Fits s.size) (enough : size < fuel) :
    ∃ done after, readLoop inode fuel size offset bounce read s =
        .returned (read ++ window s.disk (inode.base + offset) done) { s with allocations := after } ∧
      Reached s.Plenty offset (min size (inode.size - offset)) done := by
  induction fuel generalizing size offset bounce read s with
  | zero => omega
  | succ fuel ih =>
    unfold readLoop
    by_cases more : 0 < size
    · rw [if_pos more]
      by_cases none : chunkSize inode size offset = 0
      · refine ⟨0, s.allocations, ?_, .zero (chunkSize_eq_zero none)⟩
        simp [none]
      · obtain ⟨ready, after, tried, granted⟩ :=
          ready_returned (decide (offset % blockSectorSize = 0 ∧ chunkSize inode size offset = blockSectorSize) || bounce) s
        have bounds := chunkSize_le inode size offset
        simp only [none, if_false]
        rw [bind_of_returned tried]
        cases ready with
        | false =>
          refine ⟨0, after, by simp, ⟨Nat.zero_le _, fun plenty => ?_, .inr (.inl rfl)⟩⟩
          cases granted plenty
        | true =>
          obtain ⟨index, inside⟩ := byteToSector_of_lt fits (by omega : offset < inode.size)
          have part : window (fun o => s.disk (blockSectorSize * byteToSector inode offset + o)) (offset % blockSectorSize)
              (chunkSize inode size offset) = window s.disk (inode.base + offset) (chunkSize inode size offset) := by
            rw [index, ← sector_address]
            simp [window, Nat.add_assoc]
          have taken := blockRead_returned (s := { s with allocations := after }) inside
          simp only [if_true]
          rw [bind_of_returned taken, part]
          obtain ⟨done, final, finished, rest⟩ := ih (size - chunkSize inode size offset) (offset + chunkSize inode size offset)
            (bounce || !decide (offset % blockSectorSize = 0 ∧ chunkSize inode size offset = blockSectorSize))
            (read ++ window s.disk (inode.base + offset) (chunkSize inode size offset)) { s with allocations := after } fits
            (by omega)
          refine ⟨chunkSize inode size offset + done, final, ?_, rest.round⟩
          rw [finished, window_add, List.append_assoc, Nat.add_assoc]
    · refine ⟨0, s.allocations, ?_, .zero (by omega)⟩
      simp [more]

/-- A sector with a part of it replaced is the part written over the device. -/
theorem overlay_sector (disk : Nat → UInt8) (base offset : Nat) (bytes : List UInt8) (rest : Nat) :
    overlay disk base (window disk base offset ++ bytes ++ window disk (base + (offset + bytes.length)) rest) =
      overlay disk (base + offset) bytes := by
  have after : window disk (base + (offset + bytes.length)) rest =
      window (overlay disk (base + offset) bytes) (base + (offset + bytes.length)) rest :=
    (window_overlay_of_disjoint bytes (.inr (by omega))).symm
  rw [overlay_append, overlay_append, overlay_window, length_window, List.length_append, length_window, after, overlay_window]

/-- Part of a sector is put back together with whatever surrounds it, read in first where there is something. -/
theorem surroundings_returned {inode : InodeDisk} {s : State} {offset : Nat} (fits : inode.Fits s.size)
    (inside : offset < inode.size) {part : List UInt8} (room : part.length ≤ blockSectorSize - offset % blockSectorSize) :
    ∃ sector, (if 0 < offset % blockSectorSize ∨ part.length < blockSectorSize - offset % blockSectorSize then
          blockRead (byteToSector inode offset) else pure fun _ => 0 : Fs (Nat → UInt8)) s = .returned sector s ∧
      overlay s.disk (blockSectorSize * byteToSector inode offset) (window sector 0 (offset % blockSectorSize) ++ part ++
        window sector (offset % blockSectorSize + part.length) (blockSectorSize - offset % blockSectorSize - part.length)) =
      overlay s.disk (inode.base + offset) part := by
  obtain ⟨index, there⟩ := byteToSector_of_lt fits inside
  have address := sector_address inode offset
  rw [← index] at address
  split <;> rename_i partly
  · refine ⟨_, blockRead_returned there, ?_⟩
    have around := overlay_sector s.disk (blockSectorSize * byteToSector inode offset) (offset % blockSectorSize) part
      (blockSectorSize - offset % blockSectorSize - part.length)
    rw [address] at around
    rw [← around]
    simp [window, Nat.add_assoc]
  · refine ⟨_, rfl, ?_⟩
    have start : offset % blockSectorSize = 0 := by omega
    have all : blockSectorSize - offset % blockSectorSize - part.length = 0 := by omega
    rw [all, ← address, start]
    simp

theorem writeLoop_returned {inode : InodeDisk} (fuel : Nat) (bytes : List UInt8) (offset : Nat) (bounce : Bool) (written : Nat)
    (s : State) (fits : inode.Fits s.size) (enough : bytes.length < fuel) :
    ∃ done after, writeLoop inode fuel bytes offset bounce written s = .returned (written + done)
        { s with disk := overlay s.disk (inode.base + offset) (bytes.take done), allocations := after } ∧
      Reached s.Plenty offset (min bytes.length (inode.size - offset)) done := by
  induction fuel generalizing bytes offset bounce written s with
  | zero => omega
  | succ fuel ih =>
    unfold writeLoop
    by_cases more : 0 < bytes.length
    · rw [if_pos more]
      by_cases none : chunkSize inode bytes.length offset = 0
      · refine ⟨0, s.allocations, ?_, .zero (chunkSize_eq_zero none)⟩
        simp [none]
      · obtain ⟨ready, after, tried, granted⟩ := ready_returned
          (decide (offset % blockSectorSize = 0 ∧ chunkSize inode bytes.length offset = blockSectorSize) || bounce) s
        have bounds := chunkSize_le inode bytes.length offset
        simp only [none, if_false]
        rw [bind_of_returned tried]
        cases ready with
        | false =>
          refine ⟨0, after, by simp, ⟨Nat.zero_le _, fun plenty => ?_, .inr (.inl rfl)⟩⟩
          cases granted plenty
        | true =>
          have within : offset < inode.size := by omega
          have whole : (bytes.take (chunkSize inode bytes.length offset)).length = chunkSize inode bytes.length offset := by
            rw [List.length_take]
            omega
          obtain ⟨-, inside⟩ := byteToSector_of_lt fits within
          obtain ⟨sector, surroundings, overlaid⟩ := surroundings_returned (s := { s with allocations := after }) fits within
            (Nat.le_trans (Nat.le_of_eq whole) (by omega))
          rw [whole] at surroundings overlaid
          have put := blockWrite_returned (s := { s with allocations := after })
            (window sector 0 (offset % blockSectorSize) ++ bytes.take (chunkSize inode bytes.length offset) ++
              window sector (offset % blockSectorSize + chunkSize inode bytes.length offset)
                (blockSectorSize - offset % blockSectorSize - chunkSize inode bytes.length offset)) inside
          simp only [if_true]
          rw [bind_of_returned surroundings, bind_of_returned put]
          dsimp only
          rw [overlaid]
          obtain ⟨done, final, finished, rest⟩ := ih (bytes.drop (chunkSize inode bytes.length offset))
            (offset + chunkSize inode bytes.length offset)
            (bounce || !decide (offset % blockSectorSize = 0 ∧ chunkSize inode bytes.length offset = blockSectorSize))
            (written + chunkSize inode bytes.length offset)
            { s with
              disk := overlay s.disk (inode.base + offset) (bytes.take (chunkSize inode bytes.length offset))
              allocations := after } fits (by rw [List.length_drop]; omega)
          rw [List.length_drop] at rest
          refine ⟨chunkSize inode bytes.length offset + done, final, ?_, rest.round⟩
          rw [finished, List.take_add, overlay_append, whole, Nat.add_assoc, Nat.add_assoc]
    · refine ⟨0, s.allocations, ?_, .zero (by omega)⟩
      simp [more]

end Pintos.Filesys
