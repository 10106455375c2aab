import Pintos.Filesys.Bitmap
import Pintos.Semantics.Words
import Pintos.Vm.Frames

/-! The sizes and sector numbers of `vm/swap.c` in 32-bit words.

The paging code is modelled with the number of slots that `swap_init` made, and
with a bit for each of them. Here the slots are counted from the size of the
device as the source counts them, and the numbers that `swap_read` and
`swap_write` hand to the device are kept as words.
-/

set_option autoImplicit false

namespace Pintos.Vm.SwapDevice
open Semantics Filesys

/-- `block_size (swap) * BLOCK_SECTOR_SIZE / PGSIZE`. -/
def slotCnt (sectors : Nat) : Nat := sectors * blockSectorSize % 2 ^ 32 / pgSize

/-- `bitmap_create`, over whatever the elements hold: which of its two
allocations succeed. There is nothing to allocate for no bits. -/
def bitmapCreate (bitCnt : Nat) (forBitmap forBits : Bool) (memory : Nat → BitVec 32) : Option Bitmap :=
  if forBitmap && (forBits || bitCnt == 0) then some ((⟨bitCnt, memory⟩ : Bitmap).setMultiple 0 bitCnt false) else none

/-- `swap_init` on a device of so many sectors: the `free_bitmap` it stores. -/
def swapInit (sectors : Nat) (forBitmap forBits : Bool) (memory : Nat → BitVec 32) : Option Bitmap :=
  bitmapCreate (slotCnt sectors) forBitmap forBits memory

def bitmapError : Nat := 2 ^ 32 - 1

/-- The result of `bitmap_scan` goes through an `int`. `none`: `bitmap_set`'s assertion on the index fails. -/
def swapGetFree (freeBitmap : Bitmap) : Option (Bitmap × Nat) :=
  let i := signed32 ((freeBitmap.scan 0 1 false).getD bitmapError)
  if word32 i < freeBitmap.bitCnt then some (freeBitmap.set (word32 i) true, word32 i * 8 % 2 ^ 32) else none

/-- The sectors that the loops of `swap_read` and `swap_write` access from `sector` on. -/
def sectorsFrom (sector : Nat) : List Nat := (List.range 8).map fun i => (sector + i) % 2 ^ 32

/-- The device is split into slots: one for each eight sectors, and whichever are
in use, the next one has its sectors on the device. -/
structure Sized (sectors : Nat) (freeBitmap : Bitmap) : Prop where
  slots : freeBitmap.bitCnt = sectors / 8
  inside : ∀ (bits : Nat → BitVec 32) (after : Bitmap) (sector : Nat),
    swapGetFree { freeBitmap with bits := bits } = some (after, sector) → ∀ accessed ∈ sectorsFrom sector, accessed < sectors

section Sizes
variable {sectors : Nat} {freeBitmap : Bitmap}

theorem slotCnt_eq_iff (word : sectors < 2 ^ 32) : slotCnt sectors = sectors / 8 ↔ sectors < 2 ^ 23 := by
  simp only [slotCnt, blockSectorSize, pgSize]
  omega

theorem slotCnt_le (sectors : Nat) : slotCnt sectors * 8 ≤ sectors ∧ slotCnt sectors < 2 ^ 20 := by
  simp only [slotCnt, blockSectorSize, pgSize]
  omega

theorem bitmapCreate_some {bitCnt : Nat} {forBitmap forBits : Bool} {memory : Nat → BitVec 32} :
    bitmapCreate bitCnt forBitmap forBits memory = some freeBitmap ↔
      (forBitmap = true ∧ (forBits = true ∨ bitCnt = 0)) ∧
        (⟨bitCnt, memory⟩ : Bitmap).setMultiple 0 bitCnt false = freeBitmap := by
  unfold bitmapCreate
  split <;> simp_all

/-- The slots of a device are few enough for their numbers to survive the `int`. -/
theorem swapGetFree_eq (small : freeBitmap.bitCnt < 2 ^ 20) :
    swapGetFree freeBitmap = (freeBitmap.scan 0 1 false).map fun slot => (freeBitmap.set slot true, slot * 8) := by
  unfold swapGetFree
  cases scanned : freeBitmap.scan 0 1 false with
  | none =>
    have error : word32 (signed32 bitmapError) = bitmapError := by decide
    have large : ¬bitmapError < freeBitmap.bitCnt := by
      simp only [bitmapError]
      omega
    simp [error, large]
  | some slot =>
    have inside := (Bitmap.scan_some scanned).2.1
    have same : word32 (signed32 slot) = slot := by
      simp only [signed32, word32]
      split <;> omega
    have below : slot < freeBitmap.bitCnt := by omega
    simp only [Option.getD_some, same, below, if_true, Option.map_some]
    rw [Nat.mod_eq_of_lt (by omega)]

theorem mem_sectorsFrom {sector accessed : Nat} (below : sector + 8 ≤ 2 ^ 32) :
    accessed ∈ sectorsFrom sector ↔ sector ≤ accessed ∧ accessed < sector + 8 := by
  simp only [sectorsFrom, List.mem_map, List.mem_range]
  constructor
  · rintro ⟨i, bound, rfl⟩
    omega
  · rintro ⟨low, high⟩
    exact ⟨accessed - sector, by omega, by omega⟩

/-- `swap_init` makes a slot of each eight sectors exactly on a device of less than 4 GB. -/
theorem swap_sized_iff (word : sectors < 2 ^ 32) (forBitmap forBits : Bool) (memory : Nat → BitVec 32) :
    (∃ freeBitmap, swapInit sectors forBitmap forBits memory = some freeBitmap ∧ Sized sectors freeBitmap) ↔
      sectors < 2 ^ 23 ∧ forBitmap = true ∧ (forBits = true ∨ sectors < 8) := by
  unfold swapInit
  constructor
  · rintro ⟨freeBitmap, created, sized⟩
    obtain ⟨⟨first, second⟩, rfl⟩ := bitmapCreate_some.mp created
    have exact_ : slotCnt sectors = sectors / 8 := by
      rw [← sized.slots, Bitmap.bitCnt_setMultiple]
    refine ⟨(slotCnt_eq_iff word).mp exact_, first, second.imp_right fun none => ?_⟩
    omega
  · rintro ⟨small, first, second⟩
    have exact_ := (slotCnt_eq_iff word).mpr small
    refine ⟨_, bitmapCreate_some.mpr ⟨⟨first, second.imp_right fun few => by omega⟩, rfl⟩, ?_, ?_⟩
    · rw [Bitmap.bitCnt_setMultiple, exact_]
    · intro bits after sector found accessed member
      obtain ⟨fits, few⟩ := slotCnt_le sectors
      rw [swapGetFree_eq (by simpa using few), Option.map_eq_some_iff] at found
      obtain ⟨slot, scanned, taken⟩ := found
      obtain ⟨rfl, rfl⟩ := Prod.mk.inj taken
      have below := (Bitmap.scan_some scanned).2.1
      simp only [Bitmap.bitCnt_setMultiple] at below
      have range := (mem_sectorsFrom (by omega)).mp member
      omega

theorem swap_sized_iff_four_megabytes : (8192 : Nat) < 2 ^ 32 ∧
    ∃ freeBitmap, swapInit 8192 true true (fun _ => 0) = some freeBitmap ∧ Sized 8192 freeBitmap :=
  ⟨by decide, (swap_sized_iff (by decide) true true _).mpr (by decide)⟩

/-- On a device of 4 GB the product wraps to 0. -/
theorem four_gigabytes_without_slots : ∃ freeBitmap,
    swapInit (2 ^ 23) true true (fun _ => 0) = some freeBitmap ∧ freeBitmap.bitCnt = 0 ∧ ¬Sized (2 ^ 23) freeBitmap := by
  have none : ((⟨slotCnt (2 ^ 23), fun _ => 0⟩ : Bitmap).setMultiple 0 (slotCnt (2 ^ 23)) false).bitCnt = 0 := by
    rw [Bitmap.bitCnt_setMultiple]
    decide
  refine ⟨_, rfl, none, fun sized => ?_⟩
  have slots := none.symm.trans sized.slots
  revert slots
  decide

end Sizes

end Pintos.Vm.SwapDevice
