import Mathlib.Algebra.Group.Int.Defs
import Mathlib.Algebra.Group.Nat.Defs
import Mathlib.Data.List.Basic
import Mathlib.Logic.Function.Basic

/-! Bitmaps (`lib/kernel/bitmap.c`).

A bitmap is an array of 32-bit elements. Its last element may have bits beyond
the bitmap's own; they are whatever memory held and are written to a file with
the others, and `bitmap_read` clears them. Each operation is the source's on
elements; the lemmas beside it say what it does to single bits. The assertions
on indices stand with the callers.
-/

set_option autoImplicit false

namespace Pintos.Filesys

def elemBits : Nat := 32

structure Bitmap where
  bitCnt : Nat
  bits : Nat → BitVec 32

def elemIdx (bitIdx : Nat) : Nat := bitIdx / elemBits

def bitMask (bitIdx : Nat) : BitVec 32 := 1#32 <<< (bitIdx % elemBits)

/-- `DIV_ROUND_UP` in 32-bit words. -/
def elemCnt (bitCnt : Nat) : Nat := (bitCnt + elemBits - 1) % 2 ^ 32 / elemBits

def byteCnt (bitCnt : Nat) : Nat := 4 * elemCnt bitCnt

namespace Bitmap
variable (b : Bitmap)

def lastMask : BitVec 32 :=
  let lastBits := b.bitCnt % elemBits
  if lastBits ≠ 0 then (1#32 <<< lastBits) - 1#32 else BitVec.allOnes 32

def mark (bitIdx : Nat) : Bitmap :=
  { b with bits := Function.update b.bits (elemIdx bitIdx) (b.bits (elemIdx bitIdx) ||| bitMask bitIdx) }

def reset (bitIdx : Nat) : Bitmap :=
  { b with bits := Function.update b.bits (elemIdx bitIdx) (b.bits (elemIdx bitIdx) &&& ~~~bitMask bitIdx) }

def set (idx : Nat) (value : Bool) : Bitmap := if value then b.mark idx else b.reset idx

def test (idx : Nat) : Bool := b.bits (elemIdx idx) &&& bitMask idx != 0#32

def setMultiple (start cnt : Nat) (value : Bool) : Bitmap :=
  (List.range cnt).foldl (fun map i => map.set (start + i) value) b

def contains (start cnt : Nat) (value : Bool) : Bool := (List.range cnt).any fun i => b.test (start + i) == value

def all (start cnt : Nat) : Bool := !b.contains start cnt false

/-- `none` is `BITMAP_ERROR`. -/
def scan (start cnt : Nat) (value : Bool) : Option Nat :=
  if cnt ≤ b.bitCnt then
    let last := b.bitCnt - cnt
    ((List.range (last + 1 - start)).map (start + ·)).find? fun i => !b.contains i cnt !value
  else none

def byte (k : Nat) : UInt8 := UInt8.ofBitVec ((b.bits (k / 4)).extractLsb' (8 * (k % 4)) 8)

def bytes : List UInt8 := (List.range (byteCnt b.bitCnt)).map b.byte

def elemOfBytes (bytes : List UInt8) (idx : Nat) : BitVec 32 :=
  let at_ := fun k => (bytes.getD (4 * idx + k) 0).toBitVec
  at_ 3 ++ at_ 2 ++ at_ 1 ++ at_ 0

/-- `bitmap_read` with the bytes the file delivered in full. -/
def load (bytes : List UInt8) : Bitmap :=
  if 0 < b.bitCnt then
    let read := fun idx => if idx < elemCnt b.bitCnt then elemOfBytes bytes idx else b.bits idx
    let last := elemCnt b.bitCnt - 1
    { b with bits := Function.update read last (read last &&& b.lastMask) }
  else b

end Bitmap

section Bits
variable {b : Bitmap}

theorem bitMask_bit (idx bit : Nat) : (bitMask idx).getLsbD bit = decide (bit = idx % elemBits) := by
  have bound : idx % elemBits < 32 := Nat.mod_lt _ (by decide)
  simp only [bitMask, BitVec.getLsbD_shiftLeft, BitVec.getLsbD_one]
  grind

theorem Bitmap.test_eq (idx : Nat) : b.test idx = (b.bits (elemIdx idx)).getLsbD (idx % elemBits) := by
  have bound : idx % elemBits < 32 := Nat.mod_lt _ (by decide)
  unfold Bitmap.test
  cases bit : (b.bits (elemIdx idx)).getLsbD (idx % elemBits) with
  | true =>
    have here : (b.bits (elemIdx idx) &&& bitMask idx).getLsbD (idx % elemBits) = true := by
      simp [bit, bitMask_bit]
    refine bne_iff_ne.mpr fun zero => ?_
    rw [zero] at here
    simp at here
  | false =>
    have zero : b.bits (elemIdx idx) &&& bitMask idx = 0#32 := by
      refine BitVec.eq_of_getLsbD_eq fun i inside => ?_
      by_cases here : i = idx % elemBits
      · subst here
        simp [bit]
      · simp [bitMask_bit, here]
    simp [zero]

theorem idx_eq_iff (i j : Nat) : elemIdx i = elemIdx j ∧ i % elemBits = j % elemBits ↔ i = j := by
  simp only [elemIdx, elemBits]
  omega

theorem Bitmap.test_mark (i j : Nat) : (b.mark i).test j = (decide (j = i) || b.test j) := by
  rw [Bitmap.test_eq, Bitmap.test_eq, Bitmap.mark]
  dsimp only
  by_cases element : elemIdx j = elemIdx i
  · rw [element, Function.update_self, BitVec.getLsbD_or, bitMask_bit, Bool.or_comm]
    congr 1
    rw [decide_eq_decide]
    exact ⟨fun bit => (idx_eq_iff j i).mp ⟨element, bit⟩, fun same => by rw [same]⟩
  · rw [Function.update_of_ne element]
    have other : j ≠ i := fun same => element (by rw [same])
    simp [other]

theorem Bitmap.test_reset (i j : Nat) : (b.reset i).test j = (!decide (j = i) && b.test j) := by
  rw [Bitmap.test_eq, Bitmap.test_eq, Bitmap.reset]
  dsimp only
  by_cases element : elemIdx j = elemIdx i
  · have bound : j % elemBits < 32 := Nat.mod_lt _ (by decide)
    rw [element, Function.update_self, BitVec.getLsbD_and, BitVec.getLsbD_not, bitMask_bit, Bool.and_comm]
    congr 1
    have bit : j % elemBits = i % elemBits ↔ j = i :=
      ⟨fun bit => (idx_eq_iff j i).mp ⟨element, bit⟩, fun same => by rw [same]⟩
    simp [bound, bit]
  · rw [Function.update_of_ne element]
    have other : j ≠ i := fun same => element (by rw [same])
    simp [other]

theorem Bitmap.test_set (i j : Nat) (value : Bool) : (b.set i value).test j = if j = i then value else b.test j := by
  cases value with
  | true => by_cases same : j = i <;> simp [Bitmap.set, Bitmap.test_mark, same]
  | false => by_cases same : j = i <;> simp [Bitmap.set, Bitmap.test_reset, same]

@[simp] theorem Bitmap.bitCnt_set (i : Nat) (value : Bool) : (b.set i value).bitCnt = b.bitCnt := by
  cases value <;> rfl

@[simp] theorem Bitmap.setMultiple_zero (start : Nat) (value : Bool) : b.setMultiple start 0 value = b := rfl

theorem Bitmap.setMultiple_succ (start cnt : Nat) (value : Bool) :
    b.setMultiple start (cnt + 1) value = (b.setMultiple start cnt value).set (start + cnt) value := by
  simp [Bitmap.setMultiple, List.range_succ]

@[simp] theorem Bitmap.bitCnt_setMultiple (start cnt : Nat) (value : Bool) :
    (b.setMultiple start cnt value).bitCnt = b.bitCnt := by
  induction cnt with
  | zero => rfl
  | succ cnt ih => rw [Bitmap.setMultiple_succ, Bitmap.bitCnt_set, ih]

theorem Bitmap.test_setMultiple (start cnt : Nat) (value : Bool) (j : Nat) :
    (b.setMultiple start cnt value).test j = if start ≤ j ∧ j < start + cnt then value else b.test j := by
  induction cnt with
  | zero => rw [Bitmap.setMultiple_zero, if_neg (by omega)]
  | succ cnt ih =>
    rw [Bitmap.setMultiple_succ, Bitmap.test_set, ih]
    split <;> rename_i same
    · rw [if_pos (by omega)]
    · by_cases inside : start ≤ j ∧ j < start + cnt
      · rw [if_pos inside, if_pos (by omega)]
      · rw [if_neg inside, if_neg (by omega)]

variable {start cnt : Nat} {value : Bool}

theorem Bitmap.contains_eq_false :
    b.contains start cnt value = false ↔ ∀ i < cnt, b.test (start + i) = !value := by
  simp only [Bitmap.contains, List.any_eq_false, List.mem_range, beq_iff_eq, Bool.eq_not]

theorem Bitmap.all_iff : b.all start cnt = true ↔ ∀ i < cnt, b.test (start + i) = true := by
  rw [Bitmap.all, Bool.not_eq_true', Bitmap.contains_eq_false]
  simp

theorem Bitmap.scan_some {found : Nat} (scanned : b.scan start cnt value = some found) :
    start ≤ found ∧ found + cnt ≤ b.bitCnt ∧ ∀ i < cnt, b.test (found + i) = value := by
  unfold Bitmap.scan at scanned
  split at scanned <;> rename_i fits
  · have inside := List.mem_of_find?_eq_some scanned
    have free := List.find?_some scanned
    simp only [List.mem_map, List.mem_range] at inside
    obtain ⟨i, bound, rfl⟩ := inside
    rw [Bool.not_eq_true', Bitmap.contains_eq_false] at free
    exact ⟨Nat.le_add_right _ _, by omega, by simpa using free⟩
  · cases scanned

theorem Bitmap.scan_none (scanned : b.scan start cnt value = none) (fits : cnt ≤ b.bitCnt) {found : Nat}
    (later : start ≤ found) (bound : found + cnt ≤ b.bitCnt) : ∃ i < cnt, b.test (found + i) ≠ value := by
  by_contra none
  push Not at none
  unfold Bitmap.scan at scanned
  rw [if_pos fits] at scanned
  have absent := List.find?_eq_none.mp scanned found (by
    simp only [List.mem_map, List.mem_range]
    exact ⟨found - start, by omega, by omega⟩)
  refine absent ?_
  rw [Bool.not_eq_true', Bitmap.contains_eq_false]
  simpa using none

end Bits

section Storing
variable {b : Bitmap}

theorem Bitmap.byte_bit (k bit : Nat) (low : bit < 8) :
    (b.byte k).toBitVec.getLsbD bit = (b.bits (k / 4)).getLsbD (8 * (k % 4) + bit) := by
  simp [Bitmap.byte, low]

theorem elemOfBytes_bit (bytes : List UInt8) (idx bit : Nat) (low : bit < 32) :
    (Bitmap.elemOfBytes bytes idx).getLsbD bit = (bytes.getD (4 * idx + bit / 8) 0).toBitVec.getLsbD (bit % 8) := by
  simp only [Bitmap.elemOfBytes, BitVec.getLsbD_append]
  rcases (by omega : bit / 8 = 0 ∨ bit / 8 = 1 ∨ bit / 8 = 2 ∨ bit / 8 = 3) with part | part | part | part
  · rw [if_pos (by omega), part]
    congr 1
    omega
  · rw [if_neg (by omega), if_pos (by omega), part]
    congr 1
    omega
  · rw [if_neg (by omega), if_neg (by omega), if_pos (by omega), part]
    congr 1
    omega
  · rw [if_neg (by omega), if_neg (by omega), if_neg (by omega), part]
    congr 1
    omega

theorem elemCnt_covers {bitCnt idx : Nat} (small : bitCnt + 31 < 2 ^ 32) (inside : idx < bitCnt) :
    elemIdx idx < elemCnt bitCnt := by
  simp only [elemIdx, elemCnt, elemBits] at *
  omega

theorem lastMask_bit {bit : Nat} (low : bit < 32) :
    b.lastMask.getLsbD bit = (decide (b.bitCnt % elemBits = 0) || decide (bit < b.bitCnt % elemBits)) := by
  have bound : b.bitCnt % elemBits < 32 := Nat.mod_lt _ (by decide)
  unfold Bitmap.lastMask
  dsimp only
  split <;> rename_i last
  · have mask : 1#32 <<< (b.bitCnt % elemBits) - 1#32 = BitVec.ofNat 32 (2 ^ (b.bitCnt % elemBits) - 1) := by
      refine BitVec.eq_of_toNat_eq ?_
      have small : 2 ^ (b.bitCnt % elemBits) < 2 ^ 32 := Nat.pow_lt_pow_right (by decide) bound
      have pos : 0 < 2 ^ (b.bitCnt % elemBits) := Nat.two_pow_pos _
      rw [BitVec.toNat_sub, BitVec.toNat_shiftLeft, BitVec.toNat_ofNat, BitVec.toNat_ofNat, Nat.shiftLeft_eq]
      omega
    rw [mask, BitVec.getLsbD_ofNat, Nat.testBit_two_pow_sub_one]
    simp [last, low]
  · simp only [ne_eq, not_not] at last
    rw [BitVec.getLsbD_allOnes]
    simp [last, low]

/-- What `bitmap_write` wrote, `bitmap_read` finds, whatever the new bitmap held. -/
theorem Bitmap.test_load {other : Bitmap} (same : other.bitCnt = b.bitCnt) (small : b.bitCnt + 31 < 2 ^ 32) {idx : Nat}
    (inside : idx < b.bitCnt) : (other.load b.bytes).test idx = b.test idx := by
  have covered := elemCnt_covers small inside
  have low : idx % elemBits < 32 := Nat.mod_lt _ (by decide)
  have read : (elemOfBytes b.bytes (elemIdx idx)).getLsbD (idx % elemBits) = b.test idx := by
    have position : 4 * elemIdx idx + idx % elemBits / 8 < byteCnt b.bitCnt := by
      simp only [byteCnt, elemBits] at *
      omega
    rw [elemOfBytes_bit _ _ _ low, Bitmap.bytes, List.getD_eq_getElem?_getD, List.getElem?_map,
      List.getElem?_range position, Option.map_some, Option.getD_some, Bitmap.byte_bit _ _ (by omega), Bitmap.test_eq]
    congr 1
    · congr 1
      simp only [elemBits]
      omega
    · omega
  rw [Bitmap.test_eq, Bitmap.load, if_pos (by omega)]
  dsimp only
  rw [same]
  by_cases last : elemIdx idx = elemCnt b.bitCnt - 1
  · have mask : other.lastMask.getLsbD (idx % elemBits) = true := by
      have part : b.bitCnt % elemBits = 0 ∨ idx % elemBits < b.bitCnt % elemBits := by
        simp only [elemIdx, elemCnt, elemBits] at *
        omega
      rw [lastMask_bit low, same]
      simpa using part
    rw [← last, Function.update_self, if_pos covered, BitVec.getLsbD_and, mask, Bool.and_true, read]
  · rw [Function.update_of_ne last, if_pos covered, read]

end Storing

end Pintos.Filesys
