import Mathlib.Order.Bounds.Basic
import Pintos.Filesys.Bitmap

/-! Searches in a bitmap as the machine makes them (`lib/kernel/bitmap.c`).

Indices are 32-bit words, the assertions are part of the functions and the array
has `elem_cnt (bit_cnt)` elements: a failed assertion or an access outside the
array is `none`, and so is a loop without fuel. Every operation is compared with
the one on single bits.
-/

set_option autoImplicit false

namespace Pintos.Filesys

def bitmapError : Nat := 2 ^ 32 - 1

namespace Bitmap

/-- The elements hold the bits. For more than `2 ^ 32 - 32` bits `elem_cnt` wraps to
0 and `bitmap_create` returns a null pointer. -/
def Packed (b : Bitmap) : Prop := b.bitCnt ≤ elemBits * elemCnt b.bitCnt

def bit (b : Bitmap) (idx : Nat) : Bool := (b.bits (idx / 32)).getLsbD (idx % 32)

def flip (b : Bitmap) (bitIdx : Nat) : Bitmap :=
  { b with bits := Function.update b.bits (elemIdx bitIdx) (b.bits (elemIdx bitIdx) ^^^ bitMask bitIdx) }

def access {α : Type} (b : Bitmap) (bitIdx : Nat) (result : α) : Option α :=
  if elemIdx bitIdx < elemCnt b.bitCnt then some result else none

def bitmapMark (b : Bitmap) (bitIdx : Nat) : Option Bitmap := b.access bitIdx (b.mark bitIdx)

def bitmapReset (b : Bitmap) (bitIdx : Nat) : Option Bitmap := b.access bitIdx (b.reset bitIdx)

def bitmapFlip (b : Bitmap) (bitIdx : Nat) : Option Bitmap := b.access bitIdx (b.flip bitIdx)

def bitmapTest (b : Bitmap) (idx : Nat) : Option Bool :=
  if idx < b.bitCnt then b.access idx (b.test idx) else none

def bitmapSet (b : Bitmap) (idx : Nat) (value : Bool) : Option Bitmap :=
  if idx < b.bitCnt then if value then b.bitmapMark idx else b.bitmapReset idx else none

def Within (b : Bitmap) (start cnt : Nat) : Prop := start ≤ b.bitCnt ∧ (start + cnt) % 2 ^ 32 ≤ b.bitCnt

instance (b : Bitmap) (start cnt : Nat) : Decidable (b.Within start cnt) := inferInstanceAs (Decidable (_ ∧ _))

def bitmapSetMultiple (b : Bitmap) (start cnt : Nat) (value : Bool) : Option Bitmap :=
  if b.Within start cnt then
    (List.range cnt).foldlM (fun map i => map.bitmapSet ((start + i) % 2 ^ 32) value) b
  else none

def containsLoop (b : Bitmap) (start : Nat) (value : Bool) : Nat → Nat → Option Bool
  | _, 0 => some false
  | i, rest + 1 => do
    if (← b.bitmapTest ((start + i) % 2 ^ 32)) == value then return true
    b.containsLoop start value (i + 1) rest

def bitmapContains (b : Bitmap) (start cnt : Nat) (value : Bool) : Option Bool :=
  if b.Within start cnt then b.containsLoop start value 0 cnt else none

def scanLoop (b : Bitmap) (cnt last : Nat) (value : Bool) : Nat → Nat → Option Nat
  | 0, _ => none
  | fuel + 1, i =>
    if i ≤ last then do
      if !(← b.bitmapContains i cnt !value) then return i
      b.scanLoop cnt last value fuel ((i + 1) % 2 ^ 32)
    else some bitmapError

def bitmapScan (b : Bitmap) (start cnt : Nat) (value : Bool) : Option Nat :=
  if start ≤ b.bitCnt then
    if cnt ≤ b.bitCnt then b.scanLoop cnt (b.bitCnt - cnt) value (b.bitCnt + 2) start else some bitmapError
  else none

def bitmapScanAndFlip (b : Bitmap) (start cnt : Nat) (value : Bool) : Option (Nat × Bitmap) := do
  let idx ← b.bitmapScan start cnt value
  if idx ≠ bitmapError then return (idx, ← b.bitmapSetMultiple idx cnt !value)
  return (idx, b)

def Groups (b : Bitmap) (start cnt : Nat) (value : Bool) : Set Nat :=
  {i | start ≤ i ∧ i + cnt ≤ b.bitCnt ∧ ∀ k, i ≤ k → k < i + cnt → b.bit k = value}

end Bitmap

section Single
variable {b : Bitmap}

theorem Bitmap.test_eq_bit (idx : Nat) : b.test idx = b.bit idx := Bitmap.test_eq idx

theorem Bitmap.Packed.bound (packed : b.Packed) : b.bitCnt ≤ 2 ^ 32 - 32 := by
  simp only [Bitmap.Packed, elemCnt, elemBits] at packed
  omega

theorem Bitmap.Packed.access {α : Type} (packed : b.Packed) {idx : Nat} (inside : idx < b.bitCnt) (result : α) :
    b.access idx result = some result :=
  if_pos (elemCnt_covers (by have bound := packed.bound; omega) inside)

theorem Bitmap.test_flip (i j : Nat) : (b.flip i).test j = (decide (j = i) ^^ b.test j) := by
  rw [Bitmap.test_eq, Bitmap.test_eq, Bitmap.flip]
  dsimp only
  by_cases element : elemIdx j = elemIdx i
  · rw [element, Function.update_self, BitVec.getLsbD_xor, bitMask_bit, Bool.xor_comm]
    congr 1
    rw [decide_eq_decide]
    exact ⟨fun bit => (idx_eq_iff j i).mp ⟨element, bit⟩, fun same => by rw [same]⟩
  · rw [Function.update_of_ne element]
    have other : j ≠ i := fun same => element (by rw [same])
    simp [other]

end Single

section Several
variable {b : Bitmap} (packed : b.Packed)
include packed

theorem Bitmap.Packed.set {idx : Nat} (inside : idx < b.bitCnt) (value : Bool) :
    b.bitmapSet idx value = some (b.set idx value) := by
  rw [Bitmap.bitmapSet, if_pos inside, Bitmap.set]
  cases value
  · exact packed.access inside _
  · exact packed.access inside _

theorem Bitmap.Packed.within {start cnt : Nat} (fits : start + cnt ≤ b.bitCnt) : b.Within start cnt := by
  have bound := packed.bound
  exact ⟨by omega, by rw [Nat.mod_eq_of_lt (by omega)]; exact fits⟩

theorem Bitmap.Packed.setMultiple {start cnt : Nat} (fits : start + cnt ≤ b.bitCnt) (value : Bool) :
    b.bitmapSetMultiple start cnt value = some (b.setMultiple start cnt value) := by
  rw [Bitmap.bitmapSetMultiple, if_pos (packed.within fits)]
  have bound := packed.bound
  clear packed
  induction cnt with
  | zero => rfl
  | succ cnt ih =>
    have step : (b.setMultiple start cnt value).Packed := by
      simp only [Bitmap.Packed, Bitmap.bitCnt_setMultiple, elemCnt, elemBits]
      omega
    rw [List.range_succ, List.foldlM_append, ih (by omega), Option.bind_eq_bind, Option.bind_some, List.foldlM_cons,
      Nat.mod_eq_of_lt (by omega), step.set (by rw [Bitmap.bitCnt_setMultiple]; omega), Bitmap.setMultiple_succ]
    rfl

theorem Bitmap.Packed.containsLoop {start : Nat} (value : Bool) (rest : Nat) {i : Nat} (fits : start + i + rest ≤ b.bitCnt) :
    ∃ found, b.containsLoop start value i rest = some found ∧
      (found = false ↔ ∀ k, start + i ≤ k → k < start + i + rest → b.bit k = !value) := by
  induction rest generalizing i with
  | zero => exact ⟨false, rfl, by simp only [true_iff]; omega⟩
  | succ rest ih =>
    have bound := packed.bound
    have test : b.bitmapTest (start + i) = some (b.bit (start + i)) := by
      rw [Bitmap.bitmapTest, if_pos (by omega), packed.access (by omega), Bitmap.test_eq_bit]
    rw [Bitmap.containsLoop, Nat.mod_eq_of_lt (by omega), test, Option.bind_eq_bind, Option.bind_some]
    by_cases here : b.bit (start + i) = value
    · rw [if_pos (beq_iff_eq.mpr here)]
      refine ⟨true, rfl, ?_⟩
      simp only [Bool.true_eq_false, false_iff]
      intro every
      have absurd := every (start + i) (Nat.le_refl _) (by omega)
      rw [here] at absurd
      exact (Bool.eq_not_self _).mp absurd
    · rw [if_neg (fun same => here (beq_iff_eq.mp same))]
      obtain ⟨found, ran, exact⟩ := ih (i := i + 1) (by omega)
      refine ⟨found, ran, exact.trans ⟨fun every k least most => ?_, fun every k least most => every k (by omega) (by omega)⟩⟩
      by_cases first : k = start + i
      · rw [first]
        exact Bool.eq_not.mpr here
      · exact every k (by omega) (by omega)

/-- What `bitmap_scan` finds from `i` on. -/
theorem Bitmap.Packed.scanLoop {cnt last : Nat} {value : Bool} (end_ : last + cnt = b.bitCnt) (fuel : Nat) {i : Nat}
    (enough : last + 1 < i + fuel) (positive : 0 < fuel) :
    (∃ found, b.scanLoop cnt last value fuel i = some found ∧ IsLeast (b.Groups i cnt value) found) ∨
      b.scanLoop cnt last value fuel i = some bitmapError ∧ b.Groups i cnt value = ∅ := by
  induction fuel generalizing i with
  | zero => cases positive
  | succ fuel ih =>
    have bound := packed.bound
    rw [Bitmap.scanLoop]
    by_cases more : i ≤ last
    · have fits : i + cnt ≤ b.bitCnt := by omega
      obtain ⟨other, ran, equal⟩ : ∃ other, b.bitmapContains i cnt (!value) = some other ∧
          (other = false ↔ ∀ k, i ≤ k → k < i + cnt → b.bit k = value) := by
        rw [Bitmap.bitmapContains, if_pos (packed.within fits)]
        simpa only [Bool.not_not, Nat.add_zero] using packed.containsLoop (!value) cnt (show i + 0 + cnt ≤ b.bitCnt from fits)
      rw [if_pos more, ran, Option.bind_eq_bind, Option.bind_some]
      cases other with
      | false => exact .inl ⟨i, rfl, ⟨Nat.le_refl i, fits, equal.mp rfl⟩, fun j group => group.1⟩
      | true =>
        have none : i ∉ b.Groups i cnt value := fun group => by cases equal.mpr group.2.2
        have same : b.Groups i cnt value = b.Groups (i + 1) cnt value := by
          ext j
          refine ⟨fun group => ⟨?_, group.2⟩, fun group => ⟨Nat.le_of_succ_le group.1, group.2⟩⟩
          exact Nat.lt_of_le_of_ne group.1 fun first => none (first ▸ group)
        rw [same, Nat.mod_eq_of_lt (by omega)]
        exact ih (by omega) (by omega)
    · rw [if_neg more]
      refine .inr ⟨rfl, Set.eq_empty_iff_forall_notMem.mpr fun j group => ?_⟩
      have first := group.1
      have fits := group.2.1
      omega

end Several

/-- A search returns the first group, or `BITMAP_ERROR` exactly if there is none; it
flips that group and nothing else. An operation on one bit is on that bit alone. -/
theorem bitmap_operations_exact {b : Bitmap} (packed : b.Packed) {start : Nat} (inside : start ≤ b.bitCnt) (cnt : Nat)
    (value : Bool) :
    (∃ found flipped, b.bitmapScan start cnt value = some found ∧
      b.bitmapScanAndFlip start cnt value = some (found, flipped) ∧
      (found ≠ bitmapError → IsLeast (b.Groups start cnt value) found) ∧
      (found = bitmapError ↔ b.Groups start cnt value = ∅) ∧
      flipped.bitCnt = b.bitCnt ∧ (found = bitmapError → flipped = b) ∧
      ∀ k, flipped.bit k = if found ≠ bitmapError ∧ found ≤ k ∧ k < found + cnt then !b.bit k else b.bit k) ∧
    ∀ idx < b.bitCnt, b.bitmapTest idx = some (b.bit idx) ∧
      (∃ after, b.bitmapMark idx = some after ∧ ∀ k, after.bit k = if k = idx then true else b.bit k) ∧
      (∃ after, b.bitmapReset idx = some after ∧ ∀ k, after.bit k = if k = idx then false else b.bit k) ∧
      ∃ after, b.bitmapFlip idx = some after ∧ ∀ k, after.bit k = if k = idx then !b.bit k else b.bit k := by
  have bound := packed.bound
  refine ⟨?_, fun idx known => ⟨?_, ?_, ?_, ?_⟩⟩
  · have scanned : (∃ found, b.bitmapScan start cnt value = some found ∧ IsLeast (b.Groups start cnt value) found) ∨
        b.bitmapScan start cnt value = some bitmapError ∧ b.Groups start cnt value = ∅ := by
      rw [Bitmap.bitmapScan, if_pos inside]
      by_cases fits : cnt ≤ b.bitCnt
      · rw [if_pos fits]
        exact packed.scanLoop (Nat.sub_add_cancel fits) _ (by omega) (by omega)
      · rw [if_neg fits]
        refine .inr ⟨rfl, Set.eq_empty_iff_forall_notMem.mpr fun j group => ?_⟩
        have within := group.2.1
        omega
    rcases scanned with ⟨found, scanned, least⟩ | ⟨scanned, empty⟩
    · obtain ⟨later, fits, equal⟩ := least.1
      have known : found ≠ bitmapError := by
        simp only [bitmapError]
        omega
      refine ⟨found, b.setMultiple found cnt !value, scanned, ?_, fun _ => least, ?_, Bitmap.bitCnt_setMultiple .., ?_, ?_⟩
      · rw [Bitmap.bitmapScanAndFlip, scanned, Option.bind_eq_bind, Option.bind_some, if_pos known,
          packed.setMultiple fits]
        rfl
      · exact ⟨fun error => absurd error known, fun empty => absurd least.1 (empty ▸ Set.notMem_empty found)⟩
      · exact fun error => absurd error known
      · intro k
        rw [← Bitmap.test_eq_bit, Bitmap.test_setMultiple, Bitmap.test_eq_bit]
        simp only [known, ne_eq, not_false_eq_true, true_and]
        split <;> rename_i group
        · rw [equal k group.1 group.2]
        · rfl
    · refine ⟨bitmapError, b, scanned, ?_, fun known => absurd rfl known, ⟨fun _ => empty, fun _ => rfl⟩, rfl, fun _ => rfl, ?_⟩
      · rw [Bitmap.bitmapScanAndFlip, scanned]
        rfl
      · intro k
        rw [if_neg fun known => known.1 rfl]
  · rw [Bitmap.bitmapTest, if_pos known, packed.access known, Bitmap.test_eq_bit]
  · refine ⟨_, packed.access known _, fun k => ?_⟩
    rw [← Bitmap.test_eq_bit, ← Bitmap.test_eq_bit]
    exact b.test_set idx k true
  · refine ⟨_, packed.access known _, fun k => ?_⟩
    rw [← Bitmap.test_eq_bit, ← Bitmap.test_eq_bit]
    exact b.test_set idx k false
  · refine ⟨_, packed.access known _, fun k => ?_⟩
    rw [← Bitmap.test_eq_bit, ← Bitmap.test_eq_bit, Bitmap.test_flip]
    by_cases same : k = idx <;> simp [same]

def fortyBits : Bitmap := ⟨40, Function.update (fun _ => 0#32) 0 0x3fffffff#32⟩

/-- A group that crosses into the second element. -/
theorem bitmap_operations_exact_crossing : ∃ flipped, fortyBits.bitmapScanAndFlip 0 4 false = some (30, flipped) ∧
    ∀ k, flipped.bit k = if 30 ≤ k ∧ k < 34 then !fortyBits.bit k else fortyBits.bit k := by
  obtain ⟨⟨found, flipped, scanned, flips, -, -, -, -, bits⟩, -⟩ := bitmap_operations_exact
    (by decide +kernel : fortyBits.bitCnt ≤ elemBits * elemCnt fortyBits.bitCnt) (Nat.zero_le _) 4 false
  have thirty : fortyBits.bitmapScan 0 4 false = some 30 := by decide +kernel
  cases scanned.symm.trans thirty
  exact ⟨flipped, flips, fun k => by simpa [bitmapError] using bits k⟩

end Pintos.Filesys
