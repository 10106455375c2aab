import Mathlib.Algebra.Group.Int.Defs
import Mathlib.Algebra.Group.Nat.Defs
import Mathlib.Data.Nat.Basic

/-! 64-bit division out of a 32-bit instruction (`lib/arithmetic.c`).

The numbers are words of the machine. The divide instruction traps when its
quotient does not fit; a routine that returns a value has not trapped.
-/

set_option autoImplicit false

namespace Pintos.Lib.Arithmetic

/-- The `divl` instruction: `none` is a divide error. -/
def divl (n : BitVec 64) (d : BitVec 32) : Option (BitVec 32) :=
  if d ≠ 0 ∧ n.toNat / d.toNat < 2 ^ 32 then some (BitVec.ofNat 32 (n.toNat / d.toNat)) else none

/-- One test of `nlz`: a word with as many leading zeros is shifted by them. -/
def shiftZeros (bits : Nat) (counted : Nat × BitVec 32) : Nat × BitVec 32 :=
  if counted.2.toNat < 2 ^ (32 - bits) then (counted.1 + bits, counted.2 <<< bits) else counted

def nlz (x : BitVec 32) : Nat :=
  (shiftZeros 1 (shiftZeros 2 (shiftZeros 4 (shiftZeros 8 (shiftZeros 16 (0, x)))))).1

def udiv64 (n d : BitVec 64) : Option (BitVec 64) :=
  if d >>> 32 = 0 then do
    let n1 := (n >>> 32).setWidth 32
    let n0 := n.setWidth 32
    let d0 := d.setWidth 32
    let low ← divl (1#64 <<< 32 * (n1 % d0).setWidth 64 + n0.setWidth 64) d0
    some (low.setWidth 64 + 1#64 <<< 32 * (n1 / d0).setWidth 64)
  else if n < d then some 0
  else do
    let s := nlz ((d >>> 32).setWidth 32)
    let estimate ← divl (n >>> 1) ((d <<< s >>> 32).setWidth 32)
    let q := estimate.setWidth 64 >>> (31 - s)
    some (if n - (q - 1) * d < d then q - 1 else q)

def umod64 (n d : BitVec 64) : Option (BitVec 32) := (udiv64 n d).map fun q => (n - d * q).setWidth 32

def sdiv64 (n d : BitVec 64) : Option (BitVec 64) :=
  let nAbs := if n.slt 0#64 then -n else n
  let dAbs := if d.slt 0#64 then -d else d
  (udiv64 nAbs dAbs).map fun qAbs => if n.slt 0#64 = d.slt 0#64 then qAbs else -qAbs

def smod64 (n d : BitVec 64) : Option (BitVec 32) := (sdiv64 n d).map fun q => (n - d * q).setWidth 32

def divdi3 (n d : BitVec 64) : Option (BitVec 64) := sdiv64 n d

def moddi3 (n d : BitVec 64) : Option (BitVec 64) := (smod64 n d).map (BitVec.signExtend 64)

def udivdi3 (n d : BitVec 64) : Option (BitVec 64) := udiv64 n d

def umoddi3 (n d : BitVec 64) : Option (BitVec 64) := (umod64 n d).map (BitVec.setWidth 64)

section Normalising

theorem shiftZeros_spec (bits : Nat) {x y : BitVec 32} {n : Nat} (least : 2 ^ (32 - 2 * bits) ≤ y.toNat) (half : 2 * bits ≤ 32)
    (value : y.toNat = x.toNat * 2 ^ n) :
    2 ^ (32 - bits) ≤ (shiftZeros bits (n, y)).2.toNat ∧
      (shiftZeros bits (n, y)).2.toNat = x.toNat * 2 ^ (shiftZeros bits (n, y)).1 := by
  rw [shiftZeros]
  by_cases small : y.toNat < 2 ^ (32 - bits)
  · have split : 2 ^ (32 - bits) * 2 ^ bits = 2 ^ 32 := by rw [← Nat.pow_add]; congr 1; omega
    have halves : 2 ^ (32 - 2 * bits) * 2 ^ bits = 2 ^ (32 - bits) := by rw [← Nat.pow_add]; congr 1; omega
    have fits : y.toNat * 2 ^ bits < 2 ^ 32 := split ▸ Nat.mul_lt_mul_of_pos_right small (Nat.two_pow_pos bits)
    rw [if_pos small]
    simp only [BitVec.toNat_shiftLeft, Nat.shiftLeft_eq, Nat.mod_eq_of_lt fits]
    exact ⟨halves ▸ Nat.mul_le_mul_right _ least, by rw [value, Nat.pow_add, Nat.mul_assoc]⟩
  · rw [if_neg small]
    exact ⟨Nat.le_of_not_lt small, value⟩

/-- Shifted by `nlz`, a word has its highest bit set and has lost none. -/
theorem nlz_spec {x : BitVec 32} (nonzero : x ≠ 0) : 2 ^ 31 ≤ x.toNat * 2 ^ nlz x ∧ x.toNat * 2 ^ nlz x < 2 ^ 32 := by
  have positive : 2 ^ (32 - 2 * 16) ≤ x.toNat := Nat.pos_of_ne_zero fun zero => nonzero (BitVec.eq_of_toNat_eq zero)
  obtain ⟨some, value⟩ := shiftZeros_spec 16 positive (by decide) (x := x) (n := 0) (Nat.mul_one _).symm
  obtain ⟨some, value⟩ := shiftZeros_spec 8 some (by decide) value
  obtain ⟨some, value⟩ := shiftZeros_spec 4 some (by decide) value
  obtain ⟨some, value⟩ := shiftZeros_spec 2 some (by decide) value
  obtain ⟨some, value⟩ := shiftZeros_spec 1 some (by decide) value
  rw [nlz, ← value]
  exact ⟨some, BitVec.isLt _⟩

end Normalising

section Unsigned

/-- Dividing by the divisor's leading part alone gives at most one too much. -/
theorem estimate_bounds {n d unit : Nat} (word : n < 2 ^ 64) (even : unit = 2 ∨ 4 ≤ unit) (lead : 2 ^ 31 ≤ d / unit) :
    n / d ≤ n / (unit * (d / unit)) ∧ n / (unit * (d / unit)) ≤ n / d + 1 := by
  have split := Nat.div_add_mod d unit
  have rest : d % unit < unit := Nat.mod_lt d (by omega)
  have positive : 0 < unit * (d / unit) := Nat.mul_pos (by omega) (by omega)
  have quotient : n / d * d ≤ n := Nat.div_mul_le_self n d
  have next : n < (n / d + 1) * d := Nat.lt_mul_of_div_lt (Nat.lt_succ_self _) (by omega)
  have large : unit * 2 ^ 31 ≤ unit * (d / unit) := Nat.mul_le_mul_left unit lead
  refine ⟨Nat.div_le_div_left (by omega) positive, Nat.le_of_lt_succ ((Nat.div_lt_iff_lt_mul positive).mpr ?_)⟩
  -- what the estimate leaves of the divisor is too little to add more than one to the quotient
  have excess : (n / d + 1) * (d % unit) ≤ unit * (d / unit) := by
    rcases even with rfl | four
    · have few : n / d < 2 ^ 32 := by
        by_contra many
        have most := Nat.mul_le_mul (Nat.le_of_not_lt many) (by omega : 2 ^ 32 ≤ d)
        omega
      have one : d % 2 ≤ 1 := by omega
      have product := Nat.mul_le_mul_left (n / d + 1) one
      omega
    · have few : n / d < 2 ^ 31 := by
        by_contra many
        have most := Nat.mul_le_mul (Nat.le_of_not_lt many) (by omega : 2 ^ 33 ≤ d)
        omega
      calc (n / d + 1) * (d % unit) ≤ (d / unit) * unit := Nat.mul_le_mul (by omega) (Nat.le_of_lt rest)
        _ = unit * (d / unit) := Nat.mul_comm _ _
  calc n < (n / d + 1) * d := next
    _ = (n / d + 1) * (unit * (d / unit)) + (n / d + 1) * (d % unit) := by rw [← Nat.mul_add, split]
    _ ≤ (n / d + 1) * (unit * (d / unit)) + unit * (d / unit) := Nat.add_le_add_left excess _
    _ = (n / d + 1 + 1) * (unit * (d / unit)) := (Nat.succ_mul _ _).symm

theorem divl_eq {n : BitVec 64} {d : BitVec 32} (nonzero : d ≠ 0) (fits : n.toNat / d.toNat < 2 ^ 32) :
    divl n d = some (BitVec.ofNat 32 (n.toNat / d.toNat)) := if_pos ⟨nonzero, fits⟩

theorem udiv64_short {n d : BitVec 64} (short : d >>> 32 = 0) (nonzero : d ≠ 0) : udiv64 n d = some (n / d) := by
  have low : d.toNat < 2 ^ 32 := by
    have high := congrArg BitVec.toNat short
    rw [BitVec.toNat_ushiftRight, Nat.shiftRight_eq_div_pow] at high
    exact (Nat.div_eq_zero_iff_lt (by decide)).mp high
  have positive : 0 < d.toNat := Nat.pos_of_ne_zero fun zero => nonzero (BitVec.eq_of_toNat_eq zero)
  have word := n.isLt
  have high : n.toNat / 2 ^ 32 < 2 ^ 32 := by omega
  have left : n.toNat / 2 ^ 32 % d.toNat < d.toNat := Nat.mod_lt _ positive
  have upper : n.toNat / 2 ^ 32 / d.toNat ≤ n.toNat / 2 ^ 32 := Nat.div_le_self _ _
  have d0 : (d.setWidth 32).toNat = d.toNat := by rw [BitVec.toNat_setWidth, Nat.mod_eq_of_lt low]
  have n1 : ((n >>> 32).setWidth 32).toNat = n.toNat / 2 ^ 32 := by
    rw [BitVec.toNat_setWidth, BitVec.toNat_ushiftRight, Nat.shiftRight_eq_div_pow, Nat.mod_eq_of_lt high]
  have base : (1#64 <<< 32).toNat = 2 ^ 32 := rfl
  have dividend : (1#64 <<< 32 * ((n >>> 32).setWidth 32 % d.setWidth 32).setWidth 64 + (n.setWidth 32).setWidth 64).toNat =
      2 ^ 32 * (n.toNat / 2 ^ 32 % d.toNat) + n.toNat % 2 ^ 32 := by
    simp only [BitVec.toNat_add, BitVec.toNat_mul, BitVec.toNat_setWidth, BitVec.toNat_umod, n1, d0, base]
    omega
  -- the remainder of the upper word leaves a quotient of one word
  have fits : (2 ^ 32 * (n.toNat / 2 ^ 32 % d.toNat) + n.toNat % 2 ^ 32) / d.toNat < 2 ^ 32 := by
    refine (Nat.div_lt_iff_lt_mul positive).mpr ?_
    omega
  have sum : n.toNat / d.toNat = (2 ^ 32 * (n.toNat / 2 ^ 32 % d.toNat) + n.toNat % 2 ^ 32) / d.toNat +
      2 ^ 32 * (n.toNat / 2 ^ 32 / d.toNat) := by
    have split : n.toNat = (2 ^ 32 * (n.toNat / 2 ^ 32 % d.toNat) + n.toNat % 2 ^ 32) +
        d.toNat * (2 ^ 32 * (n.toNat / 2 ^ 32 / d.toNat)) := by
      have parts := Nat.div_add_mod n.toNat (2 ^ 32)
      have upper := Nat.div_add_mod (n.toNat / 2 ^ 32) d.toNat
      rw [Nat.mul_left_comm, ← Nat.add_right_comm, ← Nat.mul_add, Nat.add_comm (_ % _), upper, parts]
    rw [← Nat.add_mul_div_left _ _ positive, ← split]
  have bound : n.toNat / d.toNat < 2 ^ 64 := Nat.lt_of_le_of_lt (Nat.div_le_self _ _) word
  have divisor : d.setWidth 32 ≠ 0 := fun zero => Nat.ne_of_gt positive (d0.symm.trans (congrArg BitVec.toNat zero))
  rw [udiv64, if_pos short]
  dsimp only
  rw [divl_eq divisor (by rw [dividend, d0]; exact fits), dividend, d0]
  refine congrArg some (BitVec.eq_of_toNat_eq ?_)
  simp only [BitVec.toNat_add, BitVec.toNat_mul, BitVec.toNat_setWidth, BitVec.toNat_udiv, n1, d0, base, BitVec.toNat_ofNat]
  generalize (2 ^ 32 * (n.toNat / 2 ^ 32 % d.toNat) + n.toNat % 2 ^ 32) / d.toNat = low at fits sum ⊢
  generalize n.toNat / d.toNat = q at sum bound ⊢
  omega

/-- An estimate that is right or one too high is put right. -/
theorem correct_estimate {n d q : BitVec 64} (most : d.toNat ≤ n.toNat) (positive : 0 < d.toNat)
    (low : n.toNat / d.toNat ≤ q.toNat) (high : q.toNat ≤ n.toNat / d.toNat + 1) :
    (if n - (q - 1) * d < d then q - 1 else q) = n / d := by
  have word := n.isLt
  have divided := Nat.div_add_mod n.toNat d.toNat
  have rest := Nat.mod_lt n.toNat positive
  have some : 1 ≤ n.toNat / d.toNat := Nat.div_pos most positive
  have less : (q - 1).toNat = q.toNat - 1 := by
    have bound := q.isLt
    rw [BitVec.toNat_sub]
    show (2 ^ 64 - 1 + q.toNat) % 2 ^ 64 = q.toNat - 1
    omega
  have product : (q.toNat - 1) * d.toNat ≤ n.toNat :=
    Nat.le_trans (Nat.mul_le_mul_right _ (by omega)) (Nat.div_mul_le_self n.toNat d.toNat)
  have left : (n - (q - 1) * d).toNat = n.toNat - (q.toNat - 1) * d.toNat := by
    rw [BitVec.toNat_sub, BitVec.toNat_mul, less, Nat.mod_eq_of_lt (Nat.lt_of_le_of_lt product word)]
    omega
  have test : n - (q - 1) * d < d ↔ n.toNat - (q.toNat - 1) * d.toNat < d.toNat := by rw [BitVec.lt_def, left]
  apply BitVec.eq_of_toNat_eq
  rw [BitVec.toNat_udiv]
  rcases Nat.lt_or_ge (n.toNat / d.toNat) q.toNat with more | enough
  · have same : q.toNat - 1 = n.toNat / d.toNat := by omega
    have product : (q.toNat - 1) * d.toNat = d.toNat * (n.toNat / d.toNat) := by rw [same, Nat.mul_comm]
    rw [if_pos (test.mpr (by omega)), less, same]
  · have same : q.toNat = n.toNat / d.toNat := by omega
    have part : (q.toNat - 1) * d.toNat + d.toNat = d.toNat * (n.toNat / d.toNat) := by
      rw [← Nat.succ_mul, Nat.mul_comm, ← same]
      congr 1
      omega
    rw [if_neg (fun small => by have short := test.mp small; omega), same]

theorem udiv64_long {n d : BitVec 64} (long : d >>> 32 ≠ 0) : udiv64 n d = some (n / d) := by
  rw [udiv64, if_neg long]
  by_cases less : n < d
  · rw [if_pos less]
    exact congrArg some (BitVec.eq_of_toNat_eq (by rw [BitVec.toNat_udiv, Nat.div_eq_of_lt less]; rfl))
  rw [if_neg less]
  dsimp only
  have most : d.toNat ≤ n.toNat := Nat.le_of_not_lt less
  have word := n.isLt
  have high : ((d >>> 32).setWidth 32).toNat = d.toNat / 2 ^ 32 := by
    have bound := d.isLt
    rw [BitVec.toNat_setWidth, BitVec.toNat_ushiftRight, Nat.shiftRight_eq_div_pow, Nat.mod_eq_of_lt (by omega)]
  have upper : (d >>> 32).setWidth 32 ≠ 0 := fun zero => long (BitVec.eq_of_toNat_eq (by
    rw [BitVec.toNat_ushiftRight, Nat.shiftRight_eq_div_pow, ← high, zero]
    rfl))
  obtain ⟨least, bound⟩ := nlz_spec upper
  rw [high] at least bound
  generalize nlz ((d >>> 32).setWidth 32) = s at least bound ⊢
  have some : 0 < d.toNat / 2 ^ 32 := by
    by_contra none
    rw [Nat.eq_zero_of_not_pos none, Nat.zero_mul] at least
    omega
  have shift : s < 32 := (Nat.pow_lt_pow_iff_right (by decide)).mp (Nat.lt_of_le_of_lt (Nat.le_mul_of_pos_left _ some) bound)
  -- the divisor in units of the bits that are shifted out
  obtain ⟨unit, isUnit⟩ : ∃ unit, unit = 2 ^ (32 - s) := ⟨_, rfl⟩
  have split : unit * 2 ^ s = 2 ^ 32 := by rw [isUnit, ← Nat.pow_add]; congr 1; omega
  have below : d.toNat / 2 ^ 32 < unit := Nat.lt_of_mul_lt_mul_right (a := 2 ^ s) (by rw [split]; exact bound)
  have fits : d.toNat * 2 ^ s < 2 ^ 64 := by
    calc d.toNat * 2 ^ s < (unit * 2 ^ 32) * 2 ^ s := Nat.mul_lt_mul_of_pos_right (by omega) (Nat.two_pow_pos s)
      _ = 2 ^ 64 := by rw [Nat.mul_right_comm, split, ← Nat.pow_add]
  have shifted : d.toNat * 2 ^ s / 2 ^ 32 = d.toNat / unit := by
    rw [← split, Nat.mul_div_mul_right _ _ (Nat.two_pow_pos s)]
  have lead : 2 ^ 31 ≤ d.toNat / unit := by
    rw [← shifted, Nat.le_div_iff_mul_le (by decide)]
    calc 2 ^ 31 * 2 ^ 32 ≤ d.toNat / 2 ^ 32 * 2 ^ s * 2 ^ 32 := Nat.mul_le_mul_right _ least
      _ = d.toNat / 2 ^ 32 * 2 ^ 32 * 2 ^ s := Nat.mul_right_comm ..
      _ ≤ d.toNat * 2 ^ s := Nat.mul_le_mul_right _ (Nat.div_mul_le_self ..)
  have divisor : ((d <<< s >>> 32).setWidth 32).toNat = d.toNat / unit := by
    rw [BitVec.toNat_setWidth, BitVec.toNat_ushiftRight, BitVec.toNat_shiftLeft, Nat.shiftRight_eq_div_pow, Nat.shiftLeft_eq,
      Nat.mod_eq_of_lt fits, Nat.mod_eq_of_lt (by omega), shifted]
  have half : (n >>> 1).toNat = n.toNat / 2 := by rw [BitVec.toNat_ushiftRight, Nat.shiftRight_eq_div_pow]
  have small : n.toNat / 2 / (d.toNat / unit) < 2 ^ 32 :=
    (Nat.div_lt_iff_lt_mul (by omega : 0 < d.toNat / unit)).mpr (by omega)
  have even : unit = 2 ∨ 4 ≤ unit := by
    rcases Nat.lt_or_ge s 31 with many | last
    · exact .inr (isUnit ▸ Nat.pow_le_pow_right (n := 2) (by decide) (by omega : 2 ≤ 32 - s))
    · obtain rfl : s = 31 := by omega
      exact .inl isUnit
  have estimate : ((BitVec.ofNat 32 (n.toNat / 2 / (d.toNat / unit))).setWidth 64 >>> (31 - s)).toNat =
      n.toNat / (unit * (d.toNat / unit)) := by
    have twice : unit = 2 * 2 ^ (31 - s) := by rw [isUnit, ← Nat.pow_succ']; congr 1; omega
    rw [BitVec.toNat_ushiftRight, BitVec.toNat_setWidth, BitVec.toNat_ofNat, Nat.mod_eq_of_lt small,
      Nat.mod_eq_of_lt (by omega), Nat.shiftRight_eq_div_pow, Nat.div_div_eq_div_mul, Nat.div_div_eq_div_mul,
      Nat.mul_comm (d.toNat / unit), ← Nat.mul_assoc, ← twice]
  have nonzero : (d <<< s >>> 32).setWidth 32 ≠ 0 := fun zero => by
    have null : 0 = d.toNat / unit := (congrArg BitVec.toNat zero).symm.trans divisor
    omega
  obtain ⟨low, high⟩ := estimate_bounds word even lead
  rw [← estimate] at low high
  rw [divl_eq nonzero (by rw [half, divisor]; exact small), half, divisor]
  exact congrArg Option.some (correct_estimate most (by omega) low high)

theorem udiv64_eq {n d : BitVec 64} (nonzero : d ≠ 0) : udiv64 n d = some (n / d) := by
  by_cases short : d >>> 32 = 0
  · exact udiv64_short short nonzero
  · exact udiv64_long short

end Unsigned

section Signed
variable {n d : BitVec 64}

theorem sdiv64_eq (nonzero : d ≠ 0) : sdiv64 n d = some (n.sdiv d) := by
  have negated : -d ≠ 0 := fun zero => nonzero (BitVec.neg_eq_zero_iff.mp zero)
  rw [sdiv64, BitVec.slt_zero_eq_msb, BitVec.slt_zero_eq_msb, BitVec.sdiv_eq]
  cases n.msb <;> cases d.msb <;> simp [udiv64_eq nonzero, udiv64_eq negated]

/-- Both divisions are exact and none of their instructions traps. -/
theorem division_exact (n d : BitVec 64) (nonzero : d ≠ 0) :
    (∃ q, udiv64 n d = some q ∧ q.toNat = n.toNat / d.toNat) ∧
    (n ≠ BitVec.intMin 64 ∨ d ≠ -1#64 → ∃ q, sdiv64 n d = some q ∧ q.toInt = n.toInt.tdiv d.toInt) :=
  ⟨⟨n / d, udiv64_eq nonzero, BitVec.toNat_udiv⟩,
    fun pair => ⟨n.sdiv d, sdiv64_eq nonzero, BitVec.toInt_sdiv_of_ne_or_ne n d pair⟩⟩

theorem division_exact_seven : ∃ q, sdiv64 (-7#64) 2#64 = some q ∧ q.toInt = -3 := by
  obtain ⟨q, divided, value⟩ := (division_exact (-7#64) 2#64 (by decide)).2 (.inl (by decide))
  exact ⟨q, divided, value.trans (by decide)⟩

theorem sub_mul_udiv (n d : BitVec 64) : n - d * (n / d) = n % d := by
  have word := n.isLt
  have divided := Nat.div_add_mod n.toNat d.toNat
  apply BitVec.eq_of_toNat_eq
  rw [BitVec.toNat_sub, BitVec.toNat_mul, BitVec.toNat_udiv, BitVec.toNat_umod, Nat.mod_eq_of_lt (a := d.toNat * _) (by omega)]
  omega

theorem sub_mul_sdiv (n d : BitVec 64) : n - d * n.sdiv d = n.srem d := by
  apply BitVec.eq_of_toInt_eq
  have left : n.toInt - d.toInt * n.toInt.tdiv d.toInt = n.toInt.tmod d.toInt := (Int.tmod_def ..).symm
  rw [BitVec.toInt_sub, BitVec.toInt_mul, BitVec.toInt_sdiv, Int.mul_bmod_bmod, Int.sub_bmod_bmod, left,
    ← BitVec.toInt_srem, BitVec.toInt_bmod_cancel]

/-- What is left of a remainder after its passage through 32 bits. -/
theorem umoddi3_eq (nonzero : d ≠ 0) : umoddi3 n d = some (((n % d).setWidth 32).setWidth 64) := by
  rw [umoddi3, umod64, udiv64_eq nonzero]
  simp only [Option.map_some, sub_mul_udiv]

theorem moddi3_eq (nonzero : d ≠ 0) : moddi3 n d = some (((n.srem d).setWidth 32).signExtend 64) := by
  rw [moddi3, smod64, sdiv64_eq nonzero]
  simp only [Option.map_some, sub_mul_sdiv]

theorem toInt_narrow (x : BitVec 64) : ((x.setWidth 32).signExtend 64).toInt = x.toInt.bmod (2 ^ 32) := by
  have same : (x.toNat : Int).bmod (2 ^ 32) = x.toInt.bmod (2 ^ 32) := by
    rw [BitVec.toInt_eq_toNat_bmod, Int.bmod_bmod_of_dvd (by decide)]
  rw [BitVec.toInt_signExtend, BitVec.toInt_setWidth, same]
  exact Int.bmod_bmod

theorem bmod_eq_iff (x : Int) : x.bmod (2 ^ 32) = x ↔ -2 ^ 31 ≤ x ∧ x < 2 ^ 31 := by
  constructor
  · intro same
    have low := Int.le_bmod (x := x) (m := 2 ^ 32) (by decide)
    have high := Int.bmod_lt (x := x) (m := 2 ^ 32) (by decide)
    rw [same] at low high
    exact ⟨low, high⟩
  · rintro ⟨low, high⟩
    exact Int.bmod_eq_of_le low high

/-- The remainders are exact as long as they fit the type of `umod64` and `smod64`. -/
theorem remainders_exact_iff (n d : BitVec 64) (nonzero : d ≠ 0) :
    (∃ q r, udivdi3 n d = some q ∧ umoddi3 n d = some r ∧
      (r.toNat = n.toNat % d.toNat ∧ d * q + r = n ↔ n.toNat % d.toNat < 2 ^ 32)) ∧
    ∃ q r, divdi3 n d = some q ∧ moddi3 n d = some r ∧
      (r.toInt = n.toInt.tmod d.toInt ∧ d * q + r = n ↔ -2 ^ 31 ≤ n.toInt.tmod d.toInt ∧ n.toInt.tmod d.toInt < 2 ^ 31) := by
  constructor
  · refine ⟨n / d, _, udiv64_eq nonzero, umoddi3_eq nonzero, ⟨fun exact_ => ?_, fun short => ?_⟩⟩
    · have narrow := exact_.1
      rw [BitVec.toNat_setWidth, BitVec.toNat_setWidth, BitVec.toNat_umod] at narrow
      omega
    · have same : ((n % d).setWidth 32).setWidth 64 = n % d := by
        apply BitVec.eq_of_toNat_eq
        rw [BitVec.toNat_setWidth, BitVec.toNat_setWidth, BitVec.toNat_umod, Nat.mod_eq_of_lt short,
          Nat.mod_eq_of_lt (by omega)]
      rw [same, ← sub_mul_udiv]
      exact ⟨by rw [sub_mul_udiv, BitVec.toNat_umod], by rw [BitVec.add_comm, BitVec.sub_add_cancel]⟩
  · refine ⟨n.sdiv d, _, sdiv64_eq nonzero, moddi3_eq nonzero, ⟨fun exact_ => ?_, fun range => ?_⟩⟩
    · have narrow := exact_.1
      rw [toInt_narrow, BitVec.toInt_srem] at narrow
      exact (bmod_eq_iff _).mp narrow
    · have same : ((n.srem d).setWidth 32).signExtend 64 = n.srem d := by
        apply BitVec.eq_of_toInt_eq
        rw [toInt_narrow, BitVec.toInt_srem]
        exact (bmod_eq_iff _).mpr range
      rw [same, ← sub_mul_sdiv]
      exact ⟨by rw [sub_mul_sdiv, BitVec.toInt_srem], by rw [BitVec.add_comm, BitVec.sub_add_cancel]⟩

theorem remainders_exact_iff_seconds :
    ∃ r, umoddi3 (BitVec.ofNat 64 (2 ^ 40 + 5)) 86400#64 = some r ∧ r.toNat = (2 ^ 40 + 5) % 86400 := by
  obtain ⟨⟨q, r, -, left, exact_⟩, -⟩ := remainders_exact_iff (BitVec.ofNat 64 (2 ^ 40 + 5)) 86400#64 (by decide)
  exact ⟨r, left, (exact_.mpr (by decide)).1⟩

/-- The remainder of `2 ^ 32` by a greater number is that number itself, and 0 is returned. -/
theorem umoddi3_drops_high_word :
    umoddi3 0x100000000#64 0x200000000#64 = some 0#64 ∧ 0x100000000#64 % 0x200000000#64 ≠ 0#64 ∧
    moddi3 0x80000000#64 0x100000000#64 = some (-0x80000000#64) := by
  refine ⟨umoddi3_eq (by decide), by decide, moddi3_eq (by decide)⟩

end Signed

end Pintos.Lib.Arithmetic
