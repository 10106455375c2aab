import Mathlib.Data.Nat.Bitwise
import Mathlib.Data.Nat.Log

/-! Calibration of the busy-wait loop (`devices/timer.c`).

The second loop of `timer_calibrate` tries each bit together with the highest
one alone and not with the bits it has taken. When it takes a bit it therefore
takes all bits below as well, and the count can be that of more than a tick.
-/

set_option autoImplicit false

namespace Pintos.Devices.Timer

section Code
variable (tooManyLoops : Nat → Bool)

/-- The first loop; `none` when the assertion fails. -/
def doubleLoop : Nat → Nat → Option Nat
  | 0, _ => none
  | left + 1, loops =>
    if tooManyLoops (loops * 2 % 2 ^ 32) then some loops
    else if loops * 2 % 2 ^ 32 = 0 then none
    else doubleLoop left (loops * 2 % 2 ^ 32)

def refineLoop (highBit : Nat) : Nat → Nat → Nat → Nat
  | 0, _, loops => loops
  | left + 1, testBit, loops =>
    if testBit = highBit >>> 10 then loops
    else refineLoop highBit left (testBit >>> 1) (if tooManyLoops (highBit ||| testBit) then loops else loops ||| testBit)

/-- The value of `loops_per_tick`. -/
def timerCalibrate : Option Nat :=
  (doubleLoop tooManyLoops 32 (1 <<< 10)).map fun highBit => refineLoop tooManyLoops highBit 32 (highBit >>> 1) highBit

end Code

/-- A processor on which so many iterations fit into a tick. -/
def exceeds (tick loops : Nat) : Bool := tick < loops

@[simp] theorem exceeds_eq_true {tick loops : Nat} : exceeds tick loops = true ↔ tick < loops := decide_eq_true_iff

section Loops
variable {h rest : Nat}

theorem doubled {k : Nat} (small : k < 31) : 2 ^ k * 2 % 2 ^ 32 = 2 ^ (k + 1) := by
  rw [← Nat.pow_succ]
  exact Nat.mod_eq_of_lt (Nat.pow_lt_pow_right Nat.one_lt_two (by omega))

theorem doubleLoop_eq {tick : Nat} (reached : 2 ^ h ≤ tick) (beyond : tick < 2 ^ (h + 1)) (small : h < 31) (more extra : Nat)
    {k : Nat} (sum : k + more = h) : doubleLoop (exceeds tick) (extra + more + 1) (2 ^ k) = some (2 ^ h) := by
  induction more generalizing k with
  | zero =>
    obtain rfl : k = h := sum
    rw [doubleLoop, doubled small, if_pos (exceeds_eq_true.mpr beyond)]
  | succ more ih =>
    have fits : 2 ^ (k + 1) ≤ 2 ^ h := Nat.pow_le_pow_right (by decide) (by omega)
    rw [doubleLoop, doubled (by omega), if_neg (by simpa using fits.trans reached), if_neg (Nat.ne_of_gt (Nat.two_pow_pos _))]
    exact ih (by omega)

/-- The loop takes the bits from `k` down, or none if `k` is 0. -/
theorem refineLoop_eq (n extra : Nat) {k loops : Nat} (below : n < 10) (clear : 2 ^ (h + n + 1) ∣ loops)
    (within : k ≤ n) (taken : k = 0 ∨ 2 ^ (h + k) ≤ rest) (passed : k = n ∨ rest < 2 ^ (h + k + 1)) :
    refineLoop (exceeds (2 ^ (h + 10) + rest)) (2 ^ (h + 10)) (extra + n + 1) (2 ^ (h + n)) loops =
      loops + (2 ^ (h + k + 1) - 2 ^ (h + 1)) := by
  have last : 2 ^ (h + 10) >>> 10 = 2 ^ h := by rw [Nat.shiftRight_eq_div_pow, Nat.pow_add, Nat.mul_div_cancel _ (by decide)]
  induction n generalizing k loops with
  | zero =>
    obtain rfl : k = 0 := by omega
    simp [refineLoop, last]
  | succ n ih =>
    obtain ⟨c, rfl⟩ := clear
    have rises : h + n + 1 < h + 10 := by omega
    have other : 2 ^ (h + n + 1) ≠ 2 ^ h := Nat.ne_of_gt (Nat.pow_lt_pow_right (by decide) (by omega))
    have next : 2 ^ (h + n + 1) >>> 1 = 2 ^ (h + n) := by rw [Nat.shiftRight_one, Nat.pow_succ, Nat.mul_div_cancel _ (by decide)]
    have tried := Nat.two_pow_add_eq_or_of_lt (Nat.pow_lt_pow_right Nat.one_lt_two rises) 1
    rw [Nat.mul_one] at tried
    have set := Nat.two_pow_add_eq_or_of_lt (Nat.pow_lt_pow_right Nat.one_lt_two (Nat.lt_succ_self (h + n + 1))) c
    have clear : 2 ^ (h + n + 1) ∣ 2 ^ (h + n + 1 + 1) * c := Dvd.dvd.mul_right (pow_dvd_pow 2 (Nat.le_succ _)) c
    change refineLoop _ _ (extra + n + 1 + 1) (2 ^ (h + n + 1)) (2 ^ (h + n + 1 + 1) * c) = _
    rw [refineLoop, last, if_neg other, next, ← tried, ← set]
    -- A bit that fits makes all bits below fit.
    by_cases all : k = n + 1
    · subst all
      have fits : 2 ^ (h + n + 1) ≤ rest := taken.resolve_left (by omega)
      have low : 2 ^ (h + n) ≤ rest := (Nat.pow_le_pow_right (by decide) (by omega)).trans fits
      have one : 2 ^ (h + 1) ≤ 2 ^ (h + n + 1) := Nat.pow_le_pow_right (by decide) (by omega)
      rw [if_neg (by simpa using fits), ih (by omega) (Nat.dvd_add clear (Nat.dvd_refl _)) (Nat.le_refl n) (.inr low) (.inl rfl)]
      change _ = 2 ^ (h + n + 1 + 1) * c + (2 ^ (h + n + 1 + 1) - _)
      omega
    · have under := (passed.resolve_left all).trans_le (Nat.pow_le_pow_right Nat.zero_lt_two (by omega : h + k + 1 ≤ h + n + 1))
      rw [if_pos (by simpa using under), ih (by omega) clear (by omega) taken (.inr (passed.resolve_left all))]
      rfl

theorem exists_taken (less : rest < 2 ^ (h + 10)) : ∃ k ≤ 9, (k = 0 ∨ 2 ^ (h + k) ≤ rest) ∧ rest < 2 ^ (h + k + 1) := by
  by_cases none : rest < 2 ^ (h + 1)
  · exact ⟨0, by decide, .inl rfl, none⟩
  · have positive : rest ≠ 0 := Nat.ne_of_gt ((Nat.two_pow_pos _).trans_le (Nat.le_of_not_lt none))
    have above : h + 1 ≤ Nat.log 2 rest := Nat.le_log_of_pow_le Nat.one_lt_two (Nat.le_of_not_lt none)
    have under : Nat.log 2 rest < h + 10 := Nat.log_lt_of_lt_pow positive less
    refine ⟨Nat.log 2 rest - h, by omega, .inr ?_, ?_⟩
    · rw [Nat.add_sub_of_le (by omega)]
      exact Nat.pow_log_le_self 2 positive
    · rw [Nat.add_sub_of_le (by omega)]
      exact Nat.lt_pow_succ_log_self Nat.one_lt_two rest

end Loops

/-- When `tick` iterations fit into a tick, the count has the highest bit of `tick`, and from the first refined bit
that is taken on all bits are set: it may be that of almost a third more than a tick. -/
theorem timer_calibrate_sets_low_bits {tick : Nat} (low : 2 ^ 10 ≤ tick) (high : tick < 2 ^ 31) :
    ∃ h k loops, k ≤ 9 ∧ 2 ^ (h + 10) ≤ tick ∧ (k = 0 ∨ 2 ^ (h + 10) + 2 ^ (h + k) ≤ tick) ∧
      tick < 2 ^ (h + 10) + 2 ^ (h + k + 1) ∧ timerCalibrate (exceeds tick) = some loops ∧
      loops = 2 ^ (h + 10) + (2 ^ (h + k + 1) - 2 ^ (h + 1)) ∧ tick < loops + 2 ^ (h + 1) ∧ 3 * loops < 4 * tick := by
  obtain ⟨h, ofHigh⟩ : ∃ h, Nat.log 2 tick = h + 10 := Nat.exists_eq_add_of_le' (Nat.le_log_of_pow_le Nat.one_lt_two low)
  have reached := Nat.pow_log_le_self 2 (Nat.ne_of_gt (Nat.lt_of_lt_of_le (by decide) low))
  have beyond := Nat.lt_pow_succ_log_self Nat.one_lt_two tick
  rw [ofHigh] at reached beyond
  have double : 2 ^ (h + 10).succ = 2 ^ (h + 10) * 2 := Nat.pow_succ ..
  obtain ⟨rest, rfl⟩ := Nat.exists_eq_add_of_le reached
  have small : h + 10 < 31 := (Nat.pow_lt_pow_iff_right Nat.one_lt_two).mp (reached.trans_lt high)
  obtain ⟨k, within, taken, passed⟩ := exists_taken (by omega : rest < 2 ^ (h + 10))
  have top : 2 ^ (h + k + 1) ≤ 2 ^ (h + 10) := Nat.pow_le_pow_right (by decide) (by omega)
  have bottom : 2 ^ (h + 1) ≤ 2 ^ (h + k + 1) := Nat.pow_le_pow_right (by decide) (by omega)
  have unit := Nat.two_pow_pos h
  have half : 2 ^ (h + k + 1) = 2 ^ (h + k) * 2 := Nat.pow_succ ..
  refine ⟨h, k, _, within, reached, by omega, by omega, ?_, rfl, by omega, ?_⟩
  · have halved : 2 ^ (h + 10) >>> 1 = 2 ^ (h + 9) := by rw [Nat.shiftRight_one, Nat.pow_succ, Nat.mul_div_cancel _ (by decide)]
    -- The high bit is 2^(h + 10), which the first loop reaches after h rounds.
    obtain ⟨extra, fuel⟩ : ∃ extra, 32 = extra + h + 1 := ⟨31 - h, by omega⟩
    have first := doubleLoop_eq reached beyond small h extra (Nat.add_comm 10 h)
    rw [← fuel] at first
    change (doubleLoop _ 32 (2 ^ 10)).map _ = _
    rw [first, Option.map_some, halved]
    exact congrArg some (refineLoop_eq 9 22 (by decide) (Nat.dvd_refl (2 ^ (h + 10))) within taken (.inr passed))
  · rcases taken with rfl | taken
    · simp only [Nat.add_zero] at *
      omega
    · omega

theorem timer_calibrate_sets_low_bits_middle :
    timerCalibrate (exceeds 1536) = some 2046 ∧ 3 * 2046 < 4 * 1536 := by
  obtain ⟨h, k, loops, -, -, -, -, ran, -, -, bound⟩ := timer_calibrate_sets_low_bits (by decide : 2 ^ 10 ≤ 1536) (by decide)
  have value : timerCalibrate (exceeds 1536) = some 2046 := by decide +kernel
  cases ran.symm.trans value
  exact ⟨value, bound⟩

end Pintos.Devices.Timer
