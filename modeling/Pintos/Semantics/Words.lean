import Mathlib.Algebra.Group.Int.Defs
import Mathlib.Algebra.Group.Nat.Defs
import Mathlib.Data.Nat.Notation

/-! Numbers as bytes, lowest byte first. -/

set_option autoImplicit false

namespace Semantics

def toBytes : Nat → Nat → List UInt8
  | 0, _ => []
  | count + 1, value => UInt8.ofNat value :: toBytes count (value / 256)

def ofBytes : List UInt8 → Nat
  | [] => 0
  | byte :: rest => byte.toNat + 256 * ofBytes rest

@[simp] theorem length_toBytes (count value : Nat) : (toBytes count value).length = count := by
  induction count generalizing value with
  | zero => rfl
  | succ count ih => simp [toBytes, ih]

theorem ofBytes_toBytes (count value : Nat) : ofBytes (toBytes count value) = value % 256 ^ count := by
  induction count generalizing value with
  | zero => simp [toBytes, ofBytes, Nat.mod_one]
  | succ count ih =>
    have byte : (UInt8.ofNat value).toNat = value % 256 := UInt8.toNat_ofNat'
    rw [toBytes, ofBytes, ih, byte, Nat.pow_succ', Nat.mod_mul]

theorem ofBytes_lt (bytes : List UInt8) : ofBytes bytes < 256 ^ bytes.length := by
  induction bytes with
  | nil => simp [ofBytes]
  | cons byte rest ih =>
    have low := byte.toNat_lt
    rw [ofBytes, List.length_cons, Nat.pow_succ']
    omega

/-- The two's complement reading of a 32-bit word, and the word of a number. -/
def signed32 (word : Nat) : Int := if word < 2 ^ 31 then word else word - 2 ^ 32

def word32 (value : Int) : Nat := (value % 2 ^ 32).toNat

theorem signed32_word32 {value : Int} (low : -2 ^ 31 ≤ value) (high : value < 2 ^ 31) : signed32 (word32 value) = value := by
  unfold signed32 word32
  split <;> omega

end Semantics
