import Mathlib.Algebra.Order.Group.Nat
import Mathlib.Order.Lattice
import Pintos.Lib.Printf

/-! Integers as text and back (`format_integer` in `lib/stdio.c`, `atoi` in `lib/stdlib.c`).

The digits are stored in a buffer from the lowest on and put out from its end;
storing outside the buffer is a fault of the model. What is put out is the list
of the characters given to `output`. A text ends where its list does, as if a
null byte stood there.
-/

set_option autoImplicit false

namespace Pintos.Lib.Stdio
open Semantics

inductive Fault where
  /-- A character was stored outside the buffer. -/
  | outside
  | unfinished
  deriving DecidableEq, Repr

/-- `struct integer_base`; `x` is 0 but for base 16. -/
structure IntegerBase where
  base : Nat
  digits : List UInt8
  x : UInt8
  group : Nat

def baseD : IntegerBase := ⟨10, [48, 49, 50, 51, 52, 53, 54, 55, 56, 57], 0, 3⟩

def baseO : IntegerBase := ⟨8, [48, 49, 50, 51, 52, 53, 54, 55], 0, 3⟩

def baseX : IntegerBase := ⟨16, [48, 49, 50, 51, 52, 53, 54, 55, 56, 57, 97, 98, 99, 100, 101, 102], 120, 4⟩

def baseCapitalX : IntegerBase := ⟨16, [48, 49, 50, 51, 52, 53, 54, 55, 56, 57, 65, 66, 67, 68, 69, 70], 88, 4⟩

def bases : List IntegerBase := [baseD, baseO, baseX, baseCapitalX]

section Formatting
variable (b : IntegerBase)

def store (buf : List UInt8) (ch : UInt8) : Except Fault (List UInt8) :=
  if buf.length < 64 then .ok (buf ++ [ch]) else .error .outside

def digitLoop (group : Bool) : Nat → Nat → Nat → List UInt8 → Except Fault (List UInt8)
  | 0, _, _, _ => .error .unfinished
  | fuel + 1, value, digitCnt, buf =>
    if 0 < value then do
      let buf ← (if group = true ∧ 0 < digitCnt ∧ digitCnt % b.group = 0 then store buf 44 else .ok buf : Except Fault (List UInt8))
      let buf ← store buf (b.digits.getD (value % b.base) 0)
      digitLoop group fuel (value / b.base) (digitCnt + 1) buf
    else .ok buf

def precisionLoop (precision : Int) : Nat → List UInt8 → Except Fault (List UInt8)
  | 0, _ => .error .unfinished
  | fuel + 1, buf =>
    if buf.length < precision ∧ buf.length < 63 then do
      let buf ← store buf 48
      precisionLoop precision fuel buf
    else .ok buf

def digitBuffer (value : Nat) (c : PrintfConversion) : Except Fault (List UInt8) := do
  let buf ← digitLoop b (c.flags .group) 65 value 0 []
  let buf ← precisionLoop (if c.precision < 0 then 1 else c.precision) 65 buf
  if c.flags .pound = true ∧ b.base = 8 ∧ buf.getLast? ≠ some 48 then store buf 48 else .ok buf

def signOf (isSigned negative : Bool) (c : PrintfConversion) : UInt8 :=
  if isSigned then
    if c.flags .plus then if negative then 45 else 43
    else if c.flags .space then if negative then 45 else 32
    else if negative then 45 else 0
  else 0

def formatInteger (value : UInt64) (isSigned negative : Bool) (c : PrintfConversion) : Except Fault (List UInt8) := do
  let sign := signOf isSigned negative c
  let x := if c.flags .pound = true ∧ value ≠ 0 then b.x else 0
  let buf ← digitBuffer b value.toNat c
  let padCnt := (c.width - buf.length - (if x ≠ 0 then 2 else 0) - (if sign ≠ 0 then 1 else 0)).toNat
  return (if c.flags .minus = false ∧ c.flags .zero = false then List.replicate padCnt 32 else []) ++
    (if sign ≠ 0 then [sign] else []) ++
    (if x ≠ 0 then [48, x] else []) ++
    (if c.flags .zero = true then List.replicate padCnt 48 else []) ++
    buf.reverse ++
    (if c.flags .minus = true then List.replicate padCnt 32 else [])

def formatSigned (value : Int) (c : PrintfConversion) : Except Fault (List UInt8) :=
  formatInteger baseD (UInt64.ofNat value.natAbs) true (value < 0) c

end Formatting

section Parsing

def isSpace (c : UInt8) : Bool := c = 32 ∨ c = 12 ∨ c = 10 ∨ c = 13 ∨ c = 9 ∨ c = 11

def isDigit (c : UInt8) : Bool := 48 ≤ c ∧ c ≤ 57

/-- The digits are taken off a number that is not positive; the numbers are of type `int`. -/
def atoiLoop : List UInt8 → Int → Int
  | [], value => value
  | c :: rest, value =>
    if isDigit c then atoiLoop rest (signed32 (word32 (value * 10 - (c.toNat - 48)))) else value

def atoi (s : List UInt8) : Int :=
  let s := s.dropWhile isSpace
  let negative := s.head? = some 45
  let s := if s.head? = some 43 ∨ negative then s.tail else s
  let value := atoiLoop s 0
  if negative then value else signed32 (word32 (-value))

end Parsing

def weigh (b : IntegerBase) (number : Nat) (ch : UInt8) : Nat :=
  if ch = 44 then number else number * b.base + b.digits.idxOf ch

def positional (b : IntegerBase) (text : List UInt8) : Nat := text.foldl (weigh b) 0

structure Rendering where
  left : Nat
  sign : List UInt8
  lead : List UInt8
  zeros : Nat
  digits : List UInt8
  right : Nat

namespace Rendering
variable (r : Rendering)

def text : List UInt8 :=
  List.replicate r.left 32 ++ r.sign ++ r.lead ++ List.replicate r.zeros 48 ++ r.digits ++ List.replicate r.right 32

def unpadded : Nat := r.sign.length + r.lead.length + r.digits.length

structure Faithful (b : IntegerBase) (value : UInt64) (isSigned negative : Bool) (c : PrintfConversion) : Prop where
  sign : r.sign = if isSigned = false then [] else if negative = true then [45] else if c.flags .plus = true then [43]
    else if c.flags .space = true then [32] else []
  lead : r.lead = if c.flags .pound = true ∧ value ≠ 0 ∧ b.base = 16 then [48, b.x] else []
  chars : ∀ ch ∈ r.digits, ch ∈ b.digits ∨ c.flags .group = true ∧ ch = 44
  value : positional b r.digits = value.toNat
  left : 0 < r.left → c.flags .minus = false ∧ c.flags .zero = false
  zeros : 0 < r.zeros → c.flags .zero = true
  right : 0 < r.right → c.flags .minus = true

end Rendering

structure Usual (b : IntegerBase) : Prop where
  many : 8 ≤ b.base
  digit : ∀ v < b.base, b.digits.getD v 0 ∈ b.digits ∧ b.digits.idxOf (b.digits.getD v 0) = v
  zero : 48 ∈ b.digits ∧ b.digits.idxOf 48 = 0
  comma : 44 ∉ b.digits
  x : b.x ≠ 0 ↔ b.base = 16

theorem usual_of_mem {b : IntegerBase} (known : b ∈ bases) : Usual b := by
  simp only [bases, List.mem_cons, List.not_mem_nil, or_false] at known
  rcases known with rfl | rfl | rfl | rfl <;>
    exact ⟨by decide, by decide, by decide, by decide, by decide⟩

section Buffers
variable {b : IntegerBase}

/-- Characters in the order of the buffer, lowest first. -/
structure Digits (b : IntegerBase) (group : Bool) (value : Nat) (text : List UInt8) : Prop where
  chars : ∀ ch ∈ text, ch ∈ b.digits ∨ group = true ∧ ch = 44
  value : text.foldr (fun ch number => weigh b number ch) 0 = value

theorem store_of_lt {buf : List UInt8} (room : buf.length < 64) (ch : UInt8) : store buf ch = .ok (buf ++ [ch]) := if_pos room

theorem ok_bind_fault {A B : Type} (value : A) (next : A → Except Fault B) : (Except.ok value >>= next) = next value := rfl

theorem weigh_digit (usual : Usual b) {v : Nat} (small : v < b.base) (number : Nat) :
    weigh b number (b.digits.getD v 0) = number * b.base + v := by
  obtain ⟨inside, place⟩ := usual.digit v small
  have noComma : b.digits.getD v 0 ≠ 44 := fun same => usual.comma (same ▸ inside)
  rw [weigh, if_neg noComma, place]

/-- Zeros behind the last digit of the buffer are in front of the number. -/
theorem Digits.zeros (usual : Usual b) {group : Bool} {value : Nat} {text : List UInt8} (digits : Digits b group value text)
    (count : Nat) : Digits b group value (text ++ List.replicate count 48) where
  chars ch inside := by
    rcases List.mem_append.mp inside with old | new
    · exact digits.chars ch old
    · rw [List.eq_of_mem_replicate new]
      exact .inl usual.zero.1
  value := by
    have none : (List.replicate count (48 : UInt8)).foldr (fun ch number => weigh b number ch) 0 = 0 := by
      induction count with
      | zero => rfl
      | succ count ih => rw [List.replicate_succ, List.foldr_cons, ih, weigh, if_neg (by decide), usual.zero.2, Nat.zero_mul]
    rw [List.foldr_append, none, digits.value]

/-- A number of `n` digits takes at most `n` commas. -/
theorem digitLoop_spec (usual : Usual b) (group : Bool) (n fuel value digitCnt : Nat) (buf : List UInt8)
    (small : value < b.base ^ n) (enough : n < fuel) (room : buf.length + 2 * n ≤ 64) :
    ∃ text, digitLoop b group fuel value digitCnt buf = .ok (buf ++ text) ∧ text.length ≤ 2 * n ∧ Digits b group value text := by
  induction n generalizing fuel value digitCnt buf with
  | zero =>
    obtain ⟨fuel, rfl⟩ := Nat.exists_eq_succ_of_ne_zero (Nat.ne_of_gt enough)
    have none : value = 0 := by simpa using small
    refine ⟨[], ?_, Nat.le_refl _, ⟨fun _ inside => absurd inside List.not_mem_nil, none.symm⟩⟩
    rw [digitLoop, if_neg (by omega), List.append_nil]
  | succ n ih =>
    obtain ⟨fuel, rfl⟩ := Nat.exists_eq_succ_of_ne_zero (Nat.ne_of_gt (Nat.zero_lt_of_lt enough))
    rw [digitLoop]
    by_cases positive : 0 < value
    · have many := usual.many
      have rest : value / b.base < b.base ^ n := Nat.div_lt_of_lt_mul (by rwa [Nat.pow_succ'] at small)
      have low : value % b.base < b.base := Nat.mod_lt _ (by omega)
      -- the comma, if there is one
      obtain ⟨comma, separated, short, chars⟩ : ∃ comma : List UInt8,
          (if group = true ∧ 0 < digitCnt ∧ digitCnt % b.group = 0 then store buf 44 else .ok buf) = .ok (buf ++ comma) ∧
            comma.length ≤ 1 ∧ ∀ ch ∈ comma, group = true ∧ ch = 44 := by
        split <;> rename_i due
        · exact ⟨[44], store_of_lt (by omega) 44, Nat.le_refl _, fun ch inside => ⟨due.1, List.mem_singleton.mp inside⟩⟩
        · exact ⟨[], by rw [List.append_nil], Nat.zero_le _, fun _ inside => absurd inside List.not_mem_nil⟩
      have stored : store (buf ++ comma) (b.digits.getD (value % b.base) 0) = _ :=
        store_of_lt (by rw [List.length_append]; omega) _
      obtain ⟨text, ran, length, digits⟩ := ih fuel (value / b.base) (digitCnt + 1)
        (buf ++ comma ++ [b.digits.getD (value % b.base) 0]) rest (Nat.lt_of_succ_lt_succ enough)
        (by simp only [List.length_append, List.length_singleton]; omega)
      refine ⟨comma ++ b.digits.getD (value % b.base) 0 :: text, ?_, ?_, ?_, ?_⟩
      · rw [if_pos positive, separated, ok_bind_fault, stored, ok_bind_fault, ran]
        simp only [List.append_assoc, List.cons_append, List.nil_append]
      · rw [List.length_append, List.length_cons]
        omega
      · intro ch inside
        rcases List.mem_append.mp inside with separator | inside
        · exact .inr (chars ch separator)
        · rcases List.mem_cons.mp inside with rfl | later
          · exact .inl (usual.digit _ low).1
          · exact digits.chars ch later
      · have skip (number : Nat) : comma.foldr (fun ch number => weigh b number ch) number = number := by
          clear separated short stored ran
          induction comma with
          | nil => rfl
          | cons ch others ih =>
            rw [List.foldr_cons, ih fun ch inside => chars ch (List.mem_cons_of_mem _ inside), weigh,
              if_pos (chars ch (List.mem_cons_self ..)).2]
        rw [List.foldr_append, skip, List.foldr_cons, digits.value, weigh_digit usual low]
        exact Nat.div_add_mod' value b.base
    · refine ⟨[], ?_, Nat.zero_le _, ⟨fun _ inside => absurd inside List.not_mem_nil, (Nat.eq_zero_of_not_pos positive).symm⟩⟩
      rw [if_neg positive, List.append_nil]

theorem precisionLoop_spec (precision : Int) (fuel : Nat) (buf : List UInt8) (enough : 63 < fuel + buf.length) (some : 0 < fuel)
    (room : buf.length ≤ 63) :
    ∃ count, precisionLoop precision fuel buf = .ok (buf ++ List.replicate count 48) ∧ buf.length + count ≤ 63 := by
  induction fuel generalizing buf with
  | zero => cases some
  | succ fuel ih =>
    rw [precisionLoop]
    by_cases short : (buf.length : Int) < precision ∧ buf.length < 63
    · have length : (buf ++ [(48 : UInt8)]).length = buf.length + 1 := by simp
      obtain ⟨count, ran, bound⟩ := ih (buf ++ [48]) (by omega) (by omega) (by omega)
      refine ⟨count + 1, ?_, by omega⟩
      rw [if_pos short, store_of_lt (by omega), ok_bind_fault, ran, List.append_assoc, List.replicate_succ]
      rfl
    · exact ⟨0, by rw [if_neg short, List.replicate_zero, List.append_nil], room⟩

theorem digitBuffer_spec (usual : Usual b) {value : Nat} (small : value < 2 ^ 64) (c : PrintfConversion) :
    ∃ buf, digitBuffer b value c = .ok buf ∧ Digits b (c.flags .group) value buf := by
  have few : value < b.base ^ 22 := Nat.lt_of_lt_of_le small
    (Nat.le_trans (by decide : 2 ^ 64 ≤ 8 ^ 22) (Nat.pow_le_pow_left usual.many 22))
  obtain ⟨text, ran, length, digits⟩ := digitLoop_spec usual (c.flags .group) 22 65 value 0 [] few (by decide) (by decide)
  obtain ⟨count, filled, bound⟩ := precisionLoop_spec (if c.precision < 0 then 1 else c.precision) 65 text (by omega) (by decide)
    (by omega)
  have padded := digits.zeros usual count
  rw [digitBuffer, ran, ok_bind_fault, List.nil_append, filled, ok_bind_fault]
  split
  · refine ⟨_, store_of_lt (by rw [List.length_append, List.length_replicate]; omega) 48, ?_⟩
    exact padded.zeros usual 1
  · exact ⟨_, rfl, padded⟩

end Buffers

section Rendered
variable {b : IntegerBase} (value : UInt64) (isSigned negative : Bool) (c : PrintfConversion)

theorem signOf_eq : (if signOf isSigned negative c ≠ 0 then [signOf isSigned negative c] else []) =
    if isSigned = false then [] else if negative = true then [45] else if c.flags .plus = true then [43]
      else if c.flags .space = true then [32] else [] := by
  unfold signOf
  generalize c.flags .plus = plus
  generalize c.flags .space = space
  revert isSigned negative plus space
  decide

theorem lead_eq (usual : Usual b) :
    (if (if c.flags .pound = true ∧ value ≠ 0 then b.x else 0) ≠ 0 then
        [48, if c.flags .pound = true ∧ value ≠ 0 then b.x else 0] else []) =
      if c.flags .pound = true ∧ value ≠ 0 ∧ b.base = 16 then [48, b.x] else [] := by
  by_cases asked : c.flags .pound = true ∧ value ≠ 0
  · have given : (if c.flags .pound = true ∧ value ≠ 0 then b.x else 0) = b.x := if_pos asked
    rw [given]
    by_cases sixteen : b.base = 16
    · rw [if_pos (usual.x.mpr sixteen), if_pos ⟨asked.1, asked.2, sixteen⟩]
    · rw [if_neg (mt usual.x.mp sixteen), if_neg fun all => sixteen all.2.2]
  · rw [if_neg asked, if_neg (by simp), if_neg fun all => asked ⟨all.1, all.2.1⟩]

def render (b : IntegerBase) (buf : List UInt8) : Rendering :=
  let sign := if signOf isSigned negative c ≠ 0 then [signOf isSigned negative c] else []
  let lead := if c.flags .pound = true ∧ value ≠ 0 ∧ b.base = 16 then [48, b.x] else []
  let padCnt := (c.width - (sign.length + lead.length + buf.length : Nat)).toNat
  { left := if c.flags .minus = false ∧ c.flags .zero = false then padCnt else 0
    sign := sign
    lead := lead
    zeros := if c.flags .zero = true then padCnt else 0
    digits := buf.reverse
    right := if c.flags .minus = true then padCnt else 0 }

theorem replicate_ite {condition : Prop} [Decidable condition] (count : Nat) (ch : UInt8) :
    List.replicate (if condition then count else 0) ch = if condition then List.replicate count ch else [] := by
  split <;> rfl

variable {buf : List UInt8}

theorem formatInteger_eq (usual : Usual b) (ran : digitBuffer b value.toNat c = .ok buf) :
    formatInteger b value isSigned negative c = .ok (render value isSigned negative c b buf).text := by
  rw [formatInteger, ran, ok_bind_fault]
  have lead := lead_eq value c usual
  have two : (if (if c.flags .pound = true ∧ value ≠ 0 then b.x else 0) ≠ 0 then (2 : Int) else 0) =
      ((if c.flags .pound = true ∧ value ≠ 0 ∧ b.base = 16 then [48, b.x] else []).length : Nat) := by
    rw [← lead]
    generalize (if c.flags .pound = true ∧ value ≠ 0 then b.x else 0) = x
    split <;> rfl
  have one : (if signOf isSigned negative c ≠ 0 then (1 : Int) else 0) =
      ((if signOf isSigned negative c ≠ 0 then [signOf isSigned negative c] else []).length : Nat) := by
    split <;> rfl
  have pad (width first second third : Int) : width - first - second - third = width - (third + second + first) := by omega
  simp only [Rendering.text, render, replicate_ite, two, one, lead, pad, Int.natCast_add]
  rfl

theorem render_faithful (digits : Digits b (c.flags .group) value.toNat buf) :
    (render value isSigned negative c b buf).Faithful b value isSigned negative c := by
  have positive {condition : Prop} [Decidable condition] {count : Nat} (some : 0 < if condition then count else 0) : condition := by
    by_contra other
    rw [if_neg other] at some
    cases some
  refine ⟨signOf_eq isSigned negative c, rfl, fun ch inside => digits.chars ch (List.mem_reverse.mp inside), ?_, positive,
    positive, positive⟩
  show positional b buf.reverse = value.toNat
  rw [positional, List.foldl_reverse]
  exact digits.value

theorem Rendering.length_text (r : Rendering) : r.text.length = r.unpadded + (r.left + r.zeros + r.right) := by
  simp only [Rendering.text, Rendering.unpadded, List.length_append, List.length_replicate]
  omega

variable {r : Rendering} (is : r = render value isSigned negative c b buf)
include is

theorem render_narrow (narrow : c.width ≤ 0) : r.text = r.sign ++ r.lead ++ r.digits := by
  have none (count : Nat) : (c.width - count).toNat = 0 := by omega
  simp only [is, Rendering.text, render, none, ite_self, List.replicate_zero, List.nil_append, List.append_nil]

/-- The field is filled exactly once unless both paddings are asked for. -/
theorem length_render : (r.text.length : Int) = max c.width r.unpadded ↔
    ¬(c.flags .minus = true ∧ c.flags .zero = true) ∨ c.width ≤ r.unpadded := by
  have pads : r.left + r.zeros + r.right =
      (c.width - r.unpadded).toNat * if c.flags .minus = true ∧ c.flags .zero = true then 2 else 1 := by
    simp only [is, render, Rendering.unpadded, List.length_reverse]
    cases c.flags .minus <;> cases c.flags .zero <;> simp
    omega
  rw [r.length_text, pads]
  generalize r.unpadded = unpadded
  by_cases both : c.flags .minus = true ∧ c.flags .zero = true
  · rw [if_pos both]
    simp only [both, and_self, not_true_eq_false, false_or]
    omega
  · rw [if_neg both]
    simp only [both, not_false_eq_true, true_or, iff_true]
    omega

end Rendered

section RoundTrip

theorem weigh_decimal {ch : UInt8} (digit : ch ∈ baseD.digits) (number : Nat) :
    isDigit ch = true ∧ weigh baseD number ch = number * 10 + (ch.toNat - 48) ∧ 48 ≤ ch.toNat := by
  have place : baseD.digits.all (fun ch =>
      isDigit ch && ch != 44 && baseD.digits.idxOf ch == ch.toNat - 48 && decide (48 ≤ ch.toNat)) = true := by decide
  have here := List.all_eq_true.mp place ch digit
  simp only [Bool.and_eq_true, bne_iff_ne, beq_iff_eq, decide_eq_true_eq] at here
  obtain ⟨⟨⟨is, noComma⟩, index⟩, low⟩ := here
  exact ⟨is, by rw [weigh, if_neg noComma, index]; rfl, low⟩

theorem le_foldl_weigh (text : List UInt8) (digits : ∀ ch ∈ text, ch ∈ baseD.digits) (number : Nat) :
    number ≤ text.foldl (weigh baseD) number := by
  induction text generalizing number with
  | nil => exact Nat.le_refl _
  | cons ch rest ih =>
    have next := ih (fun ch inside => digits ch (List.mem_cons_of_mem _ inside)) (weigh baseD number ch)
    have step := (weigh_decimal (digits ch (List.mem_cons_self ..)) number).2.1
    rw [List.foldl_cons]
    omega

/-- No digit of an `int` takes the loop out of the range of its type. -/
theorem atoiLoop_spec (text : List UInt8) (digits : ∀ ch ∈ text, ch ∈ baseD.digits) (number : Nat)
    (bound : text.foldl (weigh baseD) number ≤ 2 ^ 31) :
    atoiLoop text (-number) = -(text.foldl (weigh baseD) number : Nat) := by
  induction text generalizing number with
  | nil => rfl
  | cons ch rest ih =>
    have others : ∀ ch ∈ rest, ch ∈ baseD.digits := fun ch inside => digits ch (List.mem_cons_of_mem _ inside)
    obtain ⟨is, step, low⟩ := weigh_decimal (digits ch (List.mem_cons_self ..)) number
    rw [List.foldl_cons] at bound ⊢
    have inside := Nat.le_trans (le_foldl_weigh rest others _) bound
    have exact_ : -(number : Int) * 10 - (ch.toNat - 48) = -(weigh baseD number ch : Nat) := by omega
    rw [atoiLoop, if_pos is, exact_, signed32_word32 (by omega) (by omega)]
    exact ih others _ bound

theorem atoi_digits {text : List UInt8} (digits : ∀ ch ∈ text, ch ∈ baseD.digits) (bound : positional baseD text ≤ 2 ^ 31) :
    atoi (45 :: text) = -(positional baseD text : Nat) ∧
      (positional baseD text < 2 ^ 31 → atoi text = positional baseD text) := by
  have loop := atoiLoop_spec text digits 0 bound
  rw [Int.natCast_zero, Int.neg_zero] at loop
  refine ⟨loop, fun small => ?_⟩
  -- a digit is neither white space nor a sign
  have plain : baseD.digits.all (fun ch => !isSpace ch && ch != 43 && ch != 45) = true := by decide
  have start : text.dropWhile isSpace = text ∧ text.head? ≠ some 43 ∧ text.head? ≠ some 45 := by
    cases text with
    | nil => simp
    | cons ch rest =>
      have here := List.all_eq_true.mp plain ch (digits ch (List.mem_cons_self ..))
      simp only [Bool.and_eq_true, Bool.not_eq_true', bne_iff_ne] at here
      obtain ⟨⟨noSpace, noPlus⟩, noMinus⟩ := here
      simp [noSpace, noPlus, noMinus]
  obtain ⟨skipped, noPlus, noMinus⟩ := start
  simp only [atoi, skipped, noPlus, noMinus, or_self, if_false, loop, Int.neg_neg]
  exact signed32_word32 (by simp only [positional] at small ⊢; omega) (by simp only [positional] at small ⊢; omega)

def plainConversion : PrintfConversion := ⟨fun _ => false, 0, -1, .int⟩

theorem parseConversion_d {A : Type} (vaArg : A → Int × A) (args : A) :
    parseConversion vaArg [37, 100] 1 args = .ok (1, plainConversion, args) := rfl

theorem atoi_formatSigned {n : Int} (low : -2 ^ 31 ≤ n) (high : n < 2 ^ 31) :
    ∃ text, formatSigned n plainConversion = .ok text ∧ atoi text = n := by
  have usual : Usual baseD := usual_of_mem (List.mem_cons_self ..)
  obtain ⟨buf, ran, spec⟩ := digitBuffer_spec usual (UInt64.ofNat n.natAbs).toNat_lt plainConversion
  have faithful := render_faithful (UInt64.ofNat n.natAbs) true (decide (n < 0)) plainConversion spec
  refine ⟨_, formatInteger_eq _ _ _ _ usual ran, ?_⟩
  have digits : ∀ ch ∈ buf.reverse, ch ∈ baseD.digits := by
    intro ch inside
    rcases faithful.chars ch inside with digit | ⟨grouped, -⟩
    · exact digit
    · cases grouped
  have value : positional baseD buf.reverse = n.natAbs := by
    rw [show positional baseD buf.reverse = _ from faithful.value, UInt64.toNat_ofNat', Nat.mod_eq_of_lt (by omega)]
  obtain ⟨minus, plus⟩ := atoi_digits digits (by omega)
  rw [render_narrow _ _ _ _ rfl (Int.le_refl 0), faithful.sign, faithful.lead]
  by_cases negative : n < 0
  · rw [decide_eq_true negative]
    refine minus.trans ?_
    rw [value]
    omega
  · rw [decide_eq_false negative]
    refine (plus (by omega)).trans ?_
    rw [value]
    omega

end RoundTrip

/-- What is put out consists of its parts, and the buffer is large enough. It has the length that is asked
for unless zeros and blanks on the right are both used as padding. A number that is read back is the number. -/
theorem integer_formatting_iff {b : IntegerBase} (known : b ∈ bases) (value : UInt64) (isSigned negative : Bool)
    (c : PrintfConversion) :
    (∃ r : Rendering, formatInteger b value isSigned negative c = .ok r.text ∧
      formatInteger b value isSigned negative { c with width := 0 } = .ok (r.sign ++ r.lead ++ r.digits) ∧
      r.Faithful b value isSigned negative c ∧
      ((r.text.length : Int) = max c.width r.unpadded ↔
        ¬(c.flags .minus = true ∧ c.flags .zero = true) ∨ c.width ≤ r.unpadded)) ∧
    ∀ n : Int, -2 ^ 31 ≤ n → n < 2 ^ 31 → ∃ conversion text,
      parseConversion (fun args : List Int => (args.headD 0, args.tail)) [37, 100] 1 [n] = .ok (1, conversion, [n]) ∧
      formatSigned n conversion = .ok text ∧ atoi text = n := by
  have usual := usual_of_mem known
  obtain ⟨buf, ran, digits⟩ := digitBuffer_spec usual value.toNat_lt c
  have bare := formatInteger_eq value isSigned negative { c with width := 0 } usual ran
  rw [render_narrow _ _ _ _ rfl (Int.le_refl 0)] at bare
  refine ⟨⟨_, formatInteger_eq value isSigned negative c usual ran, bare, render_faithful value isSigned negative c digits,
    length_render value isSigned negative c rfl⟩, fun n least most => ?_⟩
  obtain ⟨text, formatted, back⟩ := atoi_formatSigned least most
  exact ⟨_, text, parseConversion_d _ _, formatted, back⟩

theorem integer_formatting_iff_grouped : ∃ r : Rendering,
    formatInteger baseX 0xABCDEF true false ⟨fun flag => flag = .pound || flag = .group, 12, -1, .int⟩ = .ok r.text ∧
      r.text.length = 12 ∧ positional baseX r.digits = 0xABCDEF := by
  obtain ⟨⟨r, ran, -, faithful, length⟩, -⟩ := integer_formatting_iff (b := baseX) (by simp [bases]) 0xABCDEF true false
    ⟨fun flag => flag = .pound || flag = .group, 12, -1, .int⟩
  have text : formatInteger baseX 0xABCDEF true false ⟨fun flag => flag = .pound || flag = .group, 12, -1, .int⟩ =
      .ok [32, 32, 32, 48, 120, 97, 98, 44, 99, 100, 101, 102] := by decide
  refine ⟨r, ran, ?_, faithful.value⟩
  rw [Except.ok.inj (ran.symm.trans text)]
  rfl

/-- `printf ("%0*d", -5, 42)` puts out three zeros in front and three blanks behind: eight
characters in a field of five. -/
theorem both_paddings : ∃ c text, parseConversion (fun args : List Int => (args.headD 0, args.tail)) [37, 48, 42, 100] 1
      [-5, 42] = .ok (3, c, [42]) ∧ c.width = 5 ∧ formatSigned 42 { c with width := 0 } = .ok [52, 50] ∧
    formatSigned 42 c = .ok text ∧ text = [48, 48, 48, 52, 50, 32, 32, 32] ∧ (text.length : Int) ≠ max c.width 2 :=
  ⟨_, _, rfl, rfl, rfl, rfl, rfl, by decide⟩

end Pintos.Lib.Stdio
