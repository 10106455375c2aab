import Mathlib.Data.List.Basic
import Mathlib.Logic.Function.Basic
import Pintos.Semantics.Words

/-! How `__vprintf` walks over its format (`lib/stdio.c`).

A position counts the characters before it; the one behind the last character
holds the null byte, and nothing behind that can be read. What a conversion does
with its arguments is left open: it has no influence on the walk.
-/

set_option autoImplicit false

namespace Pintos.Lib.Stdio
open Semantics

abbrev FormatString := { format : List UInt8 // 0 ∉ format }

inductive Failure where
  /-- A character behind the null byte was read. -/
  | overread
  | unfinished
  deriving DecidableEq, Repr

inductive Flag where
  | minus | plus | space | pound | zero | group
  deriving DecidableEq, Repr

inductive ArgType where
  | char | short | int | intmax | long | longlong | ptrdifft | sizet
  deriving DecidableEq, Repr

structure PrintfConversion where
  flags : Flag → Bool
  width : Int
  precision : Int
  type : ArgType

def charAt (format : List UInt8) (pos : Nat) : Except Failure UInt8 :=
  ((format ++ [0])[pos]?).elim (.error .overread) .ok

/-- A loop that goes on over the characters `step` takes. -/
def walk {σ : Type} (format : List UInt8) (step : UInt8 → Option (σ → σ)) : Nat → Nat → σ → Except Failure (Nat × σ)
  | 0, _, _ => .error .unfinished
  | fuel + 1, pos, state => do
    match step (← charAt format pos) with
    | some change => walk format step fuel (pos + 1) (change state)
    | none => return (pos, state)

def flagOf (c : UInt8) : Option Flag :=
  if c = 45 then some .minus
  else if c = 43 then some .plus
  else if c = 32 then some .space
  else if c = 35 then some .pound
  else if c = 48 then some .zero
  else if c = 39 then some .group
  else none

def setFlag (c : UInt8) : Option ((Flag → Bool) → Flag → Bool) :=
  (flagOf c).map fun flag flags => Function.update flags flag true

def addDigit (c : UInt8) : Option (Int → Int) :=
  if 48 ≤ c ∧ c ≤ 57 then some fun number => signed32 (word32 (number * 10 + c.toNat - 48)) else none

section Walk
variable {A S : Type} (vaArg : A → Int × A)

def parseNumber (format : List UInt8) (pos : Nat) (args : A) : Except Failure (Nat × Int × A) := do
  if (← charAt format pos) = 42 then
    let (number, args) := vaArg args
    return (pos + 1, number, args)
  else
    let (pos, number) ← walk format addDigit (format.length + 1) pos 0
    return (pos, number, args)

def parsePrecision (format : List UInt8) (pos : Nat) (args : A) : Except Failure (Nat × Int × A) := do
  if (← charAt format pos) = 46 then
    let (pos, precision, args) ← parseNumber vaArg format (pos + 1) args
    return (pos, if precision < 0 then -1 else precision, args)
  else return (pos, -1, args)

def parseTwice (format : List UInt8) (pos : Nat) (letter : UInt8) (twice once : ArgType) : Except Failure (Nat × ArgType) := do
  if (← charAt format (pos + 1)) = letter then return (pos + 2, twice) else return (pos + 1, once)

def parseType (format : List UInt8) (pos : Nat) : Except Failure (Nat × ArgType) := do
  let c ← charAt format pos
  if c = 104 then parseTwice format pos 104 .char .short
  else if c = 106 then return (pos + 1, .intmax)
  else if c = 108 then parseTwice format pos 108 .longlong .long
  else if c = 116 then return (pos + 1, .ptrdifft)
  else if c = 122 then return (pos + 1, .sizet)
  else return (pos, .int)

def parseConversion (format : List UInt8) (pos : Nat) (args : A) : Except Failure (Nat × PrintfConversion × A) := do
  let (pos, flags) ← walk format setFlag (format.length + 1) pos fun _ => false
  let flags := if flags .minus then Function.update flags .zero false else flags
  let flags := if flags .plus then Function.update flags .space false else flags
  let (pos, width, args) ← parseNumber vaArg format pos args
  let flags := if width < 0 then Function.update flags .minus true else flags
  let width := if width < 0 then signed32 (word32 (-width)) else width
  let (pos, precision, args) ← parsePrecision vaArg format pos args
  let flags := if 0 ≤ precision then Function.update flags .zero false else flags
  let (pos, type) ← parseType format pos
  return (pos, ⟨flags, width, precision, type⟩, args)

/-- The loop of `__vprintf`; `convert` is its second `switch`. -/
def vprintfLoop (output : UInt8 → S → S) (convert : PrintfConversion → UInt8 → A × S → A × S) (format : List UInt8) :
    Nat → Nat → A × S → Except Failure S
  | 0, _, _ => .error .unfinished
  | fuel + 1, pos, (args, state) => do
    let c ← charAt format pos
    if c = 0 then return state
    else if c ≠ 37 then vprintfLoop output convert format fuel (pos + 1) (args, output c state)
    else if (← charAt format (pos + 1)) = 37 then vprintfLoop output convert format fuel (pos + 2) (args, output 37 state)
    else
      let (pos, conversion, args) ← parseConversion vaArg format (pos + 1) args
      let letter ← charAt format pos
      vprintfLoop output convert format fuel (pos + 1) (convert conversion letter (args, state))

def vprintf (output : UInt8 → S → S) (convert : PrintfConversion → UInt8 → A × S → A × S) (format : List UInt8)
    (args : A) (state : S) : Except Failure S :=
  vprintfLoop vaArg output convert format (format.length + 2) 0 (args, state)

end Walk

section Options

def afterNumber (text : List UInt8) : List UInt8 :=
  if text.head? = some 42 then text.tail else text.dropWhile fun c => (addDigit c).isSome

def afterPrecision (text : List UInt8) : List UInt8 :=
  if text.head? = some 46 then afterNumber text.tail else text

def afterType (text : List UInt8) : List UInt8 :=
  if text.head? = some 104 ∨ text.head? = some 108 then
    if text.tail.head? = text.head? then text.tail.tail else text.tail
  else if text.head? = some 106 ∨ text.head? = some 116 ∨ text.head? = some 122 then text.tail
  else text

def afterOptions (text : List UInt8) : List UInt8 :=
  afterType (afterPrecision (afterNumber (text.dropWhile fun c => (setFlag c).isSome)))

inductive Truncated : List UInt8 → Prop where
  | cut {text : List UInt8} : text.head? ≠ some 37 → afterOptions text = [] → Truncated (37 :: text)
  | literal {c : UInt8} {text : List UInt8} : c ≠ 37 → Truncated text → Truncated (c :: text)
  | percent {text : List UInt8} : Truncated text → Truncated (37 :: 37 :: text)
  | conversion {text rest : List UInt8} {letter : UInt8} : text.head? ≠ some 37 → afterOptions text = letter :: rest →
      Truncated rest → Truncated (37 :: text)

theorem length_afterNumber (text : List UInt8) : (afterNumber text).length ≤ text.length := by
  unfold afterNumber
  split
  · simp
  · exact (List.dropWhile_suffix _).length_le

theorem length_afterOptions (text : List UInt8) : (afterOptions text).length ≤ text.length := by
  have type (text : List UInt8) : (afterType text).length ≤ text.length := by
    unfold afterType
    split_ifs <;> simp <;> omega
  have precision (text : List UInt8) : (afterPrecision text).length ≤ text.length := by
    unfold afterPrecision
    split
    · exact Nat.le_trans (length_afterNumber _) (by simp)
    · exact Nat.le_refl _
  calc (afterOptions text).length
      ≤ (afterPrecision _).length := type _
    _ ≤ (afterNumber _).length := precision _
    _ ≤ (text.dropWhile _).length := length_afterNumber _
    _ ≤ text.length := (List.dropWhile_suffix _).length_le

end Options

def At (format : List UInt8) (pos : Nat) (text : List UInt8) : Prop := pos ≤ format.length ∧ format.drop pos = text

section Positions
variable {format text : List UInt8} {pos : Nat}

theorem At.char (here : At format pos text) : charAt format pos = .ok (text.headD 0) := by
  obtain ⟨inside, rfl⟩ := here
  rw [charAt]
  by_cases last : pos = format.length
  · subst last
    simp
  · have before : pos < format.length := by omega
    rw [List.getElem?_append_left before, List.getElem?_eq_getElem before, List.drop_eq_getElem_cons before]
    rfl

theorem At.next {c : UInt8} (here : At format pos (c :: text)) : At format (pos + 1) text := by
  obtain ⟨inside, rest⟩ := here
  have length := congrArg List.length rest
  rw [List.length_drop, List.length_cons] at length
  refine ⟨by omega, ?_⟩
  rw [← List.drop_drop, rest]
  rfl

theorem At.length (here : At format pos text) : text.length ≤ format.length := by
  rw [← here.2, List.length_drop]
  omega

theorem At.walk {σ : Type} (step : UInt8 → Option (σ → σ)) (stops : step 0 = none) (fuel : Nat) (state : σ)
    (here : At format pos text) (enough : text.length < fuel) :
    ∃ after final, walk format step fuel pos state = .ok (after, final) ∧
      At format after (text.dropWhile fun c => (step c).isSome) := by
  induction fuel generalizing pos text state with
  | zero => cases enough
  | succ fuel ih =>
    rw [Stdio.walk, here.char]
    cases text with
    | nil => exact ⟨pos, state, by simp [bind, Except.bind, stops, pure, Except.pure], here⟩
    | cons c text =>
      cases taken : step c with
      | none => exact ⟨pos, state, by simp [bind, Except.bind, taken, pure, Except.pure], by simpa [taken] using here⟩
      | some change =>
        obtain ⟨after, final, ran, there⟩ := ih (change state) here.next (Nat.lt_of_succ_lt_succ enough)
        exact ⟨after, final, by simpa [bind, Except.bind, taken] using ran, by simpa [taken] using there⟩

theorem headD_eq_iff (text : List UInt8) {c : UInt8} (nonzero : c ≠ 0) : text.headD 0 = c ↔ text.head? = some c := by
  cases text with
  | nil => simp [Ne.symm nonzero]
  | cons first rest => simp

theorem At.tail {c : UInt8} (here : At format pos text) (first : text.head? = some c) : At format (pos + 1) text.tail := by
  obtain ⟨rest, rfl⟩ := List.head?_eq_some_iff.mp first
  exact here.next

theorem ok_bind {A B : Type} (value : A) (next : A → Except Failure B) : (Except.ok value >>= next) = next value := rfl

variable {A : Type} (vaArg : A → Int × A)

theorem At.parseNumber (here : At format pos text) (args : A) :
    ∃ after number rest, parseNumber vaArg format pos args = .ok (after, number, rest) ∧ At format after (afterNumber text) := by
  rw [Stdio.parseNumber, here.char, ok_bind, afterNumber]
  simp only [headD_eq_iff text (by decide : (42 : UInt8) ≠ 0)]
  by_cases star : text.head? = some 42
  · rw [if_pos star, if_pos star]
    exact ⟨_, _, _, rfl, here.tail star⟩
  · rw [if_neg star, if_neg star]
    obtain ⟨after, number, ran, there⟩ := here.walk addDigit rfl _ 0 (Nat.lt_succ_of_le here.length)
    rw [ran]
    exact ⟨_, _, _, rfl, there⟩

theorem At.parsePrecision (here : At format pos text) (args : A) :
    ∃ after number rest, parsePrecision vaArg format pos args = .ok (after, number, rest) ∧
      At format after (afterPrecision text) := by
  rw [Stdio.parsePrecision, here.char, ok_bind, afterPrecision]
  simp only [headD_eq_iff text (by decide : (46 : UInt8) ≠ 0)]
  by_cases dot : text.head? = some 46
  · obtain ⟨after, number, rest, ran, there⟩ := (here.tail dot).parseNumber vaArg args
    rw [if_pos dot, if_pos dot, ran]
    exact ⟨_, _, _, rfl, there⟩
  · rw [if_neg dot, if_neg dot]
    exact ⟨_, _, _, rfl, here⟩

theorem At.parseTwice {letter : UInt8} (nonzero : letter ≠ 0) (here : At format pos text) (first : text.head? = some letter)
    (twice once : ArgType) : ∃ after type, parseTwice format pos letter twice once = .ok (after, type) ∧
      At format after (if text.tail.head? = text.head? then text.tail.tail else text.tail) := by
  have next := here.tail first
  rw [Stdio.parseTwice, next.char, ok_bind, first]
  simp only [headD_eq_iff text.tail nonzero]
  by_cases again : text.tail.head? = some letter
  · rw [if_pos again, if_pos again]
    exact ⟨_, _, rfl, next.tail again⟩
  · rw [if_neg again, if_neg again]
    exact ⟨_, _, rfl, next⟩

theorem At.parseType (here : At format pos text) :
    ∃ after type, parseType format pos = .ok (after, type) ∧ At format after (afterType text) := by
  rw [Stdio.parseType, here.char, ok_bind, afterType]
  simp only [headD_eq_iff text (by decide : (104 : UInt8) ≠ 0), headD_eq_iff text (by decide : (106 : UInt8) ≠ 0),
    headD_eq_iff text (by decide : (108 : UInt8) ≠ 0), headD_eq_iff text (by decide : (116 : UInt8) ≠ 0),
    headD_eq_iff text (by decide : (122 : UInt8) ≠ 0)]
  by_cases h : text.head? = some 104
  · rw [if_pos h, if_pos (.inl h)]
    exact here.parseTwice (by decide) h _ _
  by_cases l : text.head? = some 108
  · rw [if_neg h, if_neg (by simp [l]), if_pos l, if_pos (.inr l)]
    exact here.parseTwice (by decide) l _ _
  rw [if_neg h, if_neg l, if_neg (not_or.mpr ⟨h, l⟩)]
  by_cases j : text.head? = some 106
  · rw [if_pos j, if_pos (.inl j)]
    exact ⟨_, _, rfl, here.tail j⟩
  by_cases t : text.head? = some 116
  · rw [if_neg j, if_pos t, if_pos (.inr (.inl t))]
    exact ⟨_, _, rfl, here.tail t⟩
  by_cases z : text.head? = some 122
  · rw [if_neg j, if_neg t, if_pos z, if_pos (.inr (.inr z))]
    exact ⟨_, _, rfl, here.tail z⟩
  rw [if_neg j, if_neg t, if_neg z, if_neg (not_or.mpr ⟨j, not_or.mpr ⟨t, z⟩⟩)]
  exact ⟨_, _, rfl, here⟩

theorem At.parseConversion (here : At format pos text) (args : A) :
    ∃ after conversion rest, parseConversion vaArg format pos args = .ok (after, conversion, rest) ∧
      At format after (afterOptions text) := by
  obtain ⟨_, flags, ran, here⟩ := here.walk setFlag rfl _ (fun _ => false) (Nat.lt_succ_of_le here.length)
  rw [Stdio.parseConversion, ran]
  obtain ⟨_, width, args, ran, here⟩ := here.parseNumber vaArg args
  simp only [ok_bind, ran]
  obtain ⟨_, precision, args, ran, here⟩ := here.parsePrecision vaArg args
  simp only [ok_bind, ran]
  obtain ⟨after, type, ran, here⟩ := here.parseType
  simp only [ok_bind, ran]
  exact ⟨after, _, args, rfl, here⟩

end Positions

section Runs
variable {A S : Type} (vaArg : A → Int × A) (output : UInt8 → S → S) (convert : PrintfConversion → UInt8 → A × S → A × S)

/-- From a position in the format the loop ends, unless what is left is truncated: then it reads behind the null byte. -/
theorem vprintfLoop_spec {format : List UInt8} (string : 0 ∉ format) (fuel : Nat) {pos : Nat} {text : List UInt8}
    (here : At format pos text) (enough : text.length + 1 < fuel) (state : A × S) :
    Truncated text ∧ vprintfLoop vaArg output convert format fuel pos state = .error .overread ∨
      ¬Truncated text ∧ ∃ result, vprintfLoop vaArg output convert format fuel pos state = .ok result := by
  induction fuel generalizing pos text state with
  | zero => cases enough
  | succ fuel ih =>
    obtain ⟨args, state⟩ := state
    rw [vprintfLoop, here.char, ok_bind]
    cases text with
    | nil => exact .inr ⟨(fun truncated => by cases truncated), state, rfl⟩
    | cons c text =>
      have nonzero : c ≠ 0 := by
        rintro rfl
        exact string (List.mem_of_mem_drop (here.2 ▸ List.mem_cons_self ..))
      rw [List.headD_cons, if_neg nonzero]
      rw [List.length_cons] at enough
      by_cases percent : c = 37
      · subst percent
        rw [if_neg (not_not.mpr rfl), here.next.char, ok_bind]
        by_cases twice : text.head? = some 37
        · obtain ⟨text, rfl⟩ := List.head?_eq_some_iff.mp twice
          rw [List.headD_cons, if_pos rfl]
          rw [List.length_cons] at enough
          have same : Truncated (37 :: 37 :: text) ↔ Truncated text := by
            refine ⟨fun truncated => ?_, .percent⟩
            cases truncated with
            | cut other => exact absurd rfl other
            | literal other => exact absurd rfl other
            | percent rest => exact rest
            | conversion other => exact absurd rfl other
          rw [same]
          exact ih here.next.next (by omega) _
        · obtain ⟨after, conversion, rest, ran, there⟩ := here.next.parseConversion vaArg args
          rw [if_neg (mt (headD_eq_iff text (by decide)).mp twice), ran, ok_bind]
          simp only [there.char, ok_bind]
          have shorter := length_afterOptions text
          cases left : afterOptions text with
          | nil =>
            -- the walk stands on the null byte and steps over it
            refine .inl ⟨.cut twice left, ?_⟩
            obtain ⟨fuel, rfl⟩ : ∃ more, fuel = more + 1 := ⟨fuel - 1, by omega⟩
            rw [left] at there
            have behind : after = format.length := by
              have short := congrArg List.length there.2
              have inside := there.1
              rw [List.length_drop, List.length_nil] at short
              omega
            rw [vprintfLoop, charAt, behind, List.getElem?_eq_none (by simp)]
            rfl
          | cons letter others =>
            rw [left] at there shorter
            have same : Truncated (37 :: text) ↔ Truncated others := by
              refine ⟨fun truncated => ?_, .conversion twice left⟩
              cases truncated with
              | cut _ none => cases left.symm.trans none
              | literal other => exact absurd rfl other
              | percent => exact absurd rfl twice
              | conversion _ next rest =>
                cases left.symm.trans next
                exact rest
            rw [same]
            rw [List.length_cons] at shorter
            exact ih there.next (by omega) _
      · rw [if_pos percent]
        have same : Truncated (c :: text) ↔ Truncated text := by
          refine ⟨fun truncated => ?_, .literal percent⟩
          cases truncated with
          | cut => exact absurd rfl percent
          | literal _ rest => exact rest
          | percent => exact absurd rfl percent
          | conversion => exact absurd rfl percent
        rw [same]
        exact ih here.next (by omega) _

/-- `__vprintf` returns unless the format ends inside a conversion specification; then,
and only then, it reads behind the null byte. -/
theorem vprintf_returns_iff (format : FormatString) (args : A) (state : S) :
    ((∃ result, vprintf vaArg output convert format.val args state = .ok result) ↔ ¬Truncated format.val) ∧
      (vprintf vaArg output convert format.val args state = .error .overread ↔ Truncated format.val) := by
  have start : At format.val 0 format.val := ⟨Nat.zero_le _, rfl⟩
  rcases vprintfLoop_spec vaArg output convert format.property (format.val.length + 2) start (by omega) (args, state) with
    ⟨truncated, ran⟩ | ⟨whole, result, ran⟩
  · refine ⟨⟨fun ⟨result, returned⟩ => ?_, fun whole => absurd truncated whole⟩, fun _ => truncated, fun _ => ran⟩
    cases ran.symm.trans returned
  · refine ⟨⟨fun _ => whole, fun _ => ⟨result, ran⟩⟩, fun failed => ?_, fun truncated => absurd truncated whole⟩
    cases ran.symm.trans failed

end Runs

/-- `printf ("%")` reads behind its format, whatever stands there. -/
theorem lone_percent_overread :
    vprintf (fun args : List Int => (args.headD 0, args.tail)) (fun c (text : List UInt8) => text ++ [c])
      (fun _ _ state => state) [37] [] [] = .error .overread := rfl

end Pintos.Lib.Stdio
