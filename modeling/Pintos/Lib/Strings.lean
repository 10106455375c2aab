import Mathlib.Data.List.Basic
import Pintos.Semantics.Computation

/-! Blocks of memory and tokens of a string (`memmove`, `strchr` and `strtok_r` in
`lib/string.c`).

An address holds a byte or belongs to no object. Reaching for an address of the
second kind stops the model, so a function that returns has read and written
nothing but objects; the null pointer points to none.
-/

set_option autoImplicit false

namespace Pintos.Lib.Strings
open Semantics Computation

structure Memory where
  bytes : Nat → Option UInt8
  null : bytes 0 = none

inductive Halt where
  | panic
  /-- An address of no object was read or written. -/
  | wild
  | diverge
  deriving DecidableEq, Repr

abbrev Code (A : Type) := Computation Memory Halt A

def assert (condition : Bool) : Code Unit := require .panic fun _ => condition

def load (address : Nat) : Code UInt8 := do
  let memory ← get
  match memory.bytes address with
  | some byte => return byte
  | none => stop .wild

/-- The memory with another byte at an address that holds one. -/
def Memory.set (memory : Memory) (address : Nat) (byte : UInt8) : Memory where
  bytes other := if other = address then (memory.bytes other).map fun _ => byte else memory.bytes other
  null := by simp [memory.null]

def store (address : Nat) (byte : UInt8) : Code Unit := do
  let memory ← get
  if (memory.bytes address).isSome then modify fun memory => memory.set address byte else stop .wild

section Blocks

/-- `while (size-- > 0) *dst++ = *src++`, with the last value of `dst`. -/
def copyForward : Nat → Nat → Nat → Code Nat
  | 0, dst, _ => return dst
  | size + 1, dst, src => do
    let byte ← load src
    store dst byte
    copyForward size (dst + 1) (src + 1)

def copyBackward : Nat → Nat → Nat → Code Nat
  | 0, dst, _ => return dst
  | size + 1, dst, src => do
    let byte ← load (src - 1)
    store (dst - 1) byte
    copyBackward size (dst - 1) (src - 1)

def memmove (dst src size : Nat) : Code Nat := do
  assert (dst != 0 || size == 0)
  assert (src != 0 || size == 0)
  if dst < src then copyForward size dst src
  else copyBackward size (dst + size) (src + size)

end Blocks

section Tokens

def strchrLoop : Nat → Nat → UInt8 → Code Nat
  | 0, _, _ => stop .diverge
  | steps + 1, string, c => do
    let ch ← load string
    if ch = c then return string
    else if ch = 0 then return 0
    else strchrLoop steps (string + 1) c

def strchr (steps string : Nat) (c : UInt8) : Code Nat := do
  assert (string != 0)
  strchrLoop steps string c

variable (steps delimiters : Nat)

/-- The loop over delimiters: whether a token begins, and where it stopped. -/
def skipLoop : Nat → Nat → Code (Bool × Nat)
  | 0, _ => stop .diverge
  | rounds + 1, s => do
    let c ← load s
    let found ← strchr steps delimiters c
    if found ≠ 0 then
      if c = 0 then return (false, s) else skipLoop rounds (s + 1)
    else return (true, s)

def tokenLoop : Nat → Nat → Code Nat
  | 0, _ => stop .diverge
  | rounds + 1, s => do
    let c ← load s
    let found ← strchr steps delimiters c
    if found = 0 then tokenLoop rounds (s + 1) else return s

/-- `strtok_r`: the token, and what is stored in `*save_ptr`. -/
def strtokR (s savePtr : Nat) : Code (Nat × Nat) := do
  assert (delimiters != 0)
  let s := if s = 0 then savePtr else s
  assert (s != 0)
  let (more, token) ← skipLoop steps delimiters steps s
  if more then do
    let last ← tokenLoop steps delimiters steps token
    let c ← load last
    if c ≠ 0 then do
      store last 0
      return (token, last + 1)
    else return (token, last)
  else return (0, token)

def tokenize : Nat → Nat → Nat → Code (List Nat × Nat)
  | 0, _, _ => stop .diverge
  | calls + 1, s, savePtr => do
    let (token, savePtr) ← strtokR steps delimiters s savePtr
    if token = 0 then return ([], savePtr)
    else do
      let (rest, savePtr) ← tokenize calls 0 savePtr
      return (token :: rest, savePtr)

end Tokens

section Access
variable {memory : Memory} {address : Nat} {byte : UInt8}

theorem load_returned (there : memory.bytes address = some byte) : load address memory = .returned byte memory := by
  simp [load, there]

theorem store_returned (there : (memory.bytes address).isSome = true) (byte : UInt8) :
    store address byte memory = .returned () (memory.set address byte) := by
  simp [store, there]

theorem Memory.bytes_set_self (there : (memory.bytes address).isSome = true) (byte : UInt8) :
    (memory.set address byte).bytes address = some byte := by
  obtain ⟨old, holds⟩ := Option.isSome_iff_exists.mp there
  simp [Memory.set, holds]

theorem Memory.bytes_set_of_ne {other : Nat} (apart : other ≠ address) :
    (memory.set address byte).bytes other = memory.bytes other := if_neg apart

theorem Memory.isSome_set (other : Nat) :
    ((memory.set address byte).bytes other).isSome = (memory.bytes other).isSome := by
  by_cases same : other = address
  · simp [Memory.set, same]
  · rw [Memory.bytes_set_of_ne same]

theorem Memory.ne_zero (there : memory.bytes address = some byte) : address ≠ 0 := by
  rintro rfl
  rw [memory.null] at there
  cases there

theorem assert_returned {condition : Bool} (met : condition = true) : assert condition memory = .returned () memory :=
  require_of_true met

end Access

def Memory.Block (memory : Memory) (start size : Nat) : Prop := ∀ i < size, (memory.bytes (start + i)).isSome = true

instance (memory : Memory) (start size : Nat) : Decidable (memory.Block start size) :=
  inferInstanceAs (Decidable (∀ i < size, _))

structure Moved (memory after : Memory) (dst src size : Nat) : Prop where
  copied : ∀ i < size, after.bytes (dst + i) = memory.bytes (src + i)
  rest : ∀ address, address < dst ∨ dst + size ≤ address → after.bytes address = memory.bytes address

section Moving
variable {memory : Memory} {dst src size : Nat}

theorem Memory.Block.ne_zero (block : memory.Block src (size + 1)) : src ≠ 0 := by
  obtain ⟨byte, there⟩ := Option.isSome_iff_exists.mp (block 0 (Nat.succ_pos size))
  exact memory.ne_zero there

/-- Going up, a byte is overwritten only after it has been read. -/
theorem copyForward_spec (target : memory.Block dst size) (source : memory.Block src size) (below : dst < src) :
    ∃ after, copyForward size dst src memory = .returned (dst + size) after ∧ Moved memory after dst src size := by
  induction size generalizing dst src memory with
  | zero => exact ⟨memory, rfl, fun i inside => absurd inside (Nat.not_lt_zero i), fun _ _ => rfl⟩
  | succ size ih =>
    obtain ⟨byte, there⟩ := Option.isSome_iff_exists.mp (source 0 (Nat.succ_pos size))
    have room := target 0 (Nat.succ_pos size)
    rw [Nat.add_zero] at there room
    have shifted {start : Nat} (block : memory.Block start (size + 1)) : (memory.set dst byte).Block (start + 1) size := by
      intro i inside
      rw [Memory.isSome_set, Nat.add_right_comm]
      exact block (i + 1) (Nat.succ_lt_succ inside)
    obtain ⟨after, ran, moved⟩ := ih (shifted target) (shifted source) (Nat.succ_lt_succ below)
    refine ⟨after, ?_, fun i inside => ?_, fun address outside => ?_⟩
    · rw [copyForward, bind_of_returned (load_returned there), bind_of_returned (store_returned room byte), ran,
        Nat.add_right_comm, Nat.add_assoc]
    · cases i with
      | zero =>
        rw [moved.rest (dst + 0) (.inl (Nat.lt_succ_self dst)), Nat.add_zero, Memory.bytes_set_self room, Nat.add_zero, there]
      | succ i =>
        have copied := moved.copied i (Nat.lt_of_succ_lt_succ inside)
        rw [Memory.bytes_set_of_ne (by omega)] at copied
        rw [← Nat.add_assoc, Nat.add_right_comm, copied, Nat.add_right_comm, Nat.add_assoc]
    · rw [moved.rest address (by omega), Memory.bytes_set_of_ne (by omega)]

/-- Going down likewise, from behind the ranges. -/
theorem copyBackward_spec (target : memory.Block dst size) (source : memory.Block src size) (above : src ≤ dst) :
    ∃ after, copyBackward size (dst + size) (src + size) memory = .returned dst after ∧ Moved memory after dst src size := by
  induction size generalizing memory with
  | zero => exact ⟨memory, rfl, fun i inside => absurd inside (Nat.not_lt_zero i), fun _ _ => rfl⟩
  | succ size ih =>
    obtain ⟨byte, there⟩ := Option.isSome_iff_exists.mp (source size (Nat.lt_succ_self size))
    have room := target size (Nat.lt_succ_self size)
    have shorter {start : Nat} (block : memory.Block start (size + 1)) : (memory.set (dst + size) byte).Block start size := by
      intro i inside
      rw [Memory.isSome_set]
      exact block i (Nat.lt_succ_of_lt inside)
    obtain ⟨after, ran, moved⟩ := ih (shorter target) (shorter source)
    refine ⟨after, ?_, fun i inside => ?_, fun address outside => ?_⟩
    · have first : load (src + (size + 1) - 1) memory = .returned byte memory := load_returned there
      have second : store (dst + (size + 1) - 1) byte memory = .returned () (memory.set (dst + size) byte) :=
        store_returned room byte
      rw [copyBackward, bind_of_returned first, bind_of_returned second]
      exact ran
    · rcases Nat.lt_succ_iff_lt_or_eq.mp inside with before | rfl
      · rw [moved.copied i before, Memory.bytes_set_of_ne (by omega)]
      · rw [moved.rest (dst + i) (.inr (Nat.le_refl _)), Memory.bytes_set_self room, there]
    · rw [moved.rest address (by omega), Memory.bytes_set_of_ne (by omega)]

/-- `memmove` moves the block whatever the overlap, but what it returns is the working
pointer, which is the destination again only where the block was copied from its end on. -/
theorem memmove_returns_dst_iff (target : memory.Block dst size) (source : memory.Block src size) :
    ∃ result after, memmove dst src size memory = .returned result after ∧ Moved memory after dst src size ∧
      (result = dst ↔ src ≤ dst ∨ size = 0) := by
  have valid {start : Nat} (block : memory.Block start size) : (start != 0 || size == 0) = true := by
    cases size with
    | zero => simp
    | succ size => simp [block.ne_zero]
  rw [memmove, bind_of_returned (assert_returned (valid target)), bind_of_returned (assert_returned (valid source))]
  by_cases below : dst < src
  · obtain ⟨after, ran, moved⟩ := copyForward_spec target source below
    rw [if_pos below]
    exact ⟨dst + size, after, ran, moved, by omega⟩
  · obtain ⟨after, ran, moved⟩ := copyBackward_spec target source (Nat.not_lt.mp below)
    rw [if_neg below]
    exact ⟨dst, after, ran, moved, by omega⟩

end Moving

def threeBytes : Memory where
  bytes address := if address = 0 then none else [10, 20, 30][address - 1]?
  null := rfl

theorem memmove_returns_dst_iff_down : ∃ result after, memmove 2 1 2 threeBytes = .returned result after ∧
    Moved threeBytes after 2 1 2 ∧ result = 2 := by
  have target : threeBytes.Block 2 2 := by decide
  have source : threeBytes.Block 1 2 := by decide
  obtain ⟨result, after, ran, moved, returns⟩ := memmove_returns_dst_iff target source
  exact ⟨result, after, ran, moved, returns.mpr (.inl (by decide))⟩

/-- Two bytes moved down by one: the pointer behind them is returned. -/
theorem memmove_returns_end : ∃ after, memmove 1 2 2 threeBytes = .returned 3 after := ⟨_, rfl⟩

def Memory.Holds (memory : Memory) : Nat → List UInt8 → Prop
  | address, [] => memory.bytes address = some 0
  | address, c :: rest => c ≠ 0 ∧ memory.bytes address = some c ∧ memory.Holds (address + 1) rest

/-- The tokens of a text that stands at an address: its maximal runs of characters that are
no delimiters, in order, each with the address at which it stands. -/
inductive Runs (delims : List UInt8) : Nat → List UInt8 → List (Nat × List UInt8) → Prop where
  | none {start : Nat} {text : List UInt8} : (∀ c ∈ text, c ∈ delims) → Runs delims start text []
  | run {start : Nat} {front word rest : List UInt8} {tokens : List (Nat × List UInt8)} : (∀ c ∈ front, c ∈ delims) →
      word ≠ [] → (∀ c ∈ word, c ∉ delims) → (∀ c ∈ rest.head?, c ∈ delims) →
      Runs delims (start + front.length + word.length) rest tokens →
      Runs delims start (front ++ (word ++ rest)) ((start + front.length, word) :: tokens)

section Strings
variable {memory after : Memory} {address : Nat} {text : List UInt8}

theorem Memory.Holds.ne_zero (holds : memory.Holds address text) : address ≠ 0 := by
  cases text with
  | nil => exact memory.ne_zero holds
  | cons c rest => exact memory.ne_zero holds.2.1

theorem Memory.Holds.congr (holds : memory.Holds address text)
    (same : ∀ other, address ≤ other → other ≤ address + text.length → after.bytes other = memory.bytes other) :
    after.Holds address text := by
  induction text generalizing address with
  | nil => exact (same address (Nat.le_refl _) (Nat.le_refl _)).trans holds
  | cons c rest ih =>
    obtain ⟨nonzero, here, later⟩ := holds
    rw [List.length_cons] at same
    refine ⟨nonzero, (same address (Nat.le_refl _) (by omega)).trans here, ih later fun other low high => ?_⟩
    exact same other (by omega) (by omega)

theorem Memory.Holds.suffix {front : List UInt8} (holds : memory.Holds address (front ++ text)) :
    memory.Holds (address + front.length) text := by
  induction front generalizing address with
  | nil => exact holds
  | cons c rest ih =>
    have later := ih holds.2.2
    rwa [Nat.add_right_comm] at later

/-- A string cut off by a null byte in the place of one of its characters. -/
theorem Memory.Holds.cut {c : UInt8} {rest : List UInt8} (holds : memory.Holds address (text ++ c :: rest)) :
    (memory.set (address + text.length) 0).Holds address text := by
  induction text generalizing address with
  | nil => exact Memory.bytes_set_self (by rw [List.length_nil, Nat.add_zero, holds.2.1]; rfl) 0
  | cons first text ih =>
    obtain ⟨nonzero, here, later⟩ := holds
    have shorter := ih later
    rw [Nat.add_assoc, Nat.add_comm 1] at shorter
    refine ⟨nonzero, ?_, shorter⟩
    rw [Memory.bytes_set_of_ne (by rw [List.length_cons]; omega)]
    exact here

end Strings

section Searching
variable {memory : Memory} {delimiters steps : Nat} {delims : List UInt8}

theorem strchrLoop_spec (set : memory.Holds delimiters delims) (enough : delims.length < steps) (c : UInt8) :
    ∃ found, strchrLoop steps delimiters c memory = .returned found memory ∧ (found ≠ 0 ↔ c = 0 ∨ c ∈ delims) := by
  induction steps generalizing delimiters delims with
  | zero => cases enough
  | succ steps ih =>
    cases delims with
    | nil =>
      rw [strchrLoop, bind_of_returned (load_returned set)]
      by_cases null : c = 0
      · rw [if_pos null.symm]
        exact ⟨_, rfl, iff_of_true set.ne_zero (.inl null)⟩
      · rw [if_neg (Ne.symm null), if_pos rfl]
        exact ⟨0, rfl, by simp [null]⟩
    | cons first rest =>
      rw [strchrLoop, bind_of_returned (load_returned set.2.1)]
      by_cases same : first = c
      · rw [if_pos same]
        exact ⟨_, rfl, iff_of_true set.ne_zero (.inr (by simp [same]))⟩
      · obtain ⟨found, ran, spec⟩ := ih set.2.2 (Nat.lt_of_succ_lt_succ enough)
        rw [if_neg same, if_neg set.1, List.mem_cons, or_iff_right (Ne.symm same)]
        exact ⟨found, ran, spec⟩

variable {s : Nat} {text : List UInt8} (set : memory.Holds delimiters delims) (enough : delims.length < steps)
include set enough

theorem strchr_spec (c : UInt8) :
    ∃ found, strchr steps delimiters c memory = .returned found memory ∧ (found ≠ 0 ↔ c = 0 ∨ c ∈ delims) := by
  rw [strchr, bind_of_returned (assert_returned (bne_iff_ne.mpr set.ne_zero))]
  exact strchrLoop_spec set enough c

theorem skipLoop_spec {rounds : Nat} (string : memory.Holds s text) (many : text.length < rounds) :
    ∃ front rest, text = front ++ rest ∧ (∀ c ∈ front, c ∈ delims) ∧ (∀ c ∈ rest.head?, c ∉ delims) ∧
      skipLoop steps delimiters rounds s memory = .returned (!rest.isEmpty, s + front.length) memory := by
  induction rounds generalizing s text with
  | zero => cases many
  | succ rounds ih =>
    cases text with
    | nil =>
      obtain ⟨found, ran, spec⟩ := strchr_spec set enough 0
      refine ⟨[], [], rfl, by simp, by simp, ?_⟩
      rw [skipLoop, bind_of_returned (load_returned string), bind_of_returned ran, if_pos (spec.mpr (.inl rfl)), if_pos rfl]
      rfl
    | cons c text =>
      obtain ⟨found, ran, spec⟩ := strchr_spec set enough c
      rw [or_iff_right string.1] at spec
      rw [skipLoop, bind_of_returned (load_returned string.2.1), bind_of_returned ran]
      by_cases delim : c ∈ delims
      · obtain ⟨front, rest, rfl, all, stops, further⟩ := ih string.2.2 (Nat.lt_of_succ_lt_succ many)
        refine ⟨c :: front, rest, rfl, List.forall_mem_cons.mpr ⟨delim, all⟩, stops, ?_⟩
        rw [if_pos (spec.mpr delim), if_neg string.1, further, List.length_cons, Nat.add_right_comm, Nat.add_assoc]
      · refine ⟨[], c :: text, rfl, by simp, by simpa using delim, ?_⟩
        rw [if_neg (mt spec.mp delim)]
        rfl

theorem tokenLoop_spec {rounds : Nat} (string : memory.Holds s text) (many : text.length < rounds) :
    ∃ word rest, text = word ++ rest ∧ (∀ c ∈ word, c ∉ delims) ∧ (∀ c ∈ rest.head?, c ∈ delims) ∧
      tokenLoop steps delimiters rounds s memory = .returned (s + word.length) memory := by
  induction rounds generalizing s text with
  | zero => cases many
  | succ rounds ih =>
    cases text with
    | nil =>
      obtain ⟨found, ran, spec⟩ := strchr_spec set enough 0
      refine ⟨[], [], rfl, by simp, by simp, ?_⟩
      rw [tokenLoop, bind_of_returned (load_returned string), bind_of_returned ran, if_neg (spec.mpr (.inl rfl))]
      rfl
    | cons c text =>
      obtain ⟨found, ran, spec⟩ := strchr_spec set enough c
      rw [or_iff_right string.1] at spec
      rw [tokenLoop, bind_of_returned (load_returned string.2.1), bind_of_returned ran]
      by_cases delim : c ∈ delims
      · refine ⟨[], c :: text, rfl, by simp, by simpa using delim, ?_⟩
        rw [if_neg (spec.mpr delim)]
        rfl
      · obtain ⟨word, rest, rfl, all, stops, further⟩ := ih string.2.2 (Nat.lt_of_succ_lt_succ many)
        refine ⟨c :: word, rest, rfl, List.forall_mem_cons.mpr ⟨delim, all⟩, stops, ?_⟩
        rw [if_pos (not_not.mp (mt spec.mp delim)), further, List.length_cons, Nat.add_right_comm, Nat.add_assoc]

/-- One call from a position on: nothing but delimiters is left, or the first token is cut off. -/
theorem strtokR_spec {savePtr start : Nat} (begins : (if s = 0 then savePtr else s) = start)
    (string : memory.Holds start text) (many : text.length < steps) :
    (strtokR steps delimiters s savePtr memory = .returned (0, start + text.length) memory ∧ ∀ c ∈ text, c ∈ delims) ∨
      ∃ front word rest save after, text = front ++ (word ++ rest) ∧ (∀ c ∈ front, c ∈ delims) ∧ word ≠ [] ∧
        (∀ c ∈ word, c ∉ delims) ∧ (∀ c ∈ rest.head?, c ∈ delims) ∧
        strtokR steps delimiters s savePtr memory = .returned (start + front.length, save) after ∧
        after.Holds (start + front.length) word ∧ after.Holds save rest.tail ∧ save + rest.tail.length = start + text.length ∧
        ∀ other, other < start ∨ start + text.length ≤ other → after.bytes other = memory.bytes other := by
  obtain ⟨front, token, rfl, all, stops, skipped⟩ := skipLoop_spec set enough string many
  have valid : (start != 0) = true := bne_iff_ne.mpr string.ne_zero
  rw [strtokR, bind_of_returned (assert_returned (bne_iff_ne.mpr set.ne_zero))]
  simp only [begins]
  rw [bind_of_returned (assert_returned valid), bind_of_returned skipped]
  rw [List.length_append] at many
  cases token with
  | nil => exact .inl ⟨by simp, by simpa using all⟩
  | cons first more =>
    refine .inr ?_
    have here := string.suffix
    obtain ⟨word, rest, split, plain, ends, passed⟩ := tokenLoop_spec set enough here (Nat.lt_of_add_left_lt many)
    have some : word ≠ [] := by
      rintro rfl
      rw [List.nil_append] at split
      rw [← split] at ends
      exact stops first rfl (ends first rfl)
    have behind : memory.Holds (start + front.length + word.length) rest := by
      rw [split] at here
      exact here.suffix
    simp only [List.isEmpty_cons, Bool.not_false, if_true]
    rw [bind_of_returned passed]
    rw [split] at here ⊢
    cases rest with
    | nil =>
      refine ⟨front, word, [], _, memory, rfl, all, some, plain, ends, ?_, ?_, behind, ?_, fun _ _ => rfl⟩
      · rw [bind_of_returned (load_returned behind), if_neg (not_not.mpr rfl)]
        rfl
      · rwa [List.append_nil] at here
      · simp [Nat.add_assoc]
    | cons c left =>
      obtain ⟨nonzero, there, later⟩ := behind
      refine ⟨front, word, c :: left, _, _, rfl, all, some, plain, ends, ?_, here.cut, later.congr fun other low _ => ?_, ?_,
        fun other outside => ?_⟩
      · rw [bind_of_returned (load_returned there), if_pos nonzero, bind_of_returned (store_returned (by rw [there]; rfl) 0)]
        rfl
      · exact Memory.bytes_set_of_ne (by omega)
      · simp only [List.length_append, List.length_cons, List.tail_cons]
        omega
      · simp only [List.length_append, List.length_cons] at outside
        exact Memory.bytes_set_of_ne (by omega)

end Searching

section Tokenizing
variable {delims : List UInt8}

theorem Runs.delimiter {start : Nat} {c : UInt8} {text : List UInt8} {tokens : List (Nat × List UInt8)} (delim : c ∈ delims)
    (runs : Runs delims (start + 1) text tokens) : Runs delims start (c :: text) tokens := by
  cases runs with
  | none all => exact .none (List.forall_mem_cons.mpr ⟨delim, all⟩)
  | @run _ front word rest tokens all some plain ends later =>
    have place : start + 1 + front.length = start + (c :: front).length := by
      rw [List.length_cons]
      omega
    rw [place] at later ⊢
    exact .run (List.forall_mem_cons.mpr ⟨delim, all⟩) some plain ends later

theorem tokenize_spec {steps delimiters calls s savePtr start : Nat} {memory : Memory} {text : List UInt8}
    (set : memory.Holds delimiters delims) (enough : delims.length < steps)
    (begins : (if s = 0 then savePtr else s) = start) (string : memory.Holds start text) (many : text.length < steps)
    (often : text.length < calls) (apart : delimiters + delims.length < start ∨ start + text.length ≤ delimiters) :
    ∃ tokens save final, tokenize steps delimiters calls s savePtr memory = .returned (tokens.map Prod.fst, save) final ∧
      Runs delims start text tokens ∧ (∀ token ∈ tokens, token.2 ≠ [] ∧ final.Holds token.1 token.2) ∧
      final.Holds save [] ∧ ∀ other, other < start ∨ start + text.length ≤ other → final.bytes other = memory.bytes other := by
  induction calls generalizing s savePtr start memory text with
  | zero => cases often
  | succ calls ih =>
    rw [tokenize]
    rcases strtokR_spec set enough begins string many with ⟨ran, all⟩ |
      ⟨front, word, rest, save, after, rfl, all, some, plain, ends, ran, first, left, position, kept⟩
    · have last : memory.Holds (start + text.length) [] := by
        rw [← List.append_nil text] at string
        exact string.suffix
      refine ⟨[], _, memory, ?_, .none all, by simp, last, fun _ _ => rfl⟩
      rw [bind_of_returned ran]
      rfl
    · have longer : 0 < word.length := List.length_pos_iff.mpr some
      simp only [List.length_append, List.length_tail] at position many often apart kept
      have others : after.Holds delimiters delims := set.congr fun other low high => kept other (by omega)
      obtain ⟨tokens, last, final, further, runs, held, ended, same⟩ :=
        ih others (if_pos rfl) left (by rw [List.length_tail]; omega) (by rw [List.length_tail]; omega)
          (by rw [List.length_tail]; omega)
      rw [List.length_tail] at same
      refine ⟨(start + front.length, word) :: tokens, last, final, ?_, ?_, ?_, ended, fun other out => ?_⟩
      · rw [bind_of_returned ran]
        simp only [if_neg first.ne_zero]
        rw [bind_of_returned further]
        rfl
      · refine .run all some plain ends ?_
        cases rest with
        | nil => rwa [show start + front.length + word.length = save by simp at position; omega]
        | cons c rest =>
          refine .delimiter (ends c rfl) ?_
          rwa [show start + front.length + word.length + 1 = save by simp at position; omega]
      · intro token inside
        rcases List.mem_cons.mp inside with rfl | later
        · exact ⟨some, first.congr fun other low high => same other (by omega)⟩
        · exact held token later
      · simp only [List.length_append] at out
        rw [same other (by omega), kept other (by omega)]

/-- The tokens of a string, in order; then null pointers for good. -/
theorem strtok_returns_runs {memory : Memory} {s delimiters : Nat} {text : List UInt8} (string : memory.Holds s text)
    (set : memory.Holds delimiters delims) (apart : delimiters + delims.length < s ∨ s + text.length < delimiters)
    {steps calls : Nat} (enough : delims.length < steps ∧ text.length < steps) (often : text.length < calls) (savePtr : Nat) :
    ∃ tokens save final, tokenize steps delimiters calls s savePtr memory = .returned (tokens.map Prod.fst, save) final ∧
      Runs delims s text tokens ∧ (∀ token ∈ tokens, token.2 ≠ [] ∧ final.Holds token.1 token.2) ∧
      (∀ other, other < s ∨ s + text.length ≤ other → final.bytes other = memory.bytes other) ∧
      strtokR steps delimiters 0 save final = .returned (0, save) final := by
  obtain ⟨tokens, save, final, ran, runs, held, ended, same⟩ :=
    tokenize_spec set enough.1 (if_neg string.ne_zero : (if s = 0 then savePtr else s) = s) string enough.2 often (by omega)
  refine ⟨tokens, save, final, ran, runs, held, same, ?_⟩
  have others : final.Holds delimiters delims := set.congr fun other low high => same other (by omega)
  have begins : (if 0 = 0 then save else 0) = save := rfl
  rcases strtokR_spec others enough.1 begins ended (Nat.zero_lt_of_lt enough.1) with
    ⟨again, -⟩ | ⟨front, word, rest, _, _, split, -, some, -⟩
  · exact again
  · simp only [List.nil_eq, List.append_eq_nil_iff] at split
    exact absurd split.2.1 some

end Tokenizing

def twoStrings : Memory where
  bytes address := if address = 0 then none else [44, 97, 98, 0, 44, 0][address - 1]?
  null := rfl

theorem strtok_returns_runs_oneToken : ∃ tokens save final,
    tokenize 4 5 4 1 0 twoStrings = .returned (tokens.map Prod.fst, save) final ∧ Runs [44] 1 [44, 97, 98] tokens := by
  have string : twoStrings.Holds 1 [44, 97, 98] := ⟨by decide, rfl, by decide, rfl, by decide, rfl, rfl⟩
  have set : twoStrings.Holds 5 [44] := ⟨by decide, rfl, rfl⟩
  have enough : ([44] : List UInt8).length < 4 ∧ ([44, 97, 98] : List UInt8).length < 4 := by decide
  obtain ⟨tokens, save, final, ran, runs, -⟩ := strtok_returns_runs string set (.inr (by decide)) enough enough.2 0
  exact ⟨tokens, save, final, ran, runs⟩

end Pintos.Lib.Strings
