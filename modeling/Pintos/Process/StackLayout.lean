import Pintos.Process.Arguments

/-! The stack that `setup_stack` builds.

From the copy of the line down to `my_esp` every byte is stored, so the stack
reaches as far below `PHYS_BASE` as `my_esp`. The words pushed are read back one
by one; the string behind each address is what the loop over the line has left
there.
-/

set_option autoImplicit false

namespace Pintos.Process.Arguments
open Semantics

namespace Stack
variable {stack : Stack}

/-! ### Which bytes are stored -/

def Stored (stack : Stack) (addr : Nat) : Prop := ∃ byte, (addr, byte) ∈ stack.stored

/-- The bytes stored are those from `my_esp` to `PHYS_BASE`. -/
def Filled (stack : Stack) : Prop := ∀ addr, stack.Stored addr ↔ stack.myEsp ≤ addr ∧ addr < physBase

theorem stored_store (addr other : Nat) (byte : UInt8) :
    (stack.store addr byte).Stored other ↔ other = addr ∨ stack.Stored other := by
  simp only [Stored, store, List.mem_cons, Prod.mk.injEq]
  constructor
  · rintro ⟨value, ⟨same, -⟩ | mem⟩
    · exact .inl same
    · exact .inr ⟨value, mem⟩
  · rintro (same | ⟨value, mem⟩)
    · exact ⟨byte, .inl ⟨same, rfl⟩⟩
    · exact ⟨value, .inr mem⟩

theorem stored_storeAll (addr other : Nat) (bytes : List UInt8) :
    (stack.storeAll addr bytes).Stored other ↔ (addr ≤ other ∧ other < addr + bytes.length) ∨ stack.Stored other := by
  induction bytes generalizing stack addr with
  | nil =>
    have none : ¬(addr ≤ other ∧ other < addr + ([] : List UInt8).length) := by
      rw [List.length_nil]
      omega
    rw [storeAll, or_iff_right none]
  | cons byte bytes ih =>
    rw [storeAll, ih, stored_store, List.length_cons, ← or_assoc]
    refine or_congr_left ?_
    omega

theorem Filled.store (filled : stack.Filled) {addr : Nat} (byte : UInt8) (low : stack.myEsp ≤ addr)
    (high : addr < physBase) : (stack.store addr byte).Filled := by
  intro other
  rw [stored_store, filled other, store_myEsp]
  omega

theorem Filled.below (filled : stack.Filled) (within : stack.myEsp ≤ physBase) {bytes : List UInt8}
    (room : bytes.length ≤ stack.myEsp) :
    (({ stack with myEsp := stack.myEsp - bytes.length } : Stack).storeAll (stack.myEsp - bytes.length) bytes).Filled := by
  intro other
  rw [stored_storeAll, storeAll_myEsp]
  change _ ∨ stack.Stored other ↔ stack.myEsp - bytes.length ≤ other ∧ other < physBase
  rw [filled other]
  omega

/-- What is stored below `my_esp` leaves the bytes above as they are. -/
structure Grows (stack later : Stack) : Prop where
  le : later.myEsp ≤ stack.myEsp
  read : ∀ addr, stack.myEsp ≤ addr → later.read addr = stack.read addr
  filled : stack.myEsp ≤ physBase → stack.Filled → later.Filled

theorem Grows.refl (stack : Stack) : Grows stack stack := ⟨le_rfl, fun _ _ => rfl, fun _ filled => filled⟩

theorem Grows.trans {middle later : Stack} (first : Grows stack middle) (second : Grows middle later) :
    Grows stack later where
  le := second.le.trans first.le
  read addr above := (second.read addr (first.le.trans above)).trans (first.read addr above)
  filled within filled := second.filled (first.le.trans within) (first.filled within filled)

theorem grows_below {bytes : List UInt8} (room : bytes.length ≤ stack.myEsp) :
    Grows stack (({ stack with myEsp := stack.myEsp - bytes.length } : Stack).storeAll (stack.myEsp - bytes.length) bytes) where
  le := by
    rw [storeAll_myEsp]
    exact Nat.sub_le ..
  read addr above := by
    rw [read_storeAll, if_neg (by omega)]
    rfl
  filled within filled := filled.below within room

theorem grows_push (room : 4 ≤ stack.myEsp) (value : Nat) : Grows stack (stack.push value) :=
  grows_below (show (toBytes 4 value).length ≤ stack.myEsp by simpa using room)

theorem align_spec (stack : Stack) {fuel : Nat} (enough : stack.myEsp % 4 ≤ fuel) :
    (stack.align fuel).myEsp = stack.myEsp / 4 * 4 ∧ Grows stack (stack.align fuel) := by
  induction fuel generalizing stack with
  | zero =>
    refine ⟨?_, .refl _⟩
    change stack.myEsp = stack.myEsp / 4 * 4
    omega
  | succ fuel ih =>
    rw [align]
    by_cases aligned : stack.myEsp % 4 = 0
    · rw [if_neg (not_not.mpr aligned)]
      exact ⟨by omega, .refl _⟩
    · rw [if_pos aligned]
      obtain ⟨lower, grows⟩ := ih (({ stack with myEsp := stack.myEsp - 1 } : Stack).store (stack.myEsp - 1) 0)
        (show (stack.myEsp - 1) % 4 ≤ fuel by omega)
      refine ⟨lower.trans (show (stack.myEsp - 1) / 4 * 4 = _ by omega), .trans ?_ grows⟩
      exact grows_below (show ([0] : List UInt8).length ≤ stack.myEsp by rw [List.length_singleton]; omega)

/-! ### The words pushed -/

def readWord (stack : Stack) (addr : Nat) : Option Nat := do
  let first ← stack.read addr
  let second ← stack.read (addr + 1)
  let third ← stack.read (addr + 2)
  let fourth ← stack.read (addr + 3)
  return ofBytes [first, second, third, fourth]

theorem Grows.readWord {later : Stack} (grows : Grows stack later) {addr : Nat} (above : stack.myEsp ≤ addr) :
    later.readWord addr = stack.readWord addr := by
  simp only [Stack.readWord, grows.read addr above, grows.read (addr + 1) (by omega), grows.read (addr + 2) (by omega),
    grows.read (addr + 3) (by omega)]

theorem readWord_push (stack : Stack) (value : Nat) :
    (stack.push value).readWord (stack.myEsp - 4) = some (value % 2 ^ 32) := by
  have byte : ∀ i < 4, (stack.push value).read (stack.myEsp - 4 + i) = (toBytes 4 value)[i]? := by
    intro i below
    rw [push, read_storeAll, length_toBytes, if_pos (by omega), Nat.add_sub_cancel_left]
  rw [readWord, ← Nat.add_zero (stack.myEsp - 4), byte 0 (by decide), Nat.add_zero, byte 1 (by decide), byte 2 (by decide),
    byte 3 (by decide)]
  exact congrArg some (ofBytes_toBytes 4 value)

theorem pushAddresses_spec (stack : Stack) (dataAddresses : Nat → Nat) {argc : Nat} (room : 4 * (argc + 1) ≤ stack.myEsp) :
    (stack.pushAddresses dataAddresses argc).myEsp = stack.myEsp - 4 * (argc + 1)
    ∧ Grows stack (stack.pushAddresses dataAddresses argc)
    ∧ ∀ i ≤ argc, (stack.pushAddresses dataAddresses argc).readWord (stack.myEsp - 4 * (argc + 1) + 4 * i) =
        some (dataAddresses i % 2 ^ 32) := by
  induction argc generalizing stack with
  | zero =>
    refine ⟨push_myEsp .., grows_push room _, fun i low => ?_⟩
    obtain rfl : i = 0 := by omega
    exact readWord_push ..
  | succ argc ih =>
    obtain ⟨lower, grows, words⟩ := ih (stack.push (dataAddresses (argc + 1))) (by rw [push_myEsp]; omega)
    rw [push_myEsp] at lower words
    have same : stack.myEsp - 4 - 4 * (argc + 1) = stack.myEsp - 4 * (argc + 1 + 1) := by omega
    rw [same] at lower words
    refine ⟨lower, (grows_push (by omega) _).trans grows, fun i low => ?_⟩
    by_cases last : i = argc + 1
    · subst last
      have top : stack.myEsp - 4 * (argc + 1 + 1) + 4 * (argc + 1) = stack.myEsp - 4 := by omega
      rw [top, pushAddresses, grows.readWord (by rw [push_myEsp])]
      exact readWord_push ..
    · exact words i (by omega)

theorem push_three (stack : Stack) (argv argc : Nat) (room : 12 ≤ stack.myEsp) :
    let final := ((stack.push argv).push argc).push 0
    final.myEsp = stack.myEsp - 12 ∧ Grows stack final ∧ final.readWord (stack.myEsp - 12) = some 0
    ∧ final.readWord (stack.myEsp - 8) = some (argc % 2 ^ 32) ∧ final.readWord (stack.myEsp - 4) = some (argv % 2 ^ 32) := by
  have first : Grows stack (stack.push argv) := grows_push (by omega) argv
  have second : Grows (stack.push argv) ((stack.push argv).push argc) := grows_push (by rw [push_myEsp]; omega) argc
  have third : Grows ((stack.push argv).push argc) (((stack.push argv).push argc).push 0) :=
    grows_push (by rw [push_myEsp, push_myEsp]; omega) 0
  have lowest := readWord_push ((stack.push argv).push argc) 0
  have middle := readWord_push (stack.push argv) argc
  have top := readWord_push stack argv
  simp only [push_myEsp, Nat.sub_sub, Nat.reduceAdd] at lowest middle
  refine ⟨by simp only [push_myEsp, Nat.sub_sub, Nat.reduceAdd], first.trans (second.trans third), lowest, ?_, ?_⟩
  · rw [third.readWord (by simp only [push_myEsp]; omega), middle]
  · rw [(second.trans third).readWord (by simp only [push_myEsp]; omega), top]

end Stack

/-- The stack after the pushes: the three words below the addresses, the addresses, and the line as it was. -/
theorem pushAll_spec (stack : Stack) {argc : Nat} (dataAddresses : Nat → Nat) (room : 4 * (argc + 5) ≤ stack.myEsp)
    (high : stack.myEsp < 2 ^ 32) :
    let final := pushAll stack argc dataAddresses
    final.myEsp = stack.myEsp / 4 * 4 - 4 * (argc + 4) ∧ Stack.Grows stack final
    ∧ final.readWord final.myEsp = some 0 ∧ final.readWord (final.myEsp + 4) = some argc
    ∧ final.readWord (final.myEsp + 8) = some (final.myEsp + 12)
    ∧ ∀ i ≤ argc, final.readWord (final.myEsp + 12 + 4 * i) = some (dataAddresses i % 2 ^ 32) := by
  obtain ⟨aligned, down⟩ := Stack.align_spec stack (show stack.myEsp % 4 ≤ 4 by omega)
  obtain ⟨start, pushed, addresses⟩ := Stack.pushAddresses_spec (stack.align 4) dataAddresses
    (show 4 * (argc + 1) ≤ (stack.align 4).myEsp by rw [aligned]; omega)
  rw [aligned] at start addresses
  intro final
  obtain ⟨argv, defined⟩ : ∃ argv, argv = (stack.align 4).pushAddresses dataAddresses argc := ⟨_, rfl⟩
  have isFinal : final = ((argv.push argv.myEsp).push argc).push 0 := by
    rw [defined]
    rfl
  rw [← defined] at start pushed addresses
  obtain ⟨esp, last, zero, count, pointer⟩ := Stack.push_three argv argv.myEsp argc (by omega)
  rw [← isFinal] at esp last zero count pointer
  have above : argv.myEsp - 8 = final.myEsp + 4 := by omega
  have higher : argv.myEsp - 4 = final.myEsp + 8 := by omega
  have top : argv.myEsp = final.myEsp + 12 := by omega
  rw [← esp] at zero
  rw [above, Nat.mod_eq_of_lt (by omega)] at count
  rw [higher, Nat.mod_eq_of_lt (by omega), top] at pointer
  rw [← start, top] at addresses
  refine ⟨by omega, down.trans (pushed.trans last), zero, count, pointer, fun i low => ?_⟩
  rw [last.readWord (by omega)]
  exact addresses i low

theorem ok_of_bind {E A B : Type} {first : Except E A} {next : A → Except E B} {result : B}
    (done : (first >>= next) = .ok result) : ∃ value, first = .ok value ∧ next value = .ok result := by
  cases first with
  | error why => cases done
  | ok value => exact ⟨value, rfl, done⟩

namespace Words
variable {limit : Nat} {words next : Words}

theorem separate_filled (filled : words.stack.Filled) (inside : words.stack.myEsp + words.x < physBase)
    (done : words.separate limit = .ok next) : next.stack.Filled := by
  unfold separate at done
  split at done
  · obtain ⟨dataAddresses, -, rest⟩ := ok_of_bind done
    cases rest
    exact filled.store 0 (Nat.le_add_right ..) inside
  · cases done
    exact filled

theorem separateAll_filled {fuel : Nat} (filled : words.stack.Filled) (done : separateAll limit fuel words = .ok next) :
    next.stack.Filled := by
  induction fuel generalizing words with
  | zero =>
    cases done
    exact filled
  | succ fuel ih =>
    rw [separateAll] at done
    split at done
    · rename_i inside
      obtain ⟨after, one, rest⟩ := ok_of_bind done
      refine ih ?_ rest
      change after.stack.Filled
      exact separate_filled filled inside one
    · cases done
      exact filled

end Words

namespace CommandLine
variable {cmd : CommandLine}

theorem onStack_filled (cmd : CommandLine) : cmd.onStack.Filled := by
  have reaches := cmd.onStack_reaches
  intro addr
  rw [onStack_myEsp] at reaches ⊢
  rw [onStack, Stack.stored_storeAll, reaches]
  simp [Stack.Stored]

theorem separateWords_filled {words : Words} (done : separateWords cmd.onStack (cmd.bytes.length + 1) = .ok words) :
    words.stack.Filled := by
  rw [separateWords, storeAt_of_lt _ _ (by decide)] at done
  exact Words.separateAll_filled cmd.onStack_filled done

/-- The bytes of the stack: the line up to a multiple of 4, the addresses with their null, and three words. -/
def stackSize (cmd : CommandLine) : Nat := (cmd.bytes.length + 4) / 4 * 4 + 4 * (cmd.argc + 4)

end CommandLine

section Built
variable {cmd : CommandLine} {stack : Stack}

/-- `setup_stack` gets to its pushes when the line and the addresses are short enough and the array has room. -/
theorem argumentStack_built (built : argumentStack cmd = .built stack) :
    ∃ words, separateWords cmd.onStack (cmd.bytes.length + 1) = .ok words
      ∧ words.argc = cmd.argc ∧ words.stack.myEsp = cmd.onStack.myEsp
      ∧ cmd.bytes.length < availStackSpace ∧ cmd.argc * 4 ≤ availStackSpace - (cmd.bytes.length + 1) ∧ cmd.argc < arraySize
      ∧ stack = pushAll words.stack cmd.argc (Function.update words.dataAddresses cmd.argc 0) := by
  obtain ⟨-, outcome⟩ | ⟨-, -, outcome⟩ | ⟨words, run, counted, same, short, ⟨-, -, outcome⟩ | ⟨-, -, outcome⟩
    | ⟨room, small, outcome⟩⟩ := argumentStack_cases cmd <;> cases built.symm.trans outcome
  exact ⟨words, run, counted, same, short, room, small, rfl⟩

/-- Without room for the addresses only the line is on the stack. -/
theorem argumentStack_noRoom (ended : argumentStack cmd = .noRoom stack) :
    stack.Filled ∧ stack.myEsp = cmd.onStack.myEsp ∧ cmd.bytes.length < availStackSpace := by
  obtain ⟨-, outcome⟩ | ⟨-, -, outcome⟩ | ⟨words, run, -, same, short, ⟨-, -, outcome⟩ | ⟨-, -, outcome⟩
    | ⟨-, -, outcome⟩⟩ := argumentStack_cases cmd <;> cases ended.symm.trans outcome
  exact ⟨CommandLine.separateWords_filled run, same, short⟩

theorem argumentStack_builds (short : cmd.bytes.length < availStackSpace)
    (room : cmd.argc * 4 ≤ availStackSpace - (cmd.bytes.length + 1)) (small : cmd.argc < arraySize) :
    ∃ stack, argumentStack cmd = .built stack := by
  obtain ⟨long, -⟩ | ⟨-, many, -⟩ | ⟨words, -, -, -, -, ⟨none, -⟩ | ⟨-, full, -⟩ | ⟨-, -, outcome⟩⟩ := argumentStack_cases cmd
  · omega
  · omega
  · omega
  · omega
  · exact ⟨_, outcome⟩

theorem built_size (built : argumentStack cmd = .built stack) :
    stack.myEsp = physBase - cmd.stackSize ∧ stack.Filled ∧ cmd.stackSize ≤ pgSize + 4 := by
  obtain ⟨words, run, counted, same, short, room, small, rfl⟩ := argumentStack_built built
  have myEsp := same.trans cmd.onStack_myEsp
  simp only [availStackSpace] at short room
  obtain ⟨esp, grows, -⟩ := pushAll_spec words.stack (Function.update words.dataAddresses cmd.argc 0)
    (show 4 * (cmd.argc + 5) ≤ words.stack.myEsp by rw [myEsp]; simp only [physBase]; omega)
    (by rw [myEsp]; simp only [physBase]; omega)
  refine ⟨?_, grows.filled (by rw [myEsp]; omega) (CommandLine.separateWords_filled run), ?_⟩
  · rw [esp, myEsp, CommandLine.stackSize]
    simp only [physBase]
    omega
  · simp only [CommandLine.stackSize, pgSize]
    omega

end Built

/-! ### The strings behind the addresses -/

namespace Words

/-- Without spaces at the end the addresses already stored stay. -/
theorem addresses_old (myEsp : Nat) (rest : List (Nat × List UInt8)) (x : Nat) {argc i : Nat} (data : Nat → Nat)
    (older : i < argc) : addresses 0 myEsp rest x argc data i = data i := by
  induction rest generalizing x argc data with
  | nil => rfl
  | cons next rest ih => rw [addresses, ih _ _ (by omega), Function.update_of_ne older.ne]

theorem length_cutTail (trailing : Nat) (rest : List (Nat × List UInt8)) :
    (cutTail trailing rest).length = (Spelling.tail space trailing rest).length := by
  induction rest with
  | nil =>
    cases trailing with
    | zero => rfl
    | succ trailing => simp [cutTail, Spelling.tail]
  | cons next rest ih =>
    simp only [cutTail, Spelling.tail, List.length_cons, List.length_append, List.length_replicate, ih]
    omega

theorem cutTail_starts (rest : List (Nat × List UInt8)) : ∃ more, cutTail 0 rest ++ [0] = 0 :: more := by
  cases rest with
  | nil => exact ⟨[], rfl⟩
  | cons next rest => exact ⟨_, rfl⟩

/-- Without spaces at the end each address is that of its word, with a NUL behind the word. -/
theorem addresses_word (myEsp : Nat) {rest : List (Nat × List UInt8)} (front : List UInt8) (argc : Nat) (data : Nat → Nat)
    {j : Nat} (below : j < rest.length) :
    ∃ before after, front ++ (cutTail 0 rest ++ [0]) = before ++ (rest[j].2 ++ 0 :: after)
      ∧ addresses 0 myEsp rest front.length argc data (argc + j) = myEsp + before.length := by
  induction rest generalizing front argc data j with
  | nil => cases below
  | cons next rest ih =>
    obtain ⟨spaces, word⟩ := next
    cases j with
    | zero =>
      obtain ⟨more, starts⟩ := cutTail_starts rest
      refine ⟨front ++ 0 :: List.replicate spaces space, more, ?_, ?_⟩
      · rw [cutTail, List.getElem_cons_zero, ← starts]
        simp
      · have first := addresses_old myEsp rest (front.length + spaces + 1 + word.length)
          (Function.update data argc (myEsp + (front.length + spaces) + 1)) (Nat.lt_succ_self argc)
        rw [Function.update_self] at first
        refine first.trans ?_
        rw [List.length_append, List.length_cons, List.length_replicate]
        omega
    | succ j =>
      obtain ⟨before, after, shape, addr⟩ := ih (front ++ 0 :: (List.replicate spaces space ++ word)) (argc + 1)
        (Function.update data argc (myEsp + (front.length + spaces) + 1)) (Nat.lt_of_succ_lt_succ below)
      have length : (front ++ 0 :: (List.replicate spaces space ++ word)).length =
          front.length + spaces + 1 + word.length := by
        simp only [List.length_append, List.length_cons, List.length_replicate]
        omega
      rw [length, show argc + 1 + j = argc + (j + 1) by omega] at addr
      refine ⟨before, after, ?_, addr⟩
      rw [List.getElem_cons_succ, ← shape, cutTail]
      simp

/-- With spaces at the end the last address is that of the NUL that ends the line. -/
theorem addresses_last {trailing : Nat} (some : trailing ≠ 0) (myEsp : Nat) (rest : List (Nat × List UInt8)) (x argc : Nat)
    (data : Nat → Nat) :
    addresses trailing myEsp rest x argc data (argc + rest.length - 1) = myEsp + (x + (cutTail trailing rest).length) := by
  induction rest generalizing x argc data with
  | nil =>
    change addresses trailing myEsp [] x argc data (argc - 1) = _
    rw [addresses, if_neg some, Function.update_self, cutTail, if_neg some, List.length_cons, List.length_replicate]
    omega
  | cons next rest ih =>
    have last : argc + (next :: rest).length - 1 = argc + 1 + rest.length - 1 := by
      rw [List.length_cons]
      omega
    rw [last, addresses, ih, cutTail]
    simp only [List.length_cons, List.length_append, List.length_replicate]
    omega

end Words

namespace Stack
variable {stack : Stack}

def IsString (stack : Stack) (addr : Nat) (word : List UInt8) : Prop :=
  ∀ j < (word ++ [0]).length, stack.read (addr + j) = (word ++ [0])[j]?

theorem Holds.isString {before word after : List UInt8} (holds : stack.Holds (before ++ (word ++ 0 :: after))) :
    stack.IsString (stack.myEsp + before.length) word := by
  intro j below
  have shape : before ++ (word ++ 0 :: after) = before ++ ((word ++ [0]) ++ after) := by simp
  rw [shape] at holds
  have byte := holds (before.length + j) (by simp only [List.length_append] at below ⊢; omega)
  rw [List.getElem?_append_right (Nat.le_add_right ..), Nat.add_sub_cancel_left, List.getElem?_append_left below] at byte
  rw [Nat.add_assoc, byte]

theorem Grows.holds {later : Stack} (grows : Grows stack later) {line : List UInt8} (holds : stack.Holds line) :
    ({ later with myEsp := stack.myEsp } : Stack).Holds line := by
  intro x below
  exact (grows.read (stack.myEsp + x) (Nat.le_add_right ..)).trans (holds x below)

theorem IsString.letter {addr : Nat} {word : List UInt8} (isString : stack.IsString addr word) (nonempty : word ≠ []) :
    ∃ letter ∈ word, stack.read addr = some letter := by
  obtain ⟨letter, letters, rfl⟩ := List.exists_cons_of_ne_nil nonempty
  exact ⟨letter, List.mem_cons_self, isString 0 (by simp)⟩

/-- The stack of a program that is started with the words as its arguments. -/
structure Passes (stack : Stack) (words : List (List UInt8)) : Prop where
  returnAddress : stack.readWord stack.myEsp = some 0
  argc : stack.readWord (stack.myEsp + 4) = some words.length
  argv : stack.readWord (stack.myEsp + 8) = some (stack.myEsp + 12)
  word : ∀ i (below : i < words.length),
    ∃ addr, stack.readWord (stack.myEsp + 12 + 4 * i) = some addr ∧ stack.IsString addr words[i]
  null : stack.readWord (stack.myEsp + 12 + 4 * words.length) = some 0
  aligned : stack.myEsp % 4 = 0

end Stack

section Passed
variable {cmd : CommandLine} {stack : Stack} {spelling : Spelling space}

def cutLine (spelling : Spelling space) : List UInt8 :=
  (List.replicate spelling.leading space ++ spelling.first) ++ (Words.cutTail spelling.trailing spelling.rest ++ [0])

def wordAddress (spelling : Spelling space) (myEsp : Nat) : Nat → Nat :=
  Words.addresses spelling.trailing myEsp spelling.rest (List.replicate spelling.leading space ++ spelling.first).length 1
    (firstAddress myEsp)

theorem built_spelling (built : argumentStack cmd = .built stack) (line : cmd.bytes = spelling.line) :
    ∃ base, base + (cutLine spelling).length = physBase
      ∧ ({ stack with myEsp := base } : Stack).Holds (cutLine spelling)
      ∧ stack.readWord stack.myEsp = some 0 ∧ stack.readWord (stack.myEsp + 4) = some spelling.words.length
      ∧ stack.readWord (stack.myEsp + 8) = some (stack.myEsp + 12)
      ∧ (∀ i < spelling.words.length,
        stack.readWord (stack.myEsp + 12 + 4 * i) = some (wordAddress spelling base i % 2 ^ 32))
      ∧ stack.readWord (stack.myEsp + 12 + 4 * spelling.words.length) = some 0 ∧ stack.myEsp % 4 = 0 := by
  obtain ⟨words, run, -, same, short, room, small, rfl⟩ := argumentStack_built built
  obtain ⟨others, again, -, -, holds, data⟩ := (separateWords_spelling line).1 small.le
  obtain rfl : others = words := Except.ok.inj (again.symm.trans run)
  have count : spelling.words.length = cmd.argc := by
    rw [CommandLine.argc_spelling line, Spelling.words, List.length_cons, List.length_map]
  have myEsp := same.trans cmd.onStack_myEsp
  simp only [availStackSpace] at short room
  obtain ⟨esp, grows, zero, argc, argv, addresses⟩ := pushAll_spec others.stack
    (Function.update others.dataAddresses cmd.argc 0)
    (show 4 * (cmd.argc + 5) ≤ others.stack.myEsp by rw [myEsp]; simp only [physBase]; omega)
    (by rw [myEsp]; simp only [physBase]; omega)
  have reaches : others.stack.myEsp + (cutLine spelling).length = physBase := by
    have top := cmd.onStack_reaches
    rw [line, Spelling.line] at top
    rw [same, ← top, cutLine]
    simp only [List.length_append, Words.length_cutTail]
    omega
  rw [count]
  refine ⟨others.stack.myEsp, reaches, grows.holds holds, zero, argc, argv, fun i below => ?_, ?_, by rw [esp]; omega⟩
  · rw [addresses i below.le, Function.update_of_ne below.ne, data, same]
    rfl
  · have last := addresses _ le_rfl
    rw [Function.update_self] at last
    exact last

theorem wordAddress_zero (base : Nat) (trailing : spelling.trailing = 0) : wordAddress spelling base 0 = base := by
  rw [wordAddress, trailing, Words.addresses_old _ _ _ _ Nat.zero_lt_one]
  rfl

section
variable {base : Nat} (reaches : base + (cutLine spelling).length = physBase)
  (holds : ({ stack with myEsp := base } : Stack).Holds (cutLine spelling))
include reaches holds

/-- Each address is that of a string equal to its word, on a line without spaces around it. -/
theorem wordAddress_isString (leading : spelling.leading = 0) (trailing : spelling.trailing = 0) {i : Nat}
    (below : i < spelling.words.length) :
    stack.IsString (wordAddress spelling base i % 2 ^ 32) spelling.words[i] := by
  have start : List.replicate spelling.leading space ++ spelling.first = spelling.first := by
    rw [leading]
    rfl
  cases i with
  | zero =>
    obtain ⟨after, starts⟩ := Words.cutTail_starts spelling.rest
    have shape : cutLine spelling = [] ++ (spelling.first ++ 0 :: after) := by
      rw [cutLine, start, trailing, starts]
      rfl
    rw [wordAddress_zero base trailing, Nat.mod_eq_of_lt (by simp only [physBase] at reaches; omega)]
    rw [shape] at holds
    exact holds.isString
  | succ j =>
    have inside : j < spelling.rest.length := by
      rw [Spelling.words, List.length_cons, List.length_map] at below
      omega
    obtain ⟨before, after, shape, addr⟩ := Words.addresses_word base
      (List.replicate spelling.leading space ++ spelling.first) 1 (firstAddress base) inside
    have same : cutLine spelling = before ++ (spelling.rest[j].2 ++ 0 :: after) := by
      rw [cutLine, trailing, shape]
    have here : wordAddress spelling base (j + 1) = base + before.length := by
      rw [wordAddress, trailing, Nat.add_comm j, addr]
    have word : spelling.words[j + 1] = spelling.rest[j].2 := by
      simp [Spelling.words]
    rw [same] at holds reaches
    have low : before.length < (before ++ (spelling.rest[j].2 ++ 0 :: after)).length := by
      simp only [List.length_append, List.length_cons]
      omega
    rw [here, word, Nat.mod_eq_of_lt (by simp only [physBase] at reaches; omega)]
    exact holds.isString

theorem wordAddress_leading (leading : spelling.leading ≠ 0) (trailing : spelling.trailing = 0) :
    stack.read (wordAddress spelling base 0 % 2 ^ 32) = some space := by
  obtain ⟨count, more⟩ := Nat.exists_eq_succ_of_ne_zero leading
  have shape : cutLine spelling = space :: (List.replicate count space ++ (spelling.first ++
      (Words.cutTail spelling.trailing spelling.rest ++ [0]))) := by
    rw [cutLine, more, List.replicate_succ]
    simp
  rw [wordAddress_zero base trailing, Nat.mod_eq_of_lt (by simp only [physBase] at reaches; omega)]
  rw [shape] at holds
  exact holds 0 (by simp)

theorem wordAddress_trailing (trailing : spelling.trailing ≠ 0) :
    stack.read (wordAddress spelling base spelling.rest.length % 2 ^ 32) = some 0 := by
  obtain ⟨front, defined⟩ : ∃ front, front = (List.replicate spelling.leading space ++ spelling.first) ++
      Words.cutTail spelling.trailing spelling.rest := ⟨_, rfl⟩
  have shape : cutLine spelling = front ++ [0] := by
    rw [defined]
    exact (List.append_assoc ..).symm
  have last := Words.addresses_last trailing base spelling.rest
    (List.replicate spelling.leading space ++ spelling.first).length 1 (firstAddress base)
  rw [Nat.add_sub_cancel_left, ← List.length_append, ← defined] at last
  rw [shape] at holds reaches
  have nul := holds front.length (by simp)
  rw [List.length_append, List.length_singleton] at reaches
  rw [wordAddress, last, Nat.mod_eq_of_lt (by simp only [physBase] at reaches; omega)]
  exact nul.trans (by simp)

end

/-- The words are passed to the program unless the line starts or ends with a space. -/
theorem built_passes_iff (built : argumentStack cmd = .built stack) (nonempty : wordsOf space cmd.bytes ≠ []) :
    stack.Passes (wordsOf space cmd.bytes) ↔
      cmd.bytes.head? ≠ some space ∧ cmd.bytes.getLast? ≠ some space := by
  obtain ⟨spelling, line⟩ | ⟨count, line⟩ := spelled_or_blank space cmd.bytes
  swap
  · rw [line, ← List.append_nil (List.replicate count space), wordsOf_replicate, wordsOf_nil] at nonempty
    exact absurd rfl nonempty
  obtain ⟨base, reaches, holds, zero, argc, argv, addresses, null, aligned⟩ := built_spelling built line.symm
  rw [← line, spelling.wordsOf_line, ne_eq, ne_eq, spelling.head?_line, spelling.getLast?_line, not_not, not_not]
  constructor
  · intro passes
    have starts : ∀ i (below : i < spelling.words.length),
        ∃ letter ∈ spelling.words[i], stack.read (wordAddress spelling base i % 2 ^ 32) = some letter := by
      intro i below
      obtain ⟨addr, read, isString⟩ := passes.word i below
      obtain rfl := Option.some.inj (read.symm.trans (addresses i below))
      exact isString.letter (spelling.isWord_of_mem (List.getElem_mem below)).1
    have trailing : spelling.trailing = 0 := by
      by_contra spaces
      obtain ⟨letter, mem, read⟩ := starts spelling.rest.length (by simp [Spelling.words])
      obtain rfl := Option.some.inj (read.symm.trans (wordAddress_trailing reaches holds spaces))
      exact cmd.noNul (line ▸ Spelling.mem_line (List.getElem_mem _) mem)
    have leading : spelling.leading = 0 := by
      by_contra spaces
      obtain ⟨letter, mem, read⟩ := starts 0 (by simp [Spelling.words])
      obtain rfl := Option.some.inj (read.symm.trans (wordAddress_leading reaches holds spaces trailing))
      exact (spelling.isWord_of_mem (List.getElem_mem _)).2 mem
    exact ⟨leading, trailing⟩
  · rintro ⟨leading, trailing⟩
    refine ⟨zero, argc, argv, fun i below => ⟨_, addresses i below, ?_⟩, null, aligned⟩
    exact wordAddress_isString reaches holds leading trailing below

end Passed

end Pintos.Process.Arguments
