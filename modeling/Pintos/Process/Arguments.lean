import Mathlib.Data.List.GetD
import Mathlib.Order.Nat
import Pintos.Semantics.Spelling
import Pintos.Semantics.Words
import Pintos.Vm.Address

/-! The arguments of a new process (`load` and `setup_stack` in `userprog/process.c`).

`load` copies the first word of the command line to `fileArg0`, and `setup_stack`
takes the line apart in the stack page: it copies it below `PHYS_BASE`, puts a
NUL after each word, collects the addresses of the words in `dataAddresses` and
pushes them with `argv`, `argc` and a return address.

What is stored through `my_esp` is kept as a log, the latest store first; the
code reads its own stores back. Both arrays have 128 elements. A store at any
other index ends the computation with that index, since what it overwrites is
not part of the program's meaning.
-/

set_option autoImplicit false

namespace Pintos.Process.Arguments
open Semantics

/-- A command line: the bytes before its NUL, as many as `process_execute` copies to a page at most. -/
structure CommandLine where
  bytes : List UInt8
  noNul : 0 ∉ bytes
  short : bytes.length < pgSize

def space : UInt8 := 32

def CommandLine.charAt (cmd : CommandLine) (index : Nat) : UInt8 := cmd.bytes.getD index 0

def arraySize : Nat := 128

def storeAt {A : Type} (array : Nat → A) (index : Nat) (value : A) : Except Nat (Nat → A) :=
  if index < arraySize then .ok (Function.update array index value) else .error index

/-- `while (... == ' ') index++`. -/
def skipSpaces (charAt : Nat → UInt8) : Nat → Nat → Nat
  | 0, index => index
  | fuel + 1, index => if charAt index = space then skipSpaces charAt fuel (index + 1) else index

/-- The loop of `load` that copies the first word, from `copyIndex` on. -/
def copyWord (cmd : CommandLine) (numLeadingSpaces : Nat) : Nat → Nat → (Nat → UInt8) → Except Nat (Nat × (Nat → UInt8))
  | 0, copyIndex, array => .ok (copyIndex, array)
  | fuel + 1, copyIndex, array =>
    if cmd.charAt copyIndex ≠ space ∧ cmd.charAt copyIndex ≠ 0 then do
      let array ← storeAt array (copyIndex - numLeadingSpaces) (cmd.charAt copyIndex)
      copyWord cmd numLeadingSpaces fuel (copyIndex + 1) array
    else .ok (copyIndex, array)

/-- `fileArg0`, the name `load` opens. -/
def fileArg0 (cmd : CommandLine) : Except Nat (Nat → UInt8) := do
  let numLeadingSpaces := skipSpaces cmd.charAt pgSize 0
  let (copyIndex, array) ← copyWord cmd numLeadingSpaces pgSize numLeadingSpaces fun _ => 0
  storeAt array (copyIndex - numLeadingSpaces) 0

/-- `my_esp` and what was stored through it. -/
structure Stack where
  myEsp : Nat
  stored : List (Nat × UInt8) := []

namespace Stack
variable (stack : Stack)

def read (addr : Nat) : Option UInt8 := stack.stored.lookup addr

def charAt (x : Nat) : UInt8 := (stack.read (stack.myEsp + x)).getD 0

def store (addr : Nat) (byte : UInt8) : Stack := { stack with stored := (addr, byte) :: stack.stored }

def storeAll (stack : Stack) (addr : Nat) : List UInt8 → Stack
  | [] => stack
  | byte :: rest => (stack.store addr byte).storeAll (addr + 1) rest

/-- `my_esp -= 4` and the store of a 4-byte value there. -/
def push (value : Nat) : Stack :=
  ({ stack with myEsp := stack.myEsp - 4 } : Stack).storeAll (stack.myEsp - 4) (toBytes 4 value)

def align : Nat → Stack → Stack
  | 0, stack => stack
  | fuel + 1, stack =>
    if stack.myEsp % 4 ≠ 0 then
      align fuel (({ stack with myEsp := stack.myEsp - 1 } : Stack).store (stack.myEsp - 1) 0)
    else stack

def pushAddresses (dataAddresses : Nat → Nat) : Nat → Stack → Stack
  | 0, stack => stack.push (dataAddresses 0)
  | index + 1, stack => pushAddresses dataAddresses index (stack.push (dataAddresses (index + 1)))

end Stack

structure Words where
  stack : Stack
  x : Nat
  argc : Nat
  dataAddresses : Nat → Nat

/-- The body of the loop; `limit` bounds the loop inside it. -/
def Words.separate (limit : Nat) (words : Words) : Except Nat Words :=
  if words.stack.charAt words.x = space then do
    let stack := words.stack.store (words.stack.myEsp + words.x) 0
    let x := skipSpaces (fun x => stack.charAt (x + 1)) limit words.x
    let argc := if stack.charAt (x + 1) ≠ space ∧ stack.charAt (x + 1) ≠ 0 then words.argc + 1 else words.argc
    let dataAddresses ← storeAt words.dataAddresses (argc - 1) (stack.myEsp + x + 1)
    return { stack, x, argc, dataAddresses }
  else return words

def Words.separateAll (limit : Nat) : Nat → Words → Except Nat Words
  | 0, words => .ok words
  | fuel + 1, words =>
    if words.stack.myEsp + words.x < physBase then do
      let next ← words.separate limit
      separateAll limit fuel { next with x := next.x + 1 }
    else .ok words

def separateWords (stack : Stack) (commandLineLength : Nat) : Except Nat Words := do
  let x := skipSpaces stack.charAt commandLineLength 0
  let dataAddresses ← storeAt (fun _ => 0) 0 stack.myEsp
  Words.separateAll commandLineLength commandLineLength { stack, x, argc := 1, dataAddresses }

def availStackSpace : Nat := 4084

inductive Outcome where
  /-- The line is longer than `AVAIL_STACK_SPACE`. -/
  | tooLong
  /-- A store to `dataAddresses` at an index that the array does not have. -/
  | overrun (index : Nat)
  /-- There is no room for the addresses of the words. -/
  | noRoom (stack : Stack)
  | built (stack : Stack)

/-- The pushes of `setup_stack`, from the alignment on. -/
def pushAll (stack : Stack) (argc : Nat) (dataAddresses : Nat → Nat) : Stack :=
  let argv := (stack.align 4).pushAddresses dataAddresses argc
  ((argv.push argv.myEsp).push argc).push 0

def CommandLine.onStack (cmd : CommandLine) : Stack :=
  let myEsp := physBase - (cmd.bytes.length + 1)
  ({ myEsp } : Stack).storeAll myEsp (cmd.bytes ++ [0])

def argumentStack (cmd : CommandLine) : Outcome :=
  let commandLineLength := cmd.bytes.length + 1
  if availStackSpace < commandLineLength then .tooLong
  else
    match separateWords cmd.onStack commandLineLength with
    | .error index => .overrun index
    | .ok words =>
      if availStackSpace - commandLineLength < words.argc * 4 then .noRoom words.stack
      else
        match storeAt words.dataAddresses words.argc 0 with
        | .error index => .overrun index
        | .ok dataAddresses => .built (pushAll words.stack words.argc dataAddresses)

/-! ### The loops over a line in memory -/

theorem storeAt_of_lt {A : Type} (array : Nat → A) {index : Nat} (value : A) (below : index < arraySize) :
    storeAt array index value = .ok (Function.update array index value) := if_pos below

theorem storeAt_of_le {A : Type} (array : Nat → A) {index : Nat} (value : A) (beyond : arraySize ≤ index) :
    storeAt array index value = .error index := if_neg (Nat.not_lt.mpr beyond)

theorem skipSpaces_eq {charAt : Nat → UInt8} {count fuel index : Nat}
    (spaces : ∀ j < count, charAt (index + j) = space) (stops : charAt (index + count) ≠ space)
    (enough : count ≤ fuel) : skipSpaces charAt fuel index = index + count := by
  induction count generalizing fuel index with
  | zero =>
    cases fuel with
    | zero => rfl
    | succ fuel =>
      have stops : charAt index ≠ space := stops
      rw [skipSpaces, if_neg stops, Nat.add_zero]
  | succ count ih =>
    obtain ⟨fuel, rfl⟩ := Nat.exists_eq_add_of_le' (Nat.lt_of_lt_of_le (Nat.succ_pos count) enough)
    have next : ∀ j < count, charAt (index + 1 + j) = space := by
      intro j below
      rw [Nat.add_assoc, Nat.add_comm 1]
      exact spaces (j + 1) (by omega)
    have first : charAt index = space := spaces 0 (Nat.succ_pos count)
    rw [skipSpaces, if_pos first, ih next (by rwa [Nat.add_assoc, Nat.add_comm 1]) (by omega)]
    omega

namespace CommandLine
variable {cmd : CommandLine} {front more : List UInt8}

theorem charAt_of_append {letter : UInt8} (line : cmd.bytes = front ++ letter :: more) :
    cmd.charAt front.length = letter := by
  simp [charAt, line]

theorem charAt_end : cmd.charAt cmd.bytes.length = 0 := by
  simp [charAt]

theorem charAt_leading {leading : Nat} (line : cmd.bytes = List.replicate leading space ++ more) :
    ∀ j < leading, cmd.charAt (0 + j) = space := by
  intro j below
  simp [charAt, line, List.getElem?_append_left, below]

end CommandLine

section CopyWord
variable {cmd : CommandLine} {front word rest : List UInt8} {leading fuel : Nat}

def EndsWord (rest : List UInt8) : Prop := rest = [] ∨ ∃ more, rest = space :: more

theorem copyWord_stops (line : cmd.bytes = front ++ rest) (ends : EndsWord rest) (array : Nat → UInt8) :
    copyWord cmd leading fuel front.length array = .ok (front.length, array) := by
  cases fuel with
  | zero => rfl
  | succ fuel =>
    have stop : ¬(cmd.charAt front.length ≠ space ∧ cmd.charAt front.length ≠ 0) := by
      rintro ⟨letter, nul⟩
      rcases ends with rfl | ⟨more, rfl⟩
      · rw [List.append_nil] at line
        rw [← line] at nul
        exact nul CommandLine.charAt_end
      · exact letter (CommandLine.charAt_of_append line)
    rw [copyWord, if_neg stop]

/-- The loop stores the letters one after the other, until the array has no more elements. -/
theorem copyWord_eq (line : cmd.bytes = front ++ (word ++ rest)) (plain : space ∉ word) (ends : EndsWord rest)
    (enough : word.length ≤ fuel) (start : leading ≤ front.length) (array : Nat → UInt8) :
    (front.length - leading + word.length ≤ arraySize →
      ∃ filled, copyWord cmd leading fuel front.length array = .ok (front.length + word.length, filled)
        ∧ (∀ j < word.length, filled (front.length - leading + j) = word.getD j 0)
        ∧ ∀ j < front.length - leading, filled j = array j)
    ∧ (front.length - leading ≤ arraySize → arraySize < front.length - leading + word.length →
      copyWord cmd leading fuel front.length array = .error arraySize) := by
  induction word generalizing front fuel array with
  | nil =>
    refine ⟨fun _ => ⟨array, copyWord_stops (by simpa using line) ends array, ?_, fun _ _ => rfl⟩, ?_⟩
    · intro j below
      simp at below
    · intro low high
      simp only [List.length_nil] at high
      omega
  | cons letter word ih =>
    rw [List.length_cons] at enough ⊢
    obtain ⟨fuel, rfl⟩ := Nat.exists_eq_add_of_le' (Nat.lt_of_lt_of_le (Nat.succ_pos word.length) enough)
    have atLetter : cmd.charAt front.length = letter := CommandLine.charAt_of_append line
    have goes : cmd.charAt front.length ≠ space ∧ cmd.charAt front.length ≠ 0 := by
      rw [atLetter]
      refine ⟨fun same => plain (same ▸ List.mem_cons_self), fun same => cmd.noNul ?_⟩
      rw [line, ← same]
      simp
    have line : cmd.bytes = (front ++ [letter]) ++ (word ++ rest) := by simpa using line
    have length : (front ++ [letter]).length = front.length + 1 := by simp
    have remains : word.length ≤ fuel := by omega
    have later : ∀ array, _ := ih line (fun mem => plain (List.mem_cons_of_mem _ mem)) remains (by omega)
    rw [length] at later
    refine ⟨fun fits => ?_, fun low high => ?_⟩
    · have stored := storeAt_of_lt array letter (show front.length - leading < arraySize by omega)
      obtain ⟨filled, run, letters, old⟩ :=
        (later (Function.update array (front.length - leading) letter)).1 (by omega)
      refine ⟨filled, ?_, ?_, ?_⟩
      · rw [copyWord, if_pos goes, atLetter, stored]
        refine run.trans ?_
        rw [Nat.add_right_comm, Nat.add_assoc]
      · intro j below
        cases j with
        | zero =>
          rw [Nat.add_zero, old _ (by omega), Function.update_self]
          rfl
        | succ j =>
          have same : front.length + 1 - leading + j = front.length - leading + (j + 1) := by omega
          rw [← same, letters j (by omega)]
          rfl
      · intro j below
        rw [old j (by omega), Function.update_of_ne (by omega)]
    · rw [copyWord, if_pos goes, atLetter]
      by_cases below : front.length - leading < arraySize
      · rw [storeAt_of_lt array letter below]
        exact (later _).2 (by omega) (by omega)
      · rw [storeAt_of_le array letter (by omega), show front.length - leading = arraySize by omega]
        rfl

end CopyWord

theorem endsWord_tail (trailing : Nat) (rest : List (Nat × List UInt8)) :
    EndsWord (Spelling.tail space trailing rest) := by
  cases rest with
  | nil =>
    cases trailing with
    | zero => exact .inl rfl
    | succ trailing => exact .inr ⟨_, rfl⟩
  | cons next rest => exact .inr ⟨_, rfl⟩

section FileArg0
variable {cmd : CommandLine}

theorem skipSpaces_spelling {spelling : Spelling space} (line : cmd.bytes = spelling.line) :
    skipSpaces cmd.charAt pgSize 0 = spelling.leading := by
  have short := cmd.short
  obtain ⟨letter, word, first⟩ := List.exists_cons_of_ne_nil spelling.first_word.1
  have plain : letter ≠ space := by
    rintro rfl
    exact spelling.first_word.2 (first ▸ List.mem_cons_self)
  have atLetter : cmd.charAt (0 + spelling.leading) = letter := by
    rw [Spelling.line, first] at line
    simpa using CommandLine.charAt_of_append line
  have inside : spelling.leading ≤ cmd.bytes.length := by
    rw [line, Spelling.line, List.length_append, List.length_replicate]
    omega
  have skipped := skipSpaces_eq (CommandLine.charAt_leading line) (atLetter ▸ plain) (inside.trans short.le)
  rwa [Nat.zero_add] at skipped

/-- With a word of less than 128 letters `load` opens the first word; a longer one leaves the array. -/
theorem fileArg0_spelling {spelling : Spelling space} (line : cmd.bytes = spelling.line) :
    (spelling.first.length < arraySize →
      ∃ array, fileArg0 cmd = .ok array ∧ array spelling.first.length = 0
        ∧ ∀ j < spelling.first.length, array j = spelling.first.getD j 0)
    ∧ (arraySize ≤ spelling.first.length → fileArg0 cmd = .error arraySize) := by
  have short := cmd.short
  have skipped := skipSpaces_spelling line
  have length : (List.replicate spelling.leading space).length = spelling.leading := List.length_replicate
  have enough : spelling.first.length ≤ pgSize := by
    rw [line, Spelling.line, List.length_append, List.length_append] at short
    omega
  have copied := copyWord_eq line spelling.first_word.2 (endsWord_tail _ _) enough length.ge fun _ => 0
  rw [length, Nat.sub_self, Nat.zero_add] at copied
  refine ⟨fun fits => ?_, fun long => ?_⟩
  · obtain ⟨filled, run, letters, -⟩ := copied.1 fits.le
    have count : spelling.leading + spelling.first.length - spelling.leading = spelling.first.length := by omega
    refine ⟨Function.update filled spelling.first.length 0, ?_, Function.update_self .., ?_⟩
    · simp only [fileArg0, skipped, run]
      change storeAt filled (spelling.leading + spelling.first.length - spelling.leading) 0 = _
      rw [count, storeAt_of_lt _ _ fits]
    · intro j below
      rw [Function.update_of_ne below.ne, ← letters j below, Nat.zero_add]
  · by_cases exact : spelling.first.length = arraySize
    · obtain ⟨filled, run, -⟩ := copied.1 exact.le
      have count : spelling.leading + spelling.first.length - spelling.leading = arraySize := by omega
      simp only [fileArg0, skipped, run]
      change storeAt filled (spelling.leading + spelling.first.length - spelling.leading) 0 = _
      rw [count, storeAt_of_le _ _ le_rfl]
    · have run := copied.2 (Nat.zero_le _) (by omega)
      simp only [fileArg0, skipped, run]
      rfl

theorem fileArg0_blank {count : Nat} (line : cmd.bytes = List.replicate count space) :
    ∃ array, fileArg0 cmd = .ok array ∧ array 0 = 0 := by
  have short := cmd.short
  have length : cmd.bytes.length = count := by rw [line, List.length_replicate]
  have atEnd : cmd.charAt (0 + count) = 0 := by
    rw [Nat.zero_add, ← length]
    exact CommandLine.charAt_end
  have skipped := skipSpaces_eq (CommandLine.charAt_leading (line.trans (List.append_nil _).symm))
    (atEnd ▸ by decide) (length ▸ short.le)
  have stops : copyWord cmd count pgSize cmd.bytes.length (fun _ => 0) = .ok (cmd.bytes.length, fun _ => 0) :=
    copyWord_stops (List.append_nil _).symm (.inl rfl) _
  rw [length] at stops
  refine ⟨Function.update (fun _ => 0) 0 0, ?_, Function.update_self ..⟩
  simp only [fileArg0, skipped, Nat.zero_add, stops]
  change storeAt _ (count - count) 0 = _
  rw [Nat.sub_self, storeAt_of_lt _ _ (by decide)]

end FileArg0

namespace Stack
variable (stack : Stack)

@[simp] theorem store_myEsp (addr : Nat) (byte : UInt8) : (stack.store addr byte).myEsp = stack.myEsp := rfl

@[simp] theorem storeAll_myEsp (addr : Nat) (bytes : List UInt8) : (stack.storeAll addr bytes).myEsp = stack.myEsp := by
  induction bytes generalizing stack addr with
  | nil => rfl
  | cons byte bytes ih => exact ih _ _

@[simp] theorem push_myEsp (value : Nat) : (stack.push value).myEsp = stack.myEsp - 4 := by
  simp [push]

theorem read_store (addr other : Nat) (byte : UInt8) :
    (stack.store addr byte).read other = if other = addr then some byte else stack.read other := by
  by_cases same : other = addr
  · simp [read, store, same]
  · rw [read, store, List.lookup_cons, beq_false_of_ne same, if_neg same]
    rfl

theorem read_storeAll (addr other : Nat) (bytes : List UInt8) :
    (stack.storeAll addr bytes).read other =
      if addr ≤ other ∧ other < addr + bytes.length then bytes[other - addr]? else stack.read other := by
  induction bytes generalizing stack addr with
  | nil =>
    rw [if_neg (by simp only [List.length_nil]; omega)]
    rfl
  | cons byte bytes ih =>
    rw [storeAll, ih, read_store, List.length_cons]
    by_cases first : other = addr
    · subst first
      rw [if_neg (by omega), if_pos rfl, if_pos (by omega), Nat.sub_self]
      rfl
    · by_cases inside : addr + 1 ≤ other ∧ other < addr + 1 + bytes.length
      · have index : other - addr = other - (addr + 1) + 1 := by omega
        rw [if_pos inside, if_pos (by omega), index, List.getElem?_cons_succ]
      · rw [if_neg inside, if_neg first, if_neg (by omega)]

def Holds (text : List UInt8) : Prop := ∀ x < text.length, stack.read (stack.myEsp + x) = text[x]?

variable {stack} {front more : List UInt8}

theorem holds_storeAll (myEsp : Nat) (line : List UInt8) :
    (({ myEsp } : Stack).storeAll myEsp line).Holds line := by
  intro x below
  rw [storeAll_myEsp, read_storeAll, if_pos (by simpa using below)]
  simp

theorem Holds.charAt_eq {line : List UInt8} (holds : stack.Holds line) {x : Nat} (below : x < line.length) :
    stack.charAt x = line.getD x 0 := by
  rw [charAt, holds x below, List.getD_eq_getElem?_getD]

theorem Holds.charAt_add (holds : stack.Holds (front ++ more)) {x : Nat} (below : x < more.length) :
    stack.charAt (front.length + x) = more.getD x 0 := by
  rw [holds.charAt_eq (by rw [List.length_append]; omega), List.getD_append_right _ _ _ _ (Nat.le_add_right ..),
    Nat.add_sub_cancel_left]

theorem Holds.charAt_append {letter : UInt8} (holds : stack.Holds (front ++ letter :: more)) :
    stack.charAt front.length = letter := by
  rw [holds.charAt_eq (by simp)]
  simp

theorem Holds.store {letter : UInt8} (byte : UInt8) (holds : stack.Holds (front ++ letter :: more)) :
    (stack.store (stack.myEsp + front.length) byte).Holds (front ++ byte :: more) := by
  intro x below
  rw [read_store, store_myEsp]
  by_cases same : x = front.length
  · subst same
    simp
  · have old := holds x (by simpa using below)
    rw [if_neg (by omega), old]
    rcases Nat.lt_or_gt_of_ne same with before | after
    · rw [List.getElem?_append_left before, List.getElem?_append_left before]
    · obtain ⟨further, rfl⟩ := Nat.exists_eq_add_of_lt after
      rw [Nat.add_assoc, List.getElem?_append_right (Nat.le_add_right ..), List.getElem?_append_right (Nat.le_add_right ..),
        Nat.add_sub_cancel_left, List.getElem?_cons_succ, List.getElem?_cons_succ]

theorem Holds.cut {spaces : Nat} (holds : stack.Holds (front ++ (List.replicate (spaces + 1) space ++ more))) :
    (stack.store (stack.myEsp + front.length) 0).Holds ((front ++ 0 :: List.replicate spaces space) ++ more) := by
  rw [List.replicate_succ, List.cons_append] at holds
  simpa using holds.store 0

theorem length_cut (front more : List UInt8) (spaces : Nat) :
    ((front ++ 0 :: List.replicate spaces space) ++ more).length =
      (front ++ (List.replicate (spaces + 1) space ++ more)).length := by
  simp only [List.length_append, List.length_cons, List.length_replicate]
  omega

end Stack

namespace Words
variable (limit : Nat) {stack : Stack} {front more : List UInt8}

/-- Up to the next space the loop only advances. -/
theorem separateAll_plain {run : List UInt8} (holds : stack.Holds (front ++ (run ++ more)))
    (reaches : stack.myEsp + (front ++ (run ++ more)).length = physBase) (plain : space ∉ run) (fuel argc : Nat)
    (dataAddresses : Nat → Nat) :
    separateAll limit (run.length + fuel) ⟨stack, front.length, argc, dataAddresses⟩ =
      separateAll limit fuel ⟨stack, (front ++ run).length, argc, dataAddresses⟩ := by
  induction run generalizing front with
  | nil => simp
  | cons letter run ih =>
    have atLetter : stack.charAt front.length = letter := holds.charAt_append
    have other : letter ≠ space := fun same => plain (same ▸ List.mem_cons_self)
    have inside : stack.myEsp + front.length < physBase := by
      rw [← reaches, List.length_append, List.length_append, List.length_cons]
      omega
    have moved : front ++ (letter :: run ++ more) = (front ++ [letter]) ++ (run ++ more) := by simp
    have later := ih (moved ▸ holds) (moved ▸ reaches) fun mem => plain (List.mem_cons_of_mem _ mem)
    rw [List.length_cons, Nat.add_right_comm, separateAll, if_pos inside, separate, if_neg (atLetter ▸ other)]
    simpa using later

/-- At a run of spaces the first becomes a NUL, and the address behind the run is stored. -/
theorem separateAll_gap {letter : UInt8} {spaces : Nat}
    (holds : stack.Holds (front ++ (List.replicate (spaces + 1) space ++ letter :: more)))
    (reaches : stack.myEsp + (front ++ (List.replicate (spaces + 1) space ++ letter :: more)).length = physBase)
    (plain : letter ≠ space) (enough : spaces ≤ limit) (argc : Nat) {count : Nat}
    (counted : (if letter ≠ 0 then argc + 1 else argc) = count) (fuel : Nat) (dataAddresses : Nat → Nat) :
    separateAll limit (fuel + 1) ⟨stack, front.length, argc, dataAddresses⟩ = (do
      let dataAddresses ← storeAt dataAddresses (count - 1) (stack.myEsp + (front.length + spaces) + 1)
      separateAll limit fuel
        ⟨stack.store (stack.myEsp + front.length) 0, front.length + spaces + 1, count, dataAddresses⟩) := by
  have inside : stack.myEsp + front.length < physBase := by
    rw [← reaches, List.length_append, List.length_append, List.length_replicate]
    omega
  rw [List.replicate_succ, List.cons_append] at holds
  have atSpace : stack.charAt front.length = space := holds.charAt_append
  have cut := holds.store 0
  have skipped : ∀ j < spaces, (stack.store (stack.myEsp + front.length) 0).charAt (front.length + j + 1) = space := by
    intro j below
    rw [Nat.add_assoc, cut.charAt_add (by simp; omega)]
    simp [List.getElem?_append_left, below]
  have atLetter : (stack.store (stack.myEsp + front.length) 0).charAt (front.length + spaces + 1) = letter := by
    rw [Nat.add_assoc, cut.charAt_add (by simp)]
    simp
  have stops : skipSpaces (fun x => (stack.store (stack.myEsp + front.length) 0).charAt (x + 1)) limit front.length =
      front.length + spaces := skipSpaces_eq skipped (by rw [atLetter]; exact plain) enough
  rw [separateAll, if_pos inside, separate, if_pos atSpace]
  simp only [stops, atLetter, plain, ne_eq, not_false_eq_true, true_and, Stack.store_myEsp]
  rw [← counted]
  cases storeAt dataAddresses ((if ¬letter = 0 then argc + 1 else argc) - 1)
    (stack.myEsp + (front.length + spaces) + 1) <;> rfl

/-- What the loop leaves of the part of a line behind a word. -/
def cutTail (trailing : Nat) : List (Nat × List UInt8) → List UInt8
  | [] => if trailing = 0 then [] else 0 :: List.replicate (trailing - 1) space
  | (spaces, word) :: rest => 0 :: (List.replicate spaces space ++ (word ++ cutTail trailing rest))

def addresses (trailing myEsp : Nat) : List (Nat × List UInt8) → Nat → Nat → (Nat → Nat) → Nat → Nat
  | [], x, argc, data =>
    if trailing = 0 then data else Function.update data (argc - 1) (myEsp + (x + (trailing - 1)) + 1)
  | (spaces, word) :: rest, x, argc, data =>
    addresses trailing myEsp rest (x + spaces + 1 + word.length) (argc + 1)
      (Function.update data argc (myEsp + (x + spaces) + 1))

def Plain (rest : List (Nat × List UInt8)) : Prop := ∀ next ∈ rest, IsWord space next.2 ∧ 0 ∉ next.2

theorem separateAll_end (stack : Stack) (x argc fuel : Nat) (dataAddresses : Nat → Nat)
    (reached : physBase ≤ stack.myEsp + x) :
    separateAll limit fuel ⟨stack, x, argc, dataAddresses⟩ = .ok ⟨stack, x, argc, dataAddresses⟩ := by
  cases fuel with
  | zero => rfl
  | succ fuel => rw [separateAll, if_neg (Nat.not_lt.mpr reached)]

theorem separateAll_nul (holds : stack.Holds (front ++ [0])) (reaches : stack.myEsp + (front ++ [0]).length = physBase)
    (argc fuel : Nat) (dataAddresses : Nat → Nat) (enough : 0 < fuel) :
    separateAll limit fuel ⟨stack, front.length, argc, dataAddresses⟩ =
      .ok ⟨stack, front.length + 1, argc, dataAddresses⟩ := by
  obtain ⟨fuel, rfl⟩ := Nat.exists_eq_add_of_le' enough
  have shape : front ++ [0] = front ++ ([0] ++ []) := rfl
  have passed := separateAll_plain limit (shape ▸ holds) (shape ▸ reaches) (by decide) fuel argc dataAddresses
  rw [List.length_append] at passed reaches
  rw [List.length_singleton] at passed reaches
  rw [Nat.succ_eq_add_one, Nat.zero_add, Nat.add_comm, passed, separateAll_end _ _ _ _ _ _ reaches.ge]

theorem separateAll_word {spaces : Nat} {word : List UInt8} (isWord : IsWord space word ∧ 0 ∉ word)
    (holds : stack.Holds (front ++ (List.replicate (spaces + 1) space ++ (word ++ more))))
    (reaches : stack.myEsp + (front ++ (List.replicate (spaces + 1) space ++ (word ++ more))).length = physBase)
    (enough : spaces ≤ limit) (argc fuel : Nat) (dataAddresses : Nat → Nat) :
    separateAll limit (fuel + (word.length + 1)) ⟨stack, front.length, argc, dataAddresses⟩ = (do
      let dataAddresses ← storeAt dataAddresses argc (stack.myEsp + (front.length + spaces) + 1)
      separateAll limit fuel ⟨stack.store (stack.myEsp + front.length) 0,
        (front ++ 0 :: List.replicate spaces space ++ word).length, argc + 1, dataAddresses⟩) := by
  obtain ⟨letter, letters, rfl⟩ := List.exists_cons_of_ne_nil isWord.1.1
  have notSpace : letter ≠ space := fun same => isWord.1.2 (same ▸ List.mem_cons_self)
  have notNul : letter ≠ 0 := fun same => isWord.2 (same ▸ List.mem_cons_self)
  have gap := separateAll_gap limit holds reaches notSpace enough argc (if_pos notNul)
    ((letter :: letters).length + fuel) dataAddresses
  rw [← Stack.length_cut] at reaches
  have passed := separateAll_plain limit holds.cut reaches isWord.1.2 fuel (argc + 1)
  have length : (front ++ 0 :: List.replicate spaces space).length = front.length + spaces + 1 := by
    simp [Nat.add_assoc]
  rw [length] at passed
  rw [Nat.add_comm fuel, Nat.add_right_comm, gap, Nat.add_sub_cancel]
  simp only [passed]

theorem tail_cons (trailing spaces : Nat) (word : List UInt8) (rest : List (Nat × List UInt8)) :
    Spelling.tail space trailing ((spaces, word) :: rest) ++ [0] =
      List.replicate (spaces + 1) space ++ (word ++ (Spelling.tail space trailing rest ++ [0])) := by
  simp [Spelling.tail]

/-- The loop behind a word, as long as the words have elements of the array. -/
theorem separateAll_tail {trailing : Nat} {rest : List (Nat × List UInt8)} (plain : Plain rest)
    (holds : stack.Holds (front ++ (Spelling.tail space trailing rest ++ [0])))
    (reaches : stack.myEsp + (front ++ (Spelling.tail space trailing rest ++ [0])).length = physBase)
    {fuel argc : Nat} (dataAddresses : Nat → Nat) (enough : (Spelling.tail space trailing rest ++ [0]).length ≤ fuel)
    (short : (Spelling.tail space trailing rest).length ≤ limit) (some : 1 ≤ argc)
    (fits : argc + rest.length ≤ arraySize) :
    ∃ words, separateAll limit fuel ⟨stack, front.length, argc, dataAddresses⟩ = .ok words
      ∧ words.argc = argc + rest.length ∧ words.stack.myEsp = stack.myEsp
      ∧ words.stack.Holds (front ++ (cutTail trailing rest ++ [0]))
      ∧ words.dataAddresses = addresses trailing stack.myEsp rest front.length argc dataAddresses := by
  induction rest generalizing front stack fuel argc dataAddresses with
  | nil =>
    rw [List.length_append, List.length_singleton] at enough
    cases trailing with
    | zero =>
      refine ⟨_, separateAll_nul limit (by simpa [Spelling.tail] using holds) (by simpa [Spelling.tail] using reaches) _ _ _
        (by omega), rfl, rfl, by simpa [Spelling.tail, cutTail] using holds, rfl⟩
    | succ trailing =>
      simp only [Spelling.tail, List.length_replicate] at enough short holds reaches
      obtain ⟨fuel, rfl⟩ := Nat.exists_eq_add_of_le' (show 1 ≤ fuel by omega)
      have cut : (stack.store (stack.myEsp + front.length) 0).Holds _ := holds.cut
      have length : (front ++ 0 :: List.replicate trailing space).length = front.length + trailing + 1 := by
        simp [Nat.add_assoc]
      have passed := separateAll_nul limit cut (by simpa using reaches) argc fuel
        (Function.update dataAddresses (argc - 1) (stack.myEsp + (front.length + trailing) + 1)) (by omega)
      rw [length] at passed
      have gap := separateAll_gap limit holds reaches (by decide) (by omega) argc (if_neg (by decide)) fuel dataAddresses
      have index : argc - 1 < arraySize := by
        simp only [List.length_nil] at fits
        omega
      rw [storeAt_of_lt _ _ index] at gap
      exact ⟨_, gap.trans passed, rfl, rfl, by simpa [cutTail] using cut, rfl⟩
  | cons next rest ih =>
    obtain ⟨spaces, word⟩ := next
    obtain ⟨isWord, others⟩ := List.forall_mem_cons.mp plain
    simp only [List.length_cons] at fits
    rw [tail_cons] at holds reaches enough
    simp only [Spelling.tail, List.length_append, List.length_replicate] at enough short
    obtain ⟨fuel, rfl⟩ := Nat.exists_eq_add_of_le' (show word.length + 1 ≤ fuel by omega)
    have first := separateAll_word limit isWord holds reaches (by omega) argc fuel dataAddresses
    rw [storeAt_of_lt _ _ (by omega)] at first
    have cut := holds.cut
    rw [← Stack.length_cut, ← List.append_assoc] at reaches
    rw [← List.append_assoc] at cut
    obtain ⟨words, run, count, same, left, data⟩ := ih others cut reaches
      (Function.update dataAddresses argc (stack.myEsp + (front.length + spaces) + 1))
      (show (Spelling.tail space trailing rest ++ [0]).length ≤ fuel by rw [List.length_append]; omega)
      (by omega) (Nat.succ_pos argc) (by omega)
    have length : (front ++ 0 :: List.replicate spaces space ++ word).length = front.length + spaces + 1 + word.length := by
      simp only [List.length_append, List.length_cons, List.length_replicate]
      omega
    rw [length] at data
    refine ⟨words, first.trans run, by rw [count, List.length_cons]; omega, same, ?_, data⟩
    simpa [cutTail] using left

/-- With too many words the loop comes to the element behind the array. -/
theorem separateAll_overrun {trailing : Nat} {rest : List (Nat × List UInt8)} (plain : Plain rest)
    (holds : stack.Holds (front ++ (Spelling.tail space trailing rest ++ [0])))
    (reaches : stack.myEsp + (front ++ (Spelling.tail space trailing rest ++ [0])).length = physBase)
    {fuel argc : Nat} (dataAddresses : Nat → Nat) (enough : (Spelling.tail space trailing rest).length ≤ fuel)
    (short : (Spelling.tail space trailing rest).length ≤ limit) (low : argc ≤ arraySize)
    (many : arraySize < argc + rest.length) :
    separateAll limit fuel ⟨stack, front.length, argc, dataAddresses⟩ = .error arraySize := by
  induction rest generalizing front stack fuel argc dataAddresses with
  | nil =>
    simp only [List.length_nil] at many
    omega
  | cons next rest ih =>
    obtain ⟨spaces, word⟩ := next
    obtain ⟨isWord, others⟩ := List.forall_mem_cons.mp plain
    simp only [List.length_cons] at many
    rw [tail_cons] at holds reaches
    simp only [Spelling.tail, List.length_append, List.length_replicate] at enough short
    obtain ⟨fuel, rfl⟩ := Nat.exists_eq_add_of_le' (show word.length + 1 ≤ fuel by omega)
    rw [separateAll_word limit isWord holds reaches (by omega) argc fuel dataAddresses]
    by_cases below : argc < arraySize
    · rw [storeAt_of_lt _ _ below]
      have cut := holds.cut
      rw [← Stack.length_cut, ← List.append_assoc] at reaches
      rw [← List.append_assoc] at cut
      exact ih others cut reaches _ (by omega) (by omega) below (by omega)
    · rw [storeAt_of_le _ _ (by omega), show argc = arraySize by omega]
      rfl

end Words

namespace CommandLine
variable {cmd : CommandLine}

/-- The number of words as `setup_stack` counts them: a line of spaces has one. -/
def argc (cmd : CommandLine) : Nat := max 1 (wordsOf space cmd.bytes).length

theorem onStack_myEsp (cmd : CommandLine) : cmd.onStack.myEsp = physBase - (cmd.bytes.length + 1) := by
  simp [onStack]

theorem onStack_reaches (cmd : CommandLine) : cmd.onStack.myEsp + (cmd.bytes ++ [0]).length = physBase := by
  have short := cmd.short
  rw [onStack_myEsp, List.length_append, List.length_singleton]
  simp only [pgSize, physBase] at short ⊢
  omega

theorem onStack_holds (cmd : CommandLine) : cmd.onStack.Holds (cmd.bytes ++ [0]) := Stack.holds_storeAll _ _

theorem plain_of_line {spelling : Spelling space} (line : cmd.bytes = spelling.line) : Words.Plain spelling.rest := by
  intro next mem
  refine ⟨spelling.rest_words next mem, fun nul => cmd.noNul (line ▸ Spelling.mem_line ?_ nul)⟩
  exact List.mem_cons_of_mem _ (List.mem_map_of_mem mem)

theorem argc_spelling {spelling : Spelling space} (line : cmd.bytes = spelling.line) :
    cmd.argc = spelling.rest.length + 1 := by
  rw [argc, line, spelling.wordsOf_line, Spelling.words, List.length_cons, List.length_map]
  omega

theorem argc_blank {count : Nat} (line : cmd.bytes = List.replicate count space) : cmd.argc = 1 := by
  have empty : wordsOf space (List.replicate count space ++ []) = [] := by
    rw [wordsOf_replicate, wordsOf_nil]
  rw [argc, line, ← List.append_nil (List.replicate count space), empty]
  rfl

end CommandLine

section SeparateWords
variable {cmd : CommandLine}

def firstAddress (myEsp : Nat) : Nat → Nat := Function.update (fun _ => 0) 0 myEsp

theorem separateWords_eq {leading : Nat} {more : List UInt8} {letter : UInt8}
    (line : cmd.bytes ++ [0] = List.replicate leading space ++ letter :: more) (plain : letter ≠ space) :
    separateWords cmd.onStack (cmd.bytes.length + 1) =
      Words.separateAll (cmd.bytes.length + 1) (cmd.bytes.length + 1)
        ⟨cmd.onStack, (List.replicate leading space).length, 1, firstAddress cmd.onStack.myEsp⟩ := by
  have holds := cmd.onStack_holds
  have length := congrArg List.length line
  simp only [List.length_append, List.length_cons, List.length_nil, List.length_replicate] at length
  rw [line] at holds
  have skipped : ∀ j < leading, cmd.onStack.charAt (0 + j) = space := by
    intro j below
    rw [Nat.zero_add, holds.charAt_eq (by simp; omega)]
    simp [List.getElem?_append_left, below]
  have atLetter : cmd.onStack.charAt (0 + leading) = letter := by
    simpa using holds.charAt_append
  have stops := skipSpaces_eq skipped (by rw [atLetter]; exact plain)
    (show leading ≤ cmd.bytes.length + 1 by omega)
  simp only [separateWords, stops, storeAt_of_lt _ _ (show 0 < arraySize by decide), Nat.zero_add, List.length_replicate]
  rfl

theorem separateWords_spelling {spelling : Spelling space} (line : cmd.bytes = spelling.line) :
    (cmd.argc ≤ arraySize →
      ∃ words, separateWords cmd.onStack (cmd.bytes.length + 1) = .ok words
        ∧ words.argc = cmd.argc ∧ words.stack.myEsp = cmd.onStack.myEsp
        ∧ words.stack.Holds ((List.replicate spelling.leading space ++ spelling.first) ++
            (Words.cutTail spelling.trailing spelling.rest ++ [0]))
        ∧ words.dataAddresses = Words.addresses spelling.trailing cmd.onStack.myEsp spelling.rest
            (List.replicate spelling.leading space ++ spelling.first).length 1 (firstAddress cmd.onStack.myEsp))
    ∧ (arraySize < cmd.argc → separateWords cmd.onStack (cmd.bytes.length + 1) = .error arraySize) := by
  have shape : cmd.bytes ++ [0] = List.replicate spelling.leading space ++ (spelling.first ++
      (Spelling.tail space spelling.trailing spelling.rest ++ [0])) := by
    rw [line, Spelling.line]
    simp
  have holds := cmd.onStack_holds
  have reaches := cmd.onStack_reaches
  have length := congrArg List.length shape
  simp only [List.length_append, List.length_singleton] at length
  rw [shape] at holds reaches
  obtain ⟨fuel, total⟩ := Nat.exists_eq_add_of_le (show spelling.first.length ≤ cmd.bytes.length + 1 by omega)
  obtain ⟨letter, letters, first⟩ := List.exists_cons_of_ne_nil spelling.first_word.1
  have notSpace : letter ≠ space := fun same => spelling.first_word.2 (by simp [first, same])
  have starts : cmd.bytes ++ [0] = List.replicate spelling.leading space ++ letter :: (letters ++
      (Spelling.tail space spelling.trailing spelling.rest ++ [0])) := by
    rw [shape, first, List.cons_append]
  have run := (separateWords_eq starts notSpace).trans ((congrArg (Words.separateAll _ · _) total).trans
    (Words.separateAll_plain _ holds reaches spelling.first_word.2 fuel 1 _))
  rw [← List.append_assoc] at holds reaches
  have plain := CommandLine.plain_of_line line
  rw [CommandLine.argc_spelling line, run]
  refine ⟨fun fits => ?_, fun many => ?_⟩
  · obtain ⟨words, run, count, same⟩ := Words.separateAll_tail (cmd.bytes.length + 1) plain holds reaches
      (firstAddress cmd.onStack.myEsp)
      (show (Spelling.tail space spelling.trailing spelling.rest ++ [0]).length ≤ fuel by
        rw [List.length_append, List.length_singleton]
        omega) (by omega) le_rfl (by omega)
    exact ⟨words, run, by omega, same⟩
  · exact Words.separateAll_overrun _ plain holds reaches _ (by omega) (by omega) (by decide) (by omega)

theorem separateWords_blank {count : Nat} (line : cmd.bytes = List.replicate count space) :
    ∃ words, separateWords cmd.onStack (cmd.bytes.length + 1) = .ok words
      ∧ words.argc = cmd.argc ∧ words.stack.myEsp = cmd.onStack.myEsp := by
  have holds := cmd.onStack_holds
  have reaches := cmd.onStack_reaches
  have passed := Words.separateAll_nul (cmd.bytes.length + 1) holds reaches 1 (cmd.bytes.length + 1)
    (firstAddress cmd.onStack.myEsp) (Nat.succ_pos _)
  have run := separateWords_eq (show cmd.bytes ++ [0] = _ ++ 0 :: [] by rw [line]) (by decide)
  rw [← line] at run
  exact ⟨_, run.trans passed, (CommandLine.argc_blank line).symm, rfl⟩

theorem separateWords_counts (cmd : CommandLine) :
    (cmd.argc ≤ arraySize →
      ∃ words, separateWords cmd.onStack (cmd.bytes.length + 1) = .ok words
        ∧ words.argc = cmd.argc ∧ words.stack.myEsp = cmd.onStack.myEsp)
    ∧ (arraySize < cmd.argc → separateWords cmd.onStack (cmd.bytes.length + 1) = .error arraySize) := by
  obtain ⟨spelling, line⟩ | ⟨count, line⟩ := spelled_or_blank space cmd.bytes
  · obtain ⟨fits, many⟩ := separateWords_spelling line.symm
    refine ⟨fun low => ?_, many⟩
    obtain ⟨words, run, counted, same, -⟩ := fits low
    exact ⟨words, run, counted, same⟩
  · refine ⟨fun _ => separateWords_blank line, fun many => ?_⟩
    rw [CommandLine.argc_blank line] at many
    exact absurd many (by decide)

end SeparateWords

/-! ### The arrays of 128 elements -/

section Arrays
variable (cmd : CommandLine)

def CommandLine.firstWord : List UInt8 := (wordsOf space cmd.bytes).headD []

theorem fileArg0_ok_iff : (∃ array, fileArg0 cmd = .ok array) ↔ cmd.firstWord.length < arraySize := by
  obtain ⟨spelling, line⟩ | ⟨count, line⟩ := spelled_or_blank space cmd.bytes
  · have first : cmd.firstWord = spelling.first := by
      rw [CommandLine.firstWord, ← line, spelling.wordsOf_line]
      rfl
    obtain ⟨fits, long⟩ := fileArg0_spelling line.symm
    rw [first]
    constructor
    · rintro ⟨array, run⟩
      by_contra beyond
      rw [long (Nat.le_of_not_lt beyond)] at run
      cases run
    · intro below
      obtain ⟨array, run, -⟩ := fits below
      exact ⟨array, run⟩
  · have first : cmd.firstWord = [] := by
      rw [CommandLine.firstWord, line, ← List.append_nil (List.replicate count space), wordsOf_replicate, wordsOf_nil]
      rfl
    obtain ⟨array, run, -⟩ := fileArg0_blank line
    rw [first]
    exact ⟨fun _ => by decide, fun _ => ⟨array, run⟩⟩

/-- Everything `setup_stack` can do with the line. -/
theorem argumentStack_cases :
    availStackSpace ≤ cmd.bytes.length ∧ argumentStack cmd = .tooLong ∨
    cmd.bytes.length < availStackSpace ∧ arraySize < cmd.argc ∧ argumentStack cmd = .overrun arraySize ∨
    ∃ words, separateWords cmd.onStack (cmd.bytes.length + 1) = .ok words ∧ words.argc = cmd.argc
      ∧ words.stack.myEsp = cmd.onStack.myEsp ∧ cmd.bytes.length < availStackSpace
      ∧ (availStackSpace - (cmd.bytes.length + 1) < cmd.argc * 4 ∧ cmd.argc ≤ arraySize
          ∧ argumentStack cmd = .noRoom words.stack
        ∨ cmd.argc * 4 ≤ availStackSpace - (cmd.bytes.length + 1) ∧ cmd.argc = arraySize
          ∧ argumentStack cmd = .overrun arraySize
        ∨ cmd.argc * 4 ≤ availStackSpace - (cmd.bytes.length + 1) ∧ cmd.argc < arraySize
          ∧ argumentStack cmd = .built (pushAll words.stack cmd.argc (Function.update words.dataAddresses cmd.argc 0))) := by
  obtain ⟨fits, many⟩ := separateWords_counts cmd
  by_cases long : availStackSpace < cmd.bytes.length + 1
  · exact .inl ⟨by omega, if_pos long⟩
  refine .inr ?_
  simp only [argumentStack, if_neg long]
  by_cases beyond : arraySize < cmd.argc
  · refine .inl ⟨by omega, beyond, ?_⟩
    rw [many beyond]
  · obtain ⟨words, run, counted, same⟩ := fits (by omega)
    refine .inr ⟨words, run, counted, same, by omega, ?_⟩
    simp only [run, counted]
    by_cases room : availStackSpace - (cmd.bytes.length + 1) < cmd.argc * 4
    · exact .inl ⟨room, by omega, if_pos room⟩
    · rw [if_neg room]
      by_cases full : cmd.argc = arraySize
      · refine .inr (.inl ⟨by omega, full, ?_⟩)
        rw [storeAt_of_le _ _ full.ge, full]
      · refine .inr (.inr ⟨by omega, by omega, ?_⟩)
        rw [storeAt_of_lt _ _ (by omega)]

theorem argumentStack_overrun_iff :
    (∃ index, argumentStack cmd = .overrun index) ↔
      cmd.bytes.length < availStackSpace
        ∧ (arraySize < cmd.argc ∨ cmd.argc = arraySize ∧ cmd.argc * 4 ≤ availStackSpace - (cmd.bytes.length + 1)) := by
  obtain ⟨long, outcome⟩ | ⟨short, many, outcome⟩ | ⟨words, -, -, -, short, ⟨room, small, outcome⟩ | ⟨room, full, outcome⟩
    | ⟨room, small, outcome⟩⟩ := argumentStack_cases cmd
  · simp only [outcome, reduceCtorEq, exists_false, false_iff]
    omega
  · exact iff_of_true ⟨_, outcome⟩ ⟨short, .inl many⟩
  · simp only [outcome, reduceCtorEq, exists_false, false_iff]
    omega
  · exact iff_of_true ⟨_, outcome⟩ ⟨short, .inr ⟨full, room⟩⟩
  · simp only [outcome, reduceCtorEq, exists_false, false_iff]
    omega

/-- No store to `fileArg0` or `dataAddresses` is outside of the array, exactly for a first word of less than 128
letters on a line that is rejected for its length, has less than 128 words, or has 128 of them with no room for their
addresses. -/
theorem array_indices_below_iff :
    ((∃ array, fileArg0 cmd = .ok array) ∧ ∀ index, argumentStack cmd ≠ .overrun index) ↔
      cmd.firstWord.length < arraySize
        ∧ (availStackSpace ≤ cmd.bytes.length ∨ cmd.argc < arraySize
          ∨ cmd.argc = arraySize ∧ availStackSpace - (cmd.bytes.length + 1) < cmd.argc * 4) := by
  have overrun := not_congr (argumentStack_overrun_iff cmd)
  rw [not_exists] at overrun
  rw [fileArg0_ok_iff, overrun]
  refine and_congr_right fun _ => ?_
  omega

def longName : CommandLine where
  bytes := List.replicate 128 97
  noNul := by decide +kernel
  short := by decide +kernel

def manyWords : CommandLine where
  bytes := (List.replicate 128 [97, space]).flatten ++ [97]
  noNul := by decide +kernel
  short := by decide +kernel

theorem long_name_and_many_words_overrun :
    (¬∃ array, fileArg0 longName = .ok array) ∧ ∃ index, argumentStack manyWords = .overrun index := by
  refine ⟨?_, ?_⟩
  · rw [fileArg0_ok_iff]
    decide +kernel
  · rw [argumentStack_overrun_iff]
    decide +kernel

end Arrays

end Pintos.Process.Arguments
