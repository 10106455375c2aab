import Mathlib.Algebra.Group.Int.Defs
import Mathlib.Algebra.Group.Nat.Defs
import Mathlib.Data.List.Basic

/-! Lines of words between separators.

The words of a line are its maximal runs without a separator. A spelling is the
converse: words with the runs of separators around them. Every line that has a
word is the line of a spelling.
-/

set_option autoImplicit false

namespace Semantics

variable {α : Type}

def wordsOf [DecidableEq α] (gap : α) (line : List α) : List (List α) :=
  (line.splitOn gap).filter fun word => !word.isEmpty

def IsWord (gap : α) (word : List α) : Prop := word ≠ [] ∧ gap ∉ word

theorem IsWord.singleton {gap letter : α} (plain : letter ≠ gap) : IsWord gap [letter] := by
  refine ⟨List.cons_ne_nil _ _, ?_⟩
  simpa using plain.symm

theorem IsWord.cons {gap letter : α} {word : List α} (plain : letter ≠ gap) (isWord : IsWord gap word) :
    IsWord gap (letter :: word) := by
  refine ⟨List.cons_ne_nil _ _, ?_⟩
  simpa using ⟨plain.symm, isWord.2⟩

/-- A line by its words. Before each word of `rest` stands one separator and `rest`'s count of further ones. -/
structure Spelling (gap : α) where
  leading : Nat
  first : List α
  rest : List (Nat × List α)
  trailing : Nat
  first_word : IsWord gap first
  rest_words : ∀ next ∈ rest, IsWord gap next.2

namespace Spelling
variable {gap : α} (spelling : Spelling gap)

/-- The part of a line from the separators after a word on. -/
def tail (gap : α) (trailing : Nat) : List (Nat × List α) → List α
  | [] => List.replicate trailing gap
  | (spaces, word) :: rest => List.replicate (spaces + 1) gap ++ (word ++ tail gap trailing rest)

def line : List α :=
  List.replicate spelling.leading gap ++ (spelling.first ++ tail gap spelling.trailing spelling.rest)

def words : List (List α) := spelling.first :: spelling.rest.map Prod.snd

theorem isWord_of_mem {word : List α} (mem : word ∈ spelling.words) : IsWord gap word := by
  rcases List.mem_cons.mp mem with rfl | among
  · exact spelling.first_word
  · obtain ⟨next, later, rfl⟩ := List.mem_map.mp among
    exact spelling.rest_words next later

theorem mem_tail {trailing : Nat} {rest : List (Nat × List α)} {next : Nat × List α} (mem : next ∈ rest) {letter : α}
    (inWord : letter ∈ next.2) : letter ∈ tail gap trailing rest := by
  induction rest with
  | nil => simp at mem
  | cons other rest ih =>
    rcases List.mem_cons.mp mem with rfl | mem
    · simp [tail, inWord]
    · simp [tail, ih mem]

theorem mem_line {spelling : Spelling gap} {word : List α} (mem : word ∈ spelling.words) {letter : α}
    (inWord : letter ∈ word) : letter ∈ spelling.line := by
  rcases List.mem_cons.mp mem with rfl | among
  · simp [line, inWord]
  · obtain ⟨next, later, rfl⟩ := List.mem_map.mp among
    simp [line, mem_tail later inWord]

theorem head?_line (spelling : Spelling gap) : spelling.line.head? = some gap ↔ spelling.leading ≠ 0 := by
  obtain ⟨letter, letters, first⟩ := List.exists_cons_of_ne_nil spelling.first_word.1
  have plain : letter ≠ gap := fun same => spelling.first_word.2 (by simp [first, same])
  cases count : spelling.leading with
  | zero => simp [line, count, first, plain]
  | succ leading => simp [line, count, List.replicate_succ]

theorem getLast?_tail {word : List α} (isWord : IsWord gap word) (trailing : Nat) {rest : List (Nat × List α)}
    (restWords : ∀ next ∈ rest, IsWord gap next.2) :
    (word ++ tail gap trailing rest).getLast? = some gap ↔ trailing ≠ 0 := by
  induction rest generalizing word with
  | nil =>
    cases trailing with
    | zero =>
      have last : word.getLast? ≠ some gap := fun same => isWord.2 (List.mem_of_getLast? same)
      simpa [tail] using last
    | succ trailing => simp [tail, List.replicate_succ']
  | cons next rest ih =>
    obtain ⟨isNext, others⟩ := List.forall_mem_cons.mp restWords
    have more : next.2 ++ tail gap trailing rest ≠ [] := by
      simp [isNext.1]
    rw [tail, ← List.append_assoc, List.getLast?_append_of_ne_nil _ more]
    exact ih isNext others

theorem getLast?_line (spelling : Spelling gap) : spelling.line.getLast? = some gap ↔ spelling.trailing ≠ 0 := by
  have more : spelling.first ++ tail gap spelling.trailing spelling.rest ≠ [] := by
    simp [spelling.first_word.1]
  rw [line, List.getLast?_append_of_ne_nil _ more]
  exact getLast?_tail spelling.first_word _ spelling.rest_words

end Spelling

section Words
variable [DecidableEq α] {gap : α}

@[simp] theorem wordsOf_nil : wordsOf gap [] = [] := by
  simp [wordsOf]

@[simp] theorem wordsOf_gap (line : List α) : wordsOf gap (gap :: line) = wordsOf gap line := by
  simp [wordsOf, List.splitOn, List.splitOnP_cons_eq_if_modifyHead]

@[simp] theorem wordsOf_replicate (count : Nat) (line : List α) :
    wordsOf gap (List.replicate count gap ++ line) = wordsOf gap line := by
  induction count with
  | zero => rfl
  | succ count ih => rw [List.replicate_succ, List.cons_append, wordsOf_gap, ih]

theorem wordsOf_word {word : List α} (isWord : IsWord gap word) : wordsOf gap word = [word] := by
  have plain : ∀ letter ∈ word, (letter == gap) = false := by
    intro letter mem
    exact beq_false_of_ne fun same => isWord.2 (same ▸ mem)
  simp [wordsOf, List.splitOn, List.splitOnP_eq_singleton plain, isWord.1]

theorem wordsOf_word_gap {word : List α} (isWord : IsWord gap word) (line : List α) :
    wordsOf gap (word ++ gap :: line) = word :: wordsOf gap line := by
  have plain : ∀ letter ∈ word, (letter == gap) = false := by
    intro letter mem
    exact beq_false_of_ne fun same => isWord.2 (same ▸ mem)
  simp [wordsOf, List.splitOn, List.splitOnP_append_cons_of_forall_mem plain, isWord.1]

theorem wordsOf_tail {word : List α} (isWord : IsWord gap word) (trailing : Nat) (rest : List (Nat × List α))
    (restWords : ∀ next ∈ rest, IsWord gap next.2) :
    wordsOf gap (word ++ Spelling.tail gap trailing rest) = word :: rest.map Prod.snd := by
  induction rest generalizing word with
  | nil =>
    cases trailing with
    | zero => simpa [Spelling.tail] using wordsOf_word isWord
    | succ trailing =>
      have empty : wordsOf gap (List.replicate trailing gap) = [] := by
        simpa using wordsOf_replicate trailing ([] : List α)
      rw [Spelling.tail, List.replicate_succ, wordsOf_word_gap isWord, empty, List.map_nil]
  | cons next rest ih =>
    obtain ⟨spaces, other⟩ := next
    rw [Spelling.tail, List.replicate_succ, List.cons_append, wordsOf_word_gap isWord, wordsOf_replicate,
      ih (restWords _ List.mem_cons_self) fun next mem => restWords next (List.mem_cons_of_mem _ mem)]
    rfl

theorem Spelling.wordsOf_line (spelling : Spelling gap) : wordsOf gap spelling.line = spelling.words := by
  rw [Spelling.line, wordsOf_replicate, wordsOf_tail spelling.first_word _ _ spelling.rest_words, Spelling.words]

theorem Spelling.exists_cons (spelling : Spelling gap) (letter : α) :
    ∃ longer : Spelling gap, longer.line = letter :: spelling.line := by
  obtain ⟨leading, first, rest, trailing, firstWord, restWords⟩ := spelling
  by_cases isGap : letter = gap
  · exact ⟨⟨leading + 1, first, rest, trailing, firstWord, restWords⟩, by simp [line, isGap, List.replicate_succ]⟩
  cases leading with
  | zero => exact ⟨⟨0, letter :: first, rest, trailing, firstWord.cons isGap, restWords⟩, by simp [line]⟩
  | succ leading =>
    have further : ∀ next ∈ (leading, first) :: rest, IsWord gap next.2 := by
      intro next mem
      rcases List.mem_cons.mp mem with rfl | mem
      · exact firstWord
      · exact restWords next mem
    exact ⟨⟨0, [letter], (leading, first) :: rest, trailing, .singleton isGap, further⟩, by simp [line, tail]⟩

/-- A line without a word is nothing but separators, and any other line has a spelling. -/
theorem spelled_or_blank (gap : α) (line : List α) :
    (∃ spelling : Spelling gap, spelling.line = line) ∨ ∃ count, line = List.replicate count gap := by
  induction line with
  | nil => exact .inr ⟨0, rfl⟩
  | cons letter line ih =>
    obtain ⟨spelling, rfl⟩ | ⟨count, rfl⟩ := ih
    · exact .inl (spelling.exists_cons letter)
    · by_cases isGap : letter = gap
      · exact .inr ⟨count + 1, by rw [isGap, List.replicate_succ]⟩
      · refine .inl ⟨⟨0, [letter], [], count, .singleton isGap, by simp⟩, ?_⟩
        simp [Spelling.line, Spelling.tail]

end Words

end Semantics
