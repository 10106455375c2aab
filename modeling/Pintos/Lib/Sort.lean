import Pintos.Lib.Search
import Pintos.Semantics.Heaps
import Pintos.Semantics.Overlay

/-! `sort` and `qsort` (`lib/stdlib.c`): a heap sort on the bytes of an array. -/

set_option autoImplicit false

namespace Pintos.Lib.Stdlib
open Semantics Heaps

/-- An array of elements of some bytes each. No object has `2 ^ 31` bytes, the
differences of its addresses being `ptrdiff_t`. -/
structure Elements where
  array : Nat
  cnt : Nat
  size : Nat
  positive : 0 < size
  object : cnt * size < 2 ^ 31

namespace Elements
variable (v : Elements)

def address (index : Nat) : Nat := v.array + (index - 1) * v.size

/-- The bytes of an element by its 1-based index; index 0 is no element. -/
def element (memory : Nat → UInt8) : Nat → List UInt8
  | 0 => []
  | index + 1 => window memory (v.address (index + 1)) v.size

def Has (index : Nat) : Prop := 1 ≤ index ∧ index ≤ v.cnt

instance (index : Nat) : Decidable (v.Has index) := inferInstanceAs (Decidable (_ ∧ _))

def swapLoop (memory : Nat → UInt8) (a b : Nat) : Nat → Nat → UInt8
  | 0 => memory
  | i + 1 =>
    let before := swapLoop memory a b i
    Function.update (Function.update before (a + i) (before (b + i))) (b + i) (before (a + i))

def doSwap (memory : Nat → UInt8) (a b : Nat) : Option (Nat → UInt8) :=
  if v.Has a ∧ v.Has b then some (swapLoop memory (v.address a) (v.address b) v.size) else none

variable (compare : List UInt8 → List UInt8 → Int)

def doCompare (memory : Nat → UInt8) (a b : Nat) : Option Int :=
  if v.Has a ∧ v.Has b then some (compare (v.element memory a) (v.element memory b)) else none

def greater (memory : Nat → UInt8) (cnt child max : Nat) : Option Nat :=
  if child ≤ cnt then (v.doCompare compare memory child max).map fun cmp => if 0 < cmp then child else max else some max

/-- `heapify`; `none` for an access outside the array, or without fuel. -/
def heapify : Nat → (Nat → UInt8) → Nat → Nat → Option (Nat → UInt8)
  | 0, _, _, _ => none
  | fuel + 1, memory, i, cnt => do
    let left := 2 * i % 2 ^ 32
    let right := (2 * i + 1) % 2 ^ 32
    let max ← v.greater compare memory cnt left i
    let max ← v.greater compare memory cnt right max
    if max = i then some memory
    else do
      let memory ← v.doSwap memory i max
      heapify fuel memory max cnt

def buildLoop : Nat → (Nat → UInt8) → Option (Nat → UInt8)
  | 0, memory => some memory
  | i + 1, memory => do
    let memory ← v.heapify compare (v.cnt + 1) memory (i + 1) v.cnt
    buildLoop i memory

def sortLoop : Nat → (Nat → UInt8) → Option (Nat → UInt8)
  | 0, memory | 1, memory => some memory
  | i + 2, memory => do
    let memory ← v.doSwap memory 1 (i + 2)
    let memory ← v.heapify compare (v.cnt + 1) memory 1 (i + 1)
    sortLoop (i + 1) memory

def sort (memory : Nat → UInt8) : Option (Nat → UInt8) := do
  let memory ← v.buildLoop compare (v.cnt / 2) memory
  v.sortLoop compare v.cnt memory

def qsort (memory : Nat → UInt8) : Option (Nat → UInt8) :=
  let compareThunk := fun a b (aux : List UInt8 → List UInt8 → Int) => aux a b
  v.sort (fun a b => compareThunk a b compare) memory

end Elements

section Swapping
variable {v : Elements} {memory : Nat → UInt8}

theorem swapLoop_apply (memory : Nat → UInt8) {a b : Nat} (count : Nat) (apart : a + count ≤ b ∨ b + count ≤ a) (address : Nat) :
    Elements.swapLoop memory a b count address =
      if a ≤ address ∧ address < a + count then memory (b + (address - a))
      else if b ≤ address ∧ address < b + count then memory (a + (address - b)) else memory address := by
  induction count generalizing address with
  | zero =>
    rw [if_neg (by omega), if_neg (by omega)]
    rfl
  | succ count ih =>
    have before := ih (by omega)
    have left : Elements.swapLoop memory a b count (a + count) = memory (a + count) := by
      rw [before, if_neg (by omega), if_neg (by omega)]
    have right : Elements.swapLoop memory a b count (b + count) = memory (b + count) := by
      rw [before, if_neg (by omega), if_neg (by omega)]
    simp only [Elements.swapLoop, left, right]
    by_cases atB : address = b + count
    · subst atB
      rw [Function.update_self, if_neg (by omega), if_pos (by omega), Nat.add_sub_cancel_left]
    · rw [Function.update_of_ne atB]
      by_cases atA : address = a + count
      · subst atA
        rw [Function.update_self, if_pos (by omega), Nat.add_sub_cancel_left]
      · rw [Function.update_of_ne atA, before]
        have inA : (a ≤ address ∧ address < a + (count + 1)) ↔ (a ≤ address ∧ address < a + count) := by omega
        have inB : (b ≤ address ∧ address < b + (count + 1)) ↔ (b ≤ address ∧ address < b + count) := by omega
        simp only [inA, inB]

theorem address_apart {i j : Nat} (one : 1 ≤ i) (two : 1 ≤ j) (different : i ≠ j) :
    v.address i + v.size ≤ v.address j ∨ v.address j + v.size ≤ v.address i := by
  have step : ∀ {x y : Nat}, 1 ≤ x → x < y → v.address x + v.size ≤ v.address y := by
    intro x y first less
    have more : (x - 1 + 1) * v.size ≤ (y - 1) * v.size := Nat.mul_le_mul_right _ (by omega)
    rw [Nat.succ_mul] at more
    simp only [Elements.address]
    omega
  rcases Nat.lt_or_gt_of_ne different with less | more
  · exact .inl (step one less)
  · exact .inr (step two more)

def Kept (v : Elements) (before after : Nat → UInt8) : Prop :=
  ∀ address, address < v.array ∨ v.array + v.cnt * v.size ≤ address → after address = before address

theorem address_inside {i : Nat} (has : v.Has i) : v.array ≤ v.address i ∧ v.address i + v.size ≤ v.array + v.cnt * v.size := by
  have more : (i - 1 + 1) * v.size ≤ v.cnt * v.size := Nat.mul_le_mul_right _ (by have last := has.2; have first := has.1; omega)
  rw [Nat.succ_mul] at more
  simp only [Elements.address]
  omega

theorem doSwap_spec (memory : Nat → UInt8) {i j : Nat} (one : v.Has i) (two : v.Has j) (different : i ≠ j) :
    ∃ after, v.doSwap memory i j = some after ∧ v.element after = v.element memory ∘ Equiv.swap i j ∧ Kept v memory after := by
  have bytes := swapLoop_apply memory v.size (address_apart (v := v) one.1 two.1 different)
  have moved : ∀ m k, 1 ≤ k → v.element m k = window m (v.address k) v.size := fun m k first => by
    obtain ⟨k, rfl⟩ := Nat.exists_eq_succ_of_ne_zero (Nat.ne_of_gt first)
    rfl
  refine ⟨_, if_pos ⟨one, two⟩, funext fun k => ?_, fun address outside => ?_⟩
  · obtain _ | k := k
    · have zero : Equiv.swap i j 0 = 0 := Equiv.swap_apply_of_ne_of_ne (Nat.ne_of_lt one.1) (Nat.ne_of_lt two.1)
      rw [Function.comp_apply, zero]
      rfl
    rw [Function.comp_apply]
    by_cases atI : k + 1 = i
    · rw [atI, Equiv.swap_apply_left, moved _ j two.1, moved _ i one.1]
      refine List.map_congr_left fun index inside => ?_
      rw [List.mem_range] at inside
      rw [bytes, if_pos (by omega), Nat.add_sub_cancel_left]
    by_cases atJ : k + 1 = j
    · have apart := address_apart (v := v) one.1 two.1 different
      rw [atJ, Equiv.swap_apply_right, moved _ i one.1, moved _ j two.1]
      refine List.map_congr_left fun index inside => ?_
      rw [List.mem_range] at inside
      rw [bytes, if_neg (by omega), if_pos (by omega), Nat.add_sub_cancel_left]
    · rw [Equiv.swap_apply_of_ne_of_ne atI atJ]
      refine List.map_congr_left fun index inside => ?_
      rw [List.mem_range] at inside
      have fromI := address_apart (v := v) (Nat.le_add_left 1 k) one.1 atI
      have fromJ := address_apart (v := v) (Nat.le_add_left 1 k) two.1 atJ
      rw [bytes, if_neg (by omega), if_neg (by omega)]
  · have insideI := address_inside one
    have insideJ := address_inside two
    rw [bytes, if_neg (by omega), if_neg (by omega)]

theorem Kept.trans {first second third : Nat → UInt8} (before : Kept v first second) (after : Kept v second third) :
    Kept v first third := fun address outside => (after address outside).trans (before address outside)

end Swapping

section Sorting
variable {v : Elements} {memory : Nat → UInt8} {compare : List UInt8 → List UInt8 → Int} (ordering : Ordering compare)

abbrev le (compare : List UInt8 → List UInt8 → Int) (a b : List UInt8) : Prop := compare a b ≤ 0

include ordering

/-- A test of `heapify` finds the greater element. -/
theorem greater_spec (memory : Nat → UInt8) {cnt child max : Nat} (most : cnt ≤ v.cnt) (one : 1 ≤ child) (has : v.Has max) :
    ∃ result, v.greater compare memory cnt child max = some result ∧ (result = max ∨ result = child ∧ child ≤ cnt) ∧
      le compare (v.element memory max) (v.element memory result) ∧
      (child ≤ cnt → le compare (v.element memory child) (v.element memory result)) := by
  have refl : ∀ a, compare a a ≤ 0 := fun a => by
    have swapped := ordering.swap a a
    omega
  rw [Elements.greater]
  by_cases inside : child ≤ cnt
  · rw [if_pos inside, Elements.doCompare, if_pos ⟨⟨one, by omega⟩, has⟩]
    by_cases more : 0 < compare (v.element memory child) (v.element memory max)
    · refine ⟨child, congrArg some (if_pos more), .inr ⟨rfl, inside⟩, ?_, fun _ => refl _⟩
      exact Int.le_of_lt ((ordering.swap _ _).mpr more)
    · exact ⟨max, congrArg some (if_neg more), .inl rfl, refl _, fun _ => Int.not_lt.mp more⟩
  · rw [if_neg inside]
    exact ⟨max, rfl, .inl rfl, refl _, fun within => absurd within inside⟩

/-- `heapify` fills the hole, whatever is in the rest of the array. -/
theorem heapify_spec {low : Nat} (fuel : Nat) {i cnt : Nat} (enough : cnt < i + fuel) (positive : 1 ≤ low) (least : low ≤ i)
    (inside : i ≤ cnt) (most : cnt ≤ v.cnt) (holed : Holed (le compare) low i cnt (v.element memory)) :
    ∃ after, v.heapify compare fuel memory i cnt = some after ∧ Heap (le compare) low cnt (v.element after) ∧
      Permutes cnt (v.element memory) (v.element after) ∧ Kept v memory after := by
  induction fuel generalizing memory i with
  | zero => omega
  | succ fuel ih =>
    have room : v.cnt ≤ v.cnt * v.size := Nat.le_mul_of_pos_right _ v.positive
    have object := v.object
    obtain ⟨first, one, choice, low', left⟩ :=
      greater_spec ordering memory most (by omega : 1 ≤ 2 * i) (⟨by omega, by omega⟩ : v.Has i)
    have has : v.Has first := by
      rcases choice with rfl | ⟨rfl, within⟩ <;> exact ⟨by omega, by omega⟩
    obtain ⟨max, two, chosen, higher, right⟩ := greater_spec ordering memory most (by omega : 1 ≤ 2 * i + 1) has
    have greatest : ∀ child, child / 2 = i → child ≤ cnt → le compare (v.element memory child) (v.element memory max) := by
      intro child below within
      rcases (by omega : child = 2 * i ∨ child = 2 * i + 1) with rfl | rfl
      · exact ordering.trans _ _ _ (left within) higher
      · exact right within
    rw [Elements.heapify, Nat.mod_eq_of_lt (by omega), Nat.mod_eq_of_lt (by omega)]
    simp only [one, two, Option.bind_eq_bind, Option.bind_some]
    by_cases stays : max = i
    · rw [if_pos stays]
      rw [stays] at greatest
      exact ⟨memory, rfl, holed.filled greatest, .refl _ _, fun _ _ => rfl⟩
    · have below : max / 2 = i ∧ max ≤ cnt := by omega
      obtain ⟨swapped, ran, elements, kept⟩ :=
        doSwap_spec memory (⟨by omega, by omega⟩ : v.Has i) (⟨by omega, by omega⟩ : v.Has max) (Ne.symm stays)
      have next := holed.swap positive least below.1 below.2 (ordering.trans _ _ _ low' higher) greatest
      rw [← elements] at next
      obtain ⟨after, rest, heap, permutes, later⟩ := ih (i := max) (by omega) (by omega) below.2 next
      rw [if_neg stays, ran]
      refine ⟨after, rest, heap, Permutes.trans ?_ permutes, kept.trans later⟩
      rw [elements]
      exact Permutes.swap ⟨by omega, by omega⟩ ⟨by omega, by omega⟩

theorem buildLoop_spec (i : Nat) (half : i ≤ v.cnt / 2) (heap : Heap (le compare) (i + 1) v.cnt (v.element memory)) :
    ∃ after, v.buildLoop compare i memory = some after ∧ Heap (le compare) 1 v.cnt (v.element after) ∧
      Permutes v.cnt (v.element memory) (v.element after) ∧ Kept v memory after := by
  induction i generalizing memory with
  | zero => exact ⟨memory, rfl, heap, .refl _ _, fun _ _ => rfl⟩
  | succ i ih =>
    obtain ⟨next, ran, ordered, permutes, kept⟩ := heapify_spec ordering (v.cnt + 1) (by omega) (by omega) (Nat.le_refl _)
      (by omega) (Nat.le_refl _) (heap.holed (by omega))
    obtain ⟨after, rest, whole, permuted, later⟩ := ih (by omega) ordered
    refine ⟨after, ?_, whole, permutes.trans permuted, kept.trans later⟩
    rw [Elements.buildLoop, ran]
    exact rest

theorem sortLoop_spec (i : Nat) (inside : i ≤ v.cnt) (heap : Heap (le compare) 1 i (v.element memory))
    (ends : Ends (le compare) i v.cnt (v.element memory)) :
    ∃ after, v.sortLoop compare i memory = some after ∧ Ends (le compare) 0 v.cnt (v.element after) ∧
      Permutes v.cnt (v.element memory) (v.element after) ∧ Kept v memory after := by
  have refl : ∀ a, le compare a a := fun a => by
    have swapped := ordering.swap a a
    simp only [le]
    omega
  induction i generalizing memory with
  | zero => exact ⟨memory, rfl, ends, .refl _ _, fun _ _ => rfl⟩
  | succ i ih =>
    cases i with
    | zero =>
      -- one element is in its place
      refine ⟨memory, rfl, ⟨fun i j least order last => ?_, fun i j first none => by omega⟩, .refl _ _, fun _ _ => rfl⟩
      by_cases one : i = 1
      · by_cases also : j = 1
        · rw [one, also]
          exact refl _
        · exact ends.above i j least (by omega) (by omega) last
      · exact ends.sorted i j (by omega) order last
    | succ i =>
      obtain ⟨swapped, ran, elements, kept⟩ :=
        doSwap_spec memory (⟨by omega, by omega⟩ : v.Has 1) (⟨by omega, inside⟩ : v.Has (i + 2)) (by omega)
      have below : Heap (le compare) 2 (i + 1) (v.element swapped) := by
        intro child least last
        rw [elements, Function.comp_apply, Function.comp_apply, Equiv.swap_apply_of_ne_of_ne (by omega) (by omega),
          Equiv.swap_apply_of_ne_of_ne (by omega) (by omega)]
        exact heap child (by omega) (by omega)
      obtain ⟨next, filled, ordered, permutes, later⟩ := heapify_spec ordering (v.cnt + 1) (by omega) (Nat.le_refl 1)
        (Nat.le_refl 1) (by omega) (by omega) (below.holed (Nat.le_refl 1))
      have behind := ends.swap refl (heap.root refl ordering.trans)
      rw [← elements] at behind
      obtain ⟨after, rest, sorted, permuted, last⟩ := ih (by omega) ordered (behind.permute permutes)
      refine ⟨after, ?_, sorted, ?_, kept.trans (later.trans last)⟩
      · rw [Elements.sortLoop, ran]
        dsimp only [Option.bind_eq_bind, Option.bind_some]
        rw [filled]
        exact rest
      · refine Permutes.trans ?_ ((permutes.mono (by omega)).trans permuted)
        rw [elements]
        exact Permutes.swap ⟨by omega, by omega⟩ ⟨by omega, inside⟩

/-- `sort` and `qsort` end, keep to the array, and leave its elements in order. -/
theorem sort_sorts (v : Elements) (memory : Nat → UInt8) :
    ∃ after, v.sort compare memory = some after ∧ v.qsort compare memory = some after ∧ Kept v memory after ∧
      ((List.range' 1 v.cnt).map (v.element after)).Perm ((List.range' 1 v.cnt).map (v.element memory)) ∧
      ((List.range' 1 v.cnt).map (v.element after)).Pairwise (compare · · ≤ 0) := by
  have leaves : Heap (le compare) (v.cnt / 2 + 1) v.cnt (v.element memory) := fun child least last => by omega
  obtain ⟨built, build, heap, permutes, kept⟩ := buildLoop_spec ordering (v.cnt / 2) (Nat.le_refl _) leaves
  obtain ⟨after, taken, ends, permuted, later⟩ := sortLoop_spec ordering v.cnt (Nat.le_refl _) heap
    ⟨fun i j least order last => by omega, fun i j _ _ least last => by omega⟩
  have ran : v.sort compare memory = some after := by
    rw [Elements.sort, build]
    exact taken
  refine ⟨after, ran, ran, kept.trans later, (permutes.trans permuted).perm, ?_⟩
  refine List.pairwise_map.mpr ((List.pairwise_lt_range' (s := 1) (n := v.cnt)).imp_of_mem fun {i j} before inside less => ?_)
  rw [List.mem_range'_1] at before inside
  exact ends.sorted i j (by omega) (by omega) (by omega)

end Sorting

def compareBytes (a b : List UInt8) : Int := ((a.headD 0).toNat : Int) - (b.headD 0).toNat

/-- Three bytes at address 0. -/
theorem sort_sorts_bytes : ∃ after, Elements.sort ⟨0, 3, 1, by decide, by decide⟩ compareBytes
    (fun address => [9, 4, 7].getD address 0) = some after ∧ compareBytes [after 0] [after 1] ≤ 0 := by
  have ordering : Ordering compareBytes := ⟨fun a b => by simp only [compareBytes]; omega, fun a b c => by simp only [compareBytes]; omega⟩
  obtain ⟨after, ran, -, -, -, sorted⟩ := sort_sorts ordering ⟨0, 3, 1, by decide, by decide⟩ fun address => [9, 4, 7].getD address 0
  exact ⟨after, ran, (List.pairwise_cons.mp sorted).1 [after 1] (List.mem_cons_self ..)⟩

end Pintos.Lib.Stdlib
