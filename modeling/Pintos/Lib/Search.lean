import Mathlib.Algebra.Group.Nat.Defs
import Mathlib.Data.List.Basic

/-! `binary_search` (`lib/stdlib.c`).

The array is an object in memory: its elements lie one after another and no
address of it wraps. An address that is none of an element cannot be compared.
-/

set_option autoImplicit false

namespace Pintos.Lib.Stdlib

structure Ordering {α : Type} (compare : α → α → Int) : Prop where
  swap : ∀ a b, compare a b < 0 ↔ 0 < compare b a
  trans : ∀ a b c, compare a b ≤ 0 → compare b c ≤ 0 → compare a c ≤ 0

namespace Ordering
variable {α : Type} {compare : α → α → Int} {a b c : α} (ordering : Ordering compare)
include ordering

theorem le_of_not_lt (least : ¬compare a b < 0) : compare b a ≤ 0 := Int.not_lt.mp fun more => least ((ordering.swap a b).mpr more)

theorem lt_of_lt_of_le (less : compare a b < 0) (most : compare b c ≤ 0) : compare a c < 0 := by
  by_contra least
  have back := ordering.trans b c a most (ordering.le_of_not_lt least)
  have more := (ordering.swap a b).mp less
  omega

theorem gt_of_gt_of_le (more : 0 < compare a b) (most : compare c b ≤ 0) : 0 < compare a c := by
  by_contra least
  have back := ordering.trans a c b (Int.not_lt.mp least) most
  omega

end Ordering

section Search
variable {α : Type}

def elementAt (array size : Nat) (elements : List α) (address : Nat) : Option α :=
  if array ≤ address ∧ size ∣ address - array then elements[(address - array) / size]? else none

/-- The loop of `binary_search`; `compare` compares the key with the element at an
address. The result is `none` if that is no element, or without fuel. -/
def searchLoop (size : Nat) (compare : Nat → Option Int) : Nat → Nat → Nat → Option (Option Nat)
  | 0, _, _ => none
  | fuel + 1, first, last =>
    if first < last then do
      let range := (last - first) / size
      let middle := first + range / 2 * size
      let cmp ← compare middle
      if cmp < 0 then searchLoop size compare fuel first middle
      else if 0 < cmp then searchLoop size compare fuel (middle + size) last
      else return some middle
    else return none

def binarySearch (array cnt size : Nat) (compare : Nat → Option Int) : Option (Option Nat) :=
  searchLoop size compare (cnt + 1) array (array + size * cnt)

variable {compare : α → α → Int} {array size : Nat} {elements : List α} {key : α}

theorem elementAt_index (some : 0 < size) (index : Nat) :
    elementAt array size elements (array + size * index) = elements[index]? := by
  rw [elementAt, Nat.add_sub_cancel_left, if_pos ⟨Nat.le_add_right .., Nat.dvd_mul_right ..⟩, Nat.mul_div_cancel_left _ some]

/-- What lies before `low` is less than the key, and what lies from `high` on is greater. -/
structure Narrowed (compare : α → α → Int) (elements : List α) (key : α) (low high : Nat) : Prop where
  order : low ≤ high
  inside : high ≤ elements.length
  before : ∀ index element, index < low → elements[index]? = some element → 0 < compare key element
  behind : ∀ index element, high ≤ index → elements[index]? = some element → compare key element < 0

theorem searchLoop_spec (ordering : Ordering compare) (some : 0 < size) (sorted : elements.Pairwise (compare · · ≤ 0))
    (fuel low high : Nat) (enough : high - low < fuel) (narrowed : Narrowed compare elements key low high) :
    ∃ result, searchLoop size (fun address => (elementAt array size elements address).map (compare key)) fuel
        (array + size * low) (array + size * high) = .some result ∧
      (result = none → ∀ element ∈ elements, compare key element ≠ 0) ∧
      ∀ address, result = .some address → ∃ index element, elements[index]? = .some element ∧
        address = array + size * index ∧ compare key element = 0 := by
  induction fuel generalizing low high with
  | zero => omega
  | succ fuel ih =>
    obtain ⟨order, inside, before, behind⟩ := narrowed
    rw [searchLoop]
    rcases Nat.lt_or_ge low high with more | done
    · have bytes : array + size * low < array + size * high := by
        have less := Nat.mul_lt_mul_of_pos_left more some
        omega
      have range : (array + size * high - (array + size * low)) / size = high - low := by
        rw [Nat.add_sub_add_left, ← Nat.mul_sub, Nat.mul_div_cancel_left _ some]
      obtain ⟨middle, isMiddle⟩ : ∃ middle, middle = low + (high - low) / 2 := ⟨_, rfl⟩
      have address : array + size * low + (high - low) / 2 * size = array + size * middle := by
        rw [isMiddle, Nat.mul_add, Nat.mul_comm _ size, Nat.add_assoc]
      obtain ⟨element, here⟩ : ∃ element, elements[middle]? = .some element :=
        ⟨_, List.getElem?_eq_getElem (by omega)⟩
      have ordered : ∀ (first second : Nat) (one two : α), first < second → elements[first]? = .some one → elements[second]? = .some two →
          compare one two ≤ 0 := by
        intro first second one two less ofFirst ofSecond
        obtain ⟨bound, rfl⟩ := List.getElem?_eq_some_iff.mp ofFirst
        obtain ⟨within, rfl⟩ := List.getElem?_eq_some_iff.mp ofSecond
        exact List.pairwise_iff_getElem.mp sorted first second bound within less
      rw [if_pos bytes, range]
      dsimp only
      rw [address, elementAt_index some, here]
      dsimp only [Option.map_some, Option.bind_eq_bind, Option.bind_some]
      by_cases less : compare key element < 0
      · rw [if_pos less]
        refine ih low middle (by omega) ⟨by omega, by omega, before, fun index other later found => ?_⟩
        rcases Nat.lt_or_ge middle index with after | same
        · exact ordering.lt_of_lt_of_le less (ordered middle index element other after here found)
        · obtain rfl : index = middle := by omega
          cases here.symm.trans found
          exact less
      rw [if_neg less]
      by_cases more : 0 < compare key element
      · have next : array + size * middle + size = array + size * (middle + 1) := by rw [Nat.mul_add, Nat.mul_one, Nat.add_assoc]
        rw [if_pos more, next]
        refine ih (middle + 1) high (by omega) ⟨by omega, inside, fun index other earlier found => ?_, behind⟩
        rcases Nat.lt_or_ge index middle with first | same
        · exact ordering.gt_of_gt_of_le more (ordered index middle other element first found here)
        · obtain rfl : index = middle := by omega
          cases here.symm.trans found
          exact more
      · rw [if_neg more]
        refine ⟨_, rfl, fun found => (by cases found), fun address found => ?_⟩
        cases found
        exact ⟨middle, element, here, rfl, by omega⟩
    · obtain rfl : low = high := by omega
      rw [if_neg (Nat.lt_irrefl _)]
      refine ⟨none, rfl, fun _ element member equal => ?_, fun address found => by cases found⟩
      obtain ⟨index, here⟩ := List.getElem?_of_mem member
      rcases Nat.lt_or_ge index low with less | more
      · have above := before index element less here
        omega
      · have below := behind index element more here
        omega

/-- The search ends, stays inside the array, and finds a match exactly if there is one. -/
theorem binary_search_exact (ordering : Ordering compare) (some : 0 < size) (sorted : elements.Pairwise (compare · · ≤ 0))
    (array : Nat) (key : α) :
    ∃ result, binarySearch array elements.length size
        (fun address => (elementAt array size elements address).map (compare key)) = .some result ∧
      (result = none ↔ ∀ element ∈ elements, compare key element ≠ 0) ∧
      ∀ address, result = .some address → ∃ index element, elements[index]? = .some element ∧
        address = array + size * index ∧ compare key element = 0 := by
  have whole : Narrowed compare elements key 0 elements.length := by
    refine ⟨Nat.zero_le _, Nat.le_refl _, fun index element less => absurd less (Nat.not_lt_zero _), fun index element most found => ?_⟩
    rw [List.getElem?_eq_none most] at found
    cases found
  obtain ⟨result, ran, missing, found⟩ :=
    searchLoop_spec ordering some sorted (elements.length + 1) 0 elements.length (by omega) whole
  refine ⟨result, ran, ⟨missing, fun none => ?_⟩, found⟩
  cases result with
  | none => rfl
  | some address =>
    obtain ⟨index, element, here, -, equal⟩ := found address rfl
    exact absurd equal (none element (List.mem_of_getElem? here))

/-- Four integers at address 1000. -/
theorem binary_search_exact_integers : ∃ address,
    binarySearch 1000 4 4 (fun address => (elementAt 1000 4 [2, 3, 3, 7] address).map ((7 : Int) - ·)) = some (some address) := by
  have ordering : Ordering (fun a b : Int => a - b) := ⟨fun a b => by omega, fun a b c => by omega⟩
  have sorted : [2, 3, 3, 7].Pairwise fun a b : Int => a - b ≤ 0 := by decide
  obtain ⟨result, ran, missing, -⟩ := binary_search_exact ordering (by decide : 0 < 4) sorted 1000 7
  cases result with
  | none => exact absurd (missing.mp rfl 7 (by decide)) (by decide)
  | some address => exact ⟨address, ran⟩

end Search

end Pintos.Lib.Stdlib
