import Mathlib.Data.List.Nodup
import Mathlib.Logic.Equiv.Basic

/-! Heaps in an array with indices from 1 on, and sorting by them.

The children of an index are twice the index and the index after that. A heap
with a hole is in order but for the children of one index, and they do not
exceed its parent; exchanging the hole with its greatest child moves it down.
-/

set_option autoImplicit false

namespace Semantics.Heaps

variable {α : Type} (le : α → α → Prop)

def Heap (low count : Nat) (a : Nat → α) : Prop :=
  ∀ child, low ≤ child / 2 → child ≤ count → le (a child) (a (child / 2))

/-- As a heap, but for the children of one index. -/
structure Holed (low hole count : Nat) (a : Nat → α) : Prop where
  except : ∀ child, low ≤ child / 2 → child ≤ count → child / 2 ≠ hole → le (a child) (a (child / 2))
  grand : ∀ child, low ≤ hole / 2 → child / 2 = hole → child ≤ count → le (a child) (a (hole / 2))

structure Ends (low count : Nat) (a : Nat → α) : Prop where
  sorted : ∀ i j, low < i → i ≤ j → j ≤ count → le (a i) (a j)
  above : ∀ i j, 1 ≤ i → i ≤ low → low < j → j ≤ count → le (a i) (a j)

/-- The second array has the elements of the first, in other places among the first `count`. -/
def Permutes (count : Nat) (a b : Nat → α) : Prop :=
  ∃ places : Equiv.Perm Nat, (∀ k, places k ≠ k → 1 ≤ k ∧ k ≤ count) ∧ ∀ k, b k = a (places k)

variable {le} {low hole count : Nat} {a b c : Nat → α}

section Order

theorem Holed.filled (holed : Holed le low hole count a) (order : ∀ child, child / 2 = hole → child ≤ count → le (a child) (a hole)) :
    Heap le low count a := by
  intro child least most
  by_cases here : child / 2 = hole
  · rw [here]
    exact order child here most
  · exact holed.except child least most here

theorem Heap.holed (heap : Heap le (low + 1) count a) (positive : 1 ≤ low) : Holed le low low count a :=
  ⟨fun child least most other => heap child (by omega) most, fun child least _ _ => by omega⟩

theorem Holed.swap {child : Nat} (holed : Holed le low hole count a) (positive : 1 ≤ low) (least : low ≤ hole)
    (below : child / 2 = hole) (most : child ≤ count) (less : le (a hole) (a child))
    (greatest : ∀ other, other / 2 = hole → other ≤ count → le (a other) (a child)) :
    Holed le low child count (a ∘ Equiv.swap hole child) := by
  have up : (a ∘ Equiv.swap hole child) hole = a child := congrArg a (Equiv.swap_apply_left ..)
  have down : (a ∘ Equiv.swap hole child) child = a hole := congrArg a (Equiv.swap_apply_right ..)
  have same : ∀ k, k ≠ hole → k ≠ child → (a ∘ Equiv.swap hole child) k = a k :=
    fun k notHole notChild => congrArg a (Equiv.swap_apply_of_ne_of_ne notHole notChild)
  refine ⟨fun k lower upper other => ?_, fun k _ under upper => ?_⟩
  · by_cases here : k / 2 = hole
    · rw [here, up]
      by_cases mine : k = child
      · rw [mine, down]
        exact less
      · rw [same k (by omega) mine]
        exact greatest k here upper
    · rw [same (k / 2) here other]
      by_cases mine : k = hole
      · rw [mine, up]
        rw [mine] at lower
        exact holed.grand child lower below most
      · rw [same k mine (by omega)]
        exact holed.except k lower upper here
  · rw [below, up, same k (by omega) (by omega), ← under]
    exact holed.except k (by omega) upper (by omega)

theorem Heap.root (heap : Heap le 1 count a) (refl : ∀ x, le x x) (trans : ∀ x y z, le x y → le y z → le x z)
    (k : Nat) (first : 1 ≤ k) (last : k ≤ count) : le (a k) (a 1) := by
  induction k using Nat.strongRecOn with
  | ind k ih =>
    by_cases one : k = 1
    · rw [one]
      exact refl _
    · exact trans _ _ _ (heap k (by omega) last) (ih (k / 2) (by omega) (by omega) (by omega))

theorem Ends.swap (ends : Ends le (low + 1) count a) (refl : ∀ x, le x x)
    (greatest : ∀ k, 1 ≤ k → k ≤ low + 1 → le (a k) (a 1)) : Ends le low count (a ∘ Equiv.swap 1 (low + 1)) := by
  have last : (a ∘ Equiv.swap 1 (low + 1)) (low + 1) = a 1 := congrArg a (Equiv.swap_apply_right ..)
  have behind : ∀ j, low + 1 < j → (a ∘ Equiv.swap 1 (low + 1)) j = a j :=
    fun j more => congrArg a (Equiv.swap_apply_of_ne_of_ne (by omega) (by omega))
  have before : ∀ i, 1 ≤ i → i ≤ low → ∃ k, 1 ≤ k ∧ k ≤ low + 1 ∧ (a ∘ Equiv.swap 1 (low + 1)) i = a k := by
    intro i first most
    by_cases one : i = 1
    · exact ⟨low + 1, by omega, Nat.le_refl _, by rw [one]; exact congrArg a (Equiv.swap_apply_left ..)⟩
    · exact ⟨i, first, by omega, congrArg a (Equiv.swap_apply_of_ne_of_ne one (by omega))⟩
  refine ⟨fun i j least order most => ?_, fun i j first upper least most => ?_⟩
  · by_cases edge : i = low + 1
    · by_cases also : j = low + 1
      · rw [edge, also]
        exact refl _
      · rw [edge, last, behind j (by omega)]
        exact ends.above 1 j (Nat.le_refl 1) (by omega) (by omega) most
    · rw [behind i (by omega), behind j (by omega)]
      exact ends.sorted i j (by omega) order most
  · obtain ⟨k, one, within, same⟩ := before i first upper
    rw [same]
    by_cases edge : j = low + 1
    · rw [edge, last]
      exact greatest k one within
    · rw [behind j (by omega)]
      exact ends.above k j one within (by omega) most

end Order

section Permutations

theorem Permutes.refl (count : Nat) (a : Nat → α) : Permutes count a a := ⟨Equiv.refl Nat, fun _ moved => absurd rfl moved, fun _ => rfl⟩

theorem Permutes.trans (first : Permutes count a b) (second : Permutes count b c) : Permutes count a c := by
  obtain ⟨one, within, same⟩ := first
  obtain ⟨two, inside, also⟩ := second
  refine ⟨two.trans one, fun k moved => ?_, fun k => by rw [also, same]; rfl⟩
  by_cases still : two k = k
  · exact within k fun fixed => moved (by rw [Equiv.trans_apply, still, fixed])
  · exact inside k still

theorem Permutes.mono {more : Nat} (permutes : Permutes count a b) (less : count ≤ more) : Permutes more a b := by
  obtain ⟨places, within, same⟩ := permutes
  exact ⟨places, fun k moved => ⟨(within k moved).1, Nat.le_trans (within k moved).2 less⟩, same⟩

theorem Permutes.swap {i j : Nat} (one : 1 ≤ i ∧ i ≤ count) (two : 1 ≤ j ∧ j ≤ count) :
    Permutes count a (a ∘ Equiv.swap i j) := by
  refine ⟨Equiv.swap i j, fun k moved => ?_, fun _ => rfl⟩
  rcases Equiv.swap_apply_ne_self_iff.mp moved with ⟨-, rfl | rfl⟩
  · exact one
  · exact two

theorem Permutes.inside (permutes : Permutes count a b) {k : Nat} (first : 1 ≤ k) (last : k ≤ count) :
    ∃ i, 1 ≤ i ∧ i ≤ count ∧ b k = a i := by
  obtain ⟨places, within, same⟩ := permutes
  refine ⟨places k, ?_, ?_, same k⟩ <;> by_cases fixed : places k = k
  · rw [fixed]
    exact first
  · exact (within _ fun still => fixed (places.injective still)).1
  · rw [fixed]
    exact last
  · exact (within _ fun still => fixed (places.injective still)).2

theorem Permutes.outside (permutes : Permutes count a b) {k : Nat} (behind : count < k) : b k = a k := by
  obtain ⟨places, within, same⟩ := permutes
  by_cases fixed : places k = k
  · rw [same, fixed]
  · exact absurd (within k fixed).2 (by omega)

theorem Ends.permute (ends : Ends le low count a) (permutes : Permutes low a b) : Ends le low count b := by
  refine ⟨fun i j least order most => ?_, fun i j first upper least most => ?_⟩
  · rw [permutes.outside least, permutes.outside (by omega : low < j)]
    exact ends.sorted i j least order most
  · obtain ⟨k, one, within, same⟩ := permutes.inside first upper
    rw [same, permutes.outside least]
    exact ends.above k j one within least most

theorem Permutes.perm (permutes : Permutes count a b) :
    ((List.range' 1 count).map b).Perm ((List.range' 1 count).map a) := by
  obtain ⟨places, within, same⟩ := permutes
  have fixed : ∀ k, ¬(1 ≤ k ∧ k ≤ count) → places k = k := fun k out => by
    by_contra moved
    exact out (within k moved)
  have shuffled : ((List.range' 1 count).map places).Perm (List.range' 1 count) := by
    refine (List.perm_ext_iff_of_nodup ((List.nodup_range' (s := 1) (n := count)).map places.injective) List.nodup_range').mpr fun k => ?_
    rw [List.mem_map, List.mem_range'_1]
    constructor
    · rintro ⟨i, inside, rfl⟩
      rw [List.mem_range'_1] at inside
      by_contra out
      have still := places.injective (fixed (places i) (by omega))
      rw [still] at out
      omega
    · intro inside
      refine ⟨places.symm k, List.mem_range'_1.mpr ?_, places.apply_symm_apply k⟩
      by_contra out
      have still := fixed (places.symm k) (by omega)
      rw [places.apply_symm_apply] at still
      omega
  have mapped : (List.range' 1 count).map b = ((List.range' 1 count).map places).map a := by
    rw [List.map_map]
    exact List.map_congr_left fun k _ => same k
  rw [mapped]
  exact shuffled.map a

end Permutations

end Semantics.Heaps
