import Mathlib.Algebra.Group.Int.Defs
import Mathlib.Algebra.Group.Nat.Defs
import Mathlib.Data.List.Basic

/-! Byte-addressed stores: what a range holds, and what storing a list changes.

A store is a function from addresses to values. `window` is what stands in a
range of it and `overlay` is the store after a list has been written from an
address on; consecutive writes are one write of the concatenation.
-/

set_option autoImplicit false

namespace Semantics

variable {V : Type} (store : Nat → V) (base : Nat)

def window (count : Nat) : List V := (List.range count).map fun index => store (base + index)

def overlay (values : List V) : Nat → V := fun address =>
  if base ≤ address then (values[address - base]?).getD (store address) else store address

section Windows
variable {store base}

@[simp] theorem length_window (count : Nat) : (window store base count).length = count := by simp [window]

@[simp] theorem window_zero : window store base 0 = [] := rfl

theorem getElem_window {count index : Nat} (inside : index < (window store base count).length) :
    (window store base count)[index] = store (base + index) := by simp [window]

theorem getElem?_window {count index : Nat} (inside : index < count) :
    (window store base count)[index]? = some (store (base + index)) := by
  rw [List.getElem?_eq_getElem (by simpa using inside), getElem_window]

theorem window_congr {other : Nat → V} {count : Nat} (same : ∀ index < count, other (base + index) = store (base + index)) :
    window other base count = window store base count :=
  List.map_congr_left fun index inside => same index (List.mem_range.mp inside)

theorem window_add (first second : Nat) :
    window store base (first + second) = window store base first ++ window store (base + first) second := by
  simp only [window, List.range_add, List.map_append, List.map_map]
  congr 1
  refine List.map_congr_left fun index _ => ?_
  simp [Nat.add_assoc]

theorem take_window (count some : Nat) : (window store base count).take some = window store base (min some count) := by
  rw [window, ← List.map_take, List.take_range, window]

theorem drop_window (count some : Nat) :
    (window store base count).drop some = window store (base + some) (count - some) := by
  refine List.ext_getElem (by simp) fun index left right => ?_
  rw [List.getElem_drop, getElem_window, getElem_window, Nat.add_assoc]

end Windows

section Overlays
variable {store base}

@[simp] theorem overlay_nil : overlay store base [] = store := by
  funext address
  simp [overlay]

theorem overlay_inside (values : List V) {index : Nat} (inside : index < values.length) :
    overlay store base values (base + index) = values[index] := by
  rw [overlay, if_pos (Nat.le_add_right base index), Nat.add_sub_cancel_left, List.getElem?_eq_getElem inside]
  rfl

theorem overlay_outside (values : List V) {address : Nat} (out : address < base ∨ base + values.length ≤ address) :
    overlay store base values address = store address := by
  unfold overlay
  split
  · rw [List.getElem?_eq_none (by omega)]
    rfl
  · rfl

theorem overlay_append (first second : List V) :
    overlay store base (first ++ second) = overlay (overlay store base first) (base + first.length) second := by
  funext address
  by_cases before : address < base + first.length
  · rw [overlay_outside second (.inl before)]
    unfold overlay
    split
    · rw [List.getElem?_append_left (by omega)]
    · rfl
  · have same : overlay store base first address = store address := overlay_outside first (.inr (by omega))
    unfold overlay at same ⊢
    rw [if_pos (by omega), if_pos (by omega), List.getElem?_append_right (by omega), Nat.sub_sub, same]

theorem overlay_window (count : Nat) : overlay store base (window store base count) = store := by
  funext address
  unfold overlay
  split <;> rename_i after
  · by_cases inside : address - base < count
    · rw [getElem?_window inside, Nat.add_sub_cancel' after]
      rfl
    · rw [List.getElem?_eq_none (by simpa using inside)]
      rfl
  · rfl

theorem window_overlay (values : List V) : window (overlay store base values) base values.length = values := by
  refine List.ext_getElem (by simp) fun index left right => ?_
  rw [getElem_window, overlay_inside values right]

theorem window_overlay_of_disjoint (values : List V) {other count : Nat}
    (apart : other + count ≤ base ∨ base + values.length ≤ other) :
    window (overlay store base values) other count = window store other count :=
  window_congr fun index inside => overlay_outside values (by omega)

theorem window_overlay_within (values : List V) {offset count : Nat} (fits : offset + values.length ≤ count) :
    window (overlay store (base + offset) values) base count =
      (window store base count).take offset ++ values ++ (window store base count).drop (offset + values.length) := by
  obtain ⟨rest, rfl⟩ := Nat.exists_eq_add_of_le fits
  rw [window_add, window_add, take_window, drop_window, window_overlay_of_disjoint values (.inl (Nat.le_refl _)), window_overlay,
    window_overlay_of_disjoint values (.inr (by omega))]
  congr 2
  · rw [Nat.min_eq_left (by omega)]
  · omega

end Overlays

end Semantics
