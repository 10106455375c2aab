import Mathlib.Data.List.Chain
import Mathlib.Data.List.Nodup
import Mathlib.Logic.Function.Basic

/-! Doubly linked sequences of cells.

The cells are of any type, and each has a link to either side. A sequence is
`Linked` when each cell leads to the next one and back. Of a longer sequence a
part can be taken out, by joining the cells on both sides of it, and be put in
between two neighbours elsewhere; the links inside the part do not change.
-/

set_option autoImplicit false

namespace Semantics

structure Links (A : Type) where
  prev : A → A
  next : A → A

namespace Links
variable {A : Type}

def Linked (links : Links A) (nodes : List A) : Prop :=
  nodes.IsChain fun x y => links.next x = y ∧ links.prev y = x

section Frame
variable {links other : Links A} {nodes : List A}

theorem isChain_imp_of_ends {R S : A → A → Prop} (chain : nodes.IsChain R)
    (implied : ∀ x ∈ nodes.dropLast, ∀ y ∈ nodes.tail, R x y → S x y) : nodes.IsChain S := by
  induction chain with
  | nil => exact .nil
  | singleton x => exact .singleton x
  | cons_cons first rest ih =>
    refine .cons_cons (implied _ (by simp) _ (by simp) first) (ih fun x inside y behind => implied x ?_ y ?_)
    · rw [List.dropLast_cons_of_ne_nil (by simp)]
      exact List.mem_cons_of_mem _ inside
    · exact List.mem_cons_of_mem _ behind

/-- The link before the first cell and the one behind the last are not the sequence's own. -/
theorem Linked.of_eq (linked : links.Linked nodes) (next : ∀ x ∈ nodes.dropLast, other.next x = links.next x)
    (prev : ∀ x ∈ nodes.tail, other.prev x = links.prev x) : other.Linked nodes := by
  refine isChain_imp_of_ends linked fun x inside y behind pair => ?_
  rw [next x inside, prev y behind]
  exact pair

theorem linked_append_cons {front back : List A} {x y : A} : links.Linked (front ++ x :: y :: back) ↔
    links.Linked (front ++ [x]) ∧ (links.next x = y ∧ links.prev y = x) ∧ links.Linked (y :: back) :=
  List.isChain_append_cons_cons

theorem Linked.left {front back : List A} (linked : links.Linked (front ++ back)) : links.Linked front :=
  List.IsChain.left_of_append linked

theorem Linked.right {front back : List A} (linked : links.Linked (front ++ back)) : links.Linked back :=
  List.IsChain.right_of_append linked

end Frame

/-- The last cell of a sequence behind a cell, and the first of one before a cell. -/
theorem exists_dropLast (x : A) (front : List A) : ∃ rest, x :: front = rest ++ [front.getLastD x] := by
  refine ⟨(x :: front).dropLast, ?_⟩
  have split := List.dropLast_append_getLast (List.cons_ne_nil x front)
  rw [List.getLast_eq_getLastD] at split
  exact split.symm

theorem exists_tail (y : A) (back : List A) : ∃ rest, back ++ [y] = back.headD y :: rest := by
  cases back with
  | nil => exact ⟨[], rfl⟩
  | cons z back => exact ⟨back ++ [y], rfl⟩

section Joining
variable [DecidableEq A] {links : Links A} {front part back : List A} {x y first last : A}

def setPrev (links : Links A) (x y : A) : Links A := { links with prev := Function.update links.prev x y }

def setNext (links : Links A) (x y : A) : Links A := { links with next := Function.update links.next x y }

def join (links : Links A) (x y : A) : Links A where
  prev := Function.update links.prev y x
  next := Function.update links.next x y

/-- Put the sequence from `first` to `last` between `x` and `y`. -/
def putBetween (links : Links A) (x first last y : A) : Links A where
  prev := Function.update (Function.update links.prev first x) y last
  next := Function.update (Function.update links.next last y) x first

theorem Linked.join (linked : links.Linked (front ++ x :: (part ++ y :: back)))
    (distinct : (front ++ x :: (part ++ y :: back)).Nodup) :
    (links.join x y).Linked (front ++ x :: y :: back) ∧ (links.join x y).Linked part := by
  obtain ⟨-, fromX, apart⟩ := List.nodup_append.mp distinct
  obtain ⟨notX, behind⟩ := List.nodup_cons.mp fromX
  obtain ⟨-, fromY, partApart⟩ := List.nodup_append.mp behind
  have notY := (List.nodup_cons.mp fromY).1
  have next : ∀ z, z ≠ x → (links.join x y).next z = links.next z := fun z other => Function.update_of_ne other _ _
  have prev : ∀ z, z ≠ y → (links.join x y).prev z = links.prev z := fun z other => Function.update_of_ne other _ _
  have both : links.Linked ((front ++ [x]) ++ (part ++ y :: back)) := by simpa using linked
  refine ⟨linked_append_cons.mpr ⟨?_, ⟨Function.update_self _ _ _, Function.update_self _ _ _⟩, ?_⟩, ?_⟩
  · refine both.left.of_eq (fun z inside => next z ?_) (fun z inside => prev z ?_)
    · rw [List.dropLast_concat] at inside
      exact apart z inside x (by simp)
    · rcases List.mem_append.mp (List.mem_of_mem_tail inside) with inside | inside
      · exact apart z inside y (by simp)
      · rw [List.mem_singleton.mp inside]
        exact fun same => notX (by simp [same])
  · refine both.right.right.of_eq (fun z inside => next z ?_) (fun z inside => prev z ?_)
    · exact fun same => notX (List.mem_append_right _ (same ▸ List.dropLast_subset _ inside))
    · exact fun same => notY (same ▸ inside)
  · refine both.right.left.of_eq (fun z inside => next z ?_) (fun z inside => prev z ?_)
    · exact fun same => notX (List.mem_append_left _ (same ▸ List.dropLast_subset _ inside))
    · exact partApart z (List.mem_of_mem_tail inside) y (by simp)

theorem Linked.putBetween (linked : links.Linked (front ++ x :: y :: back)) (partLinked : links.Linked part)
    (isFirst : part.head? = some first) (isLast : part.getLast? = some last)
    (distinct : (front ++ x :: (part ++ y :: back)).Nodup) :
    (links.putBetween x first last y).Linked (front ++ x :: (part ++ y :: back)) := by
  obtain ⟨-, fromX, apart⟩ := List.nodup_append.mp distinct
  obtain ⟨notX, behind⟩ := List.nodup_cons.mp fromX
  obtain ⟨partDistinct, fromY, partApart⟩ := List.nodup_append.mp behind
  have notY := (List.nodup_cons.mp fromY).1
  obtain ⟨rest, firstSplit⟩ := List.head?_eq_some_iff.mp isFirst
  obtain ⟨init, lastSplit⟩ := List.getLast?_eq_some_iff.mp isLast
  have firstIn : first ∈ part := by simp [firstSplit]
  have lastIn : last ∈ part := by simp [lastSplit]
  have next : ∀ z, z ≠ x → z ≠ last → (links.putBetween x first last y).next z = links.next z := fun z one two =>
    (Function.update_of_ne one _ _).trans (Function.update_of_ne two _ _)
  have prev : ∀ z, z ≠ y → z ≠ first → (links.putBetween x first last y).prev z = links.prev z := fun z one two =>
    (Function.update_of_ne one _ _).trans (Function.update_of_ne two _ _)
  have neX : ∀ {z}, z ∈ part ++ y :: back → z ≠ x := fun inside same => notX (same ▸ inside)
  have neY : ∀ {z}, z ∈ part → z ≠ y := fun inside => partApart _ inside y (by simp)
  obtain ⟨leftLinked, -, rightLinked⟩ := linked_append_cons.mp linked
  have left : (links.putBetween x first last y).Linked (front ++ [x]) := by
    refine leftLinked.of_eq (fun z inside => ?_) (fun z inside => ?_)
    · rw [List.dropLast_concat] at inside
      exact next z (apart z inside x (by simp)) (apart z inside last (by simp [lastIn]))
    · rcases List.mem_append.mp (List.mem_of_mem_tail inside) with inside | inside
      · exact prev z (apart z inside y (by simp)) (apart z inside first (by simp [firstIn]))
      · rw [List.mem_singleton.mp inside]
        exact prev x (Ne.symm (neX (by simp))) (Ne.symm (neX (by simp [firstIn])))
  have middle : (links.putBetween x first last y).Linked part := by
    refine partLinked.of_eq (fun z inside => ?_) (fun z inside => ?_)
    · refine next z (neX (List.mem_append_left _ (List.dropLast_subset _ inside))) ?_
      rw [lastSplit, List.dropLast_concat] at inside
      rw [lastSplit] at partDistinct
      exact (List.nodup_append.mp partDistinct).2.2 z inside last (by simp)
    · refine prev z (neY (List.mem_of_mem_tail inside)) ?_
      rw [firstSplit, List.tail_cons] at inside
      rw [firstSplit] at partDistinct
      exact fun same => (List.nodup_cons.mp partDistinct).1 (same ▸ inside)
  have right : (links.putBetween x first last y).Linked (y :: back) := by
    refine rightLinked.of_eq (fun z inside => ?_) (fun z inside => ?_)
    · have inside' := List.dropLast_subset _ inside
      exact next z (neX (List.mem_append_right _ inside')) (Ne.symm (partApart last lastIn z inside'))
    · exact prev z (fun same => notY (same ▸ inside)) (Ne.symm (partApart first firstIn z (List.mem_cons_of_mem _ inside)))
  have toFirst : (links.putBetween x first last y).next x = first ∧ (links.putBetween x first last y).prev first = x :=
    ⟨Function.update_self _ _ _, (Function.update_of_ne (neY firstIn) _ _).trans (Function.update_self _ _ _)⟩
  have fromLast : (links.putBetween x first last y).next last = y ∧ (links.putBetween x first last y).prev y = last :=
    ⟨(Function.update_of_ne (neX (by simp [lastIn])) _ _).trans (Function.update_self _ _ _), Function.update_self _ _ _⟩
  have behindX : (links.putBetween x first last y).Linked (part ++ y :: back) := by
    refine List.isChain_append.mpr ⟨middle, right, fun z isZ w isW => ?_⟩
    rw [isLast, Option.mem_some] at isZ
    rw [List.head?_cons, Option.mem_some] at isW
    exact isZ ▸ isW ▸ fromLast
  have whole : (links.putBetween x first last y).Linked ((front ++ [x]) ++ (part ++ y :: back)) := by
    refine List.isChain_append.mpr ⟨left, behindX, fun z isZ w isW => ?_⟩
    rw [List.getLast?_concat, Option.mem_some] at isZ
    rw [List.head?_append, isFirst, Option.some_or, Option.mem_some] at isW
    exact isZ ▸ isW ▸ toFirst
  simpa using whole

end Joining

section Reversing
variable [DecidableEq A] {links after : Links A} {nodes : List A} {x y first last : A}

def swapAt (links : Links A) (x : A) : Links A where
  prev := Function.update links.prev x (links.next x)
  next := Function.update links.next x (links.prev x)

theorem foldl_swapAt (distinct : nodes.Nodup) (z : A) :
    (nodes.foldl swapAt links).prev z = (if z ∈ nodes then links.next z else links.prev z) ∧
      (nodes.foldl swapAt links).next z = if z ∈ nodes then links.prev z else links.next z := by
  induction nodes generalizing links with
  | nil => simp
  | cons w rest ih =>
    obtain ⟨notIn, restDistinct⟩ := List.nodup_cons.mp distinct
    rw [List.foldl_cons, (ih restDistinct).1, (ih restDistinct).2]
    by_cases same : z = w
    · subst same
      simp [notIn, swapAt]
    · simp [same, swapAt]

/-- The cells between `x` and `y` with their links exchanged, and those at the ends put right. -/
theorem Linked.reverse (linked : links.Linked nodes) (distinct : nodes.Nodup) (isFirst : nodes.head? = some first)
    (isLast : nodes.getLast? = some last)
    (prev : ∀ z ∈ nodes, after.prev z = if z = last then x else links.next z)
    (next : ∀ z ∈ nodes, after.next z = if z = first then y else links.prev z)
    (start : after.next x = last) (finish : after.prev y = first) : after.Linked (x :: (nodes.reverse ++ [y])) := by
  obtain ⟨rest, firstSplit⟩ := List.head?_eq_some_iff.mp isFirst
  obtain ⟨init, lastSplit⟩ := List.getLast?_eq_some_iff.mp isLast
  have inner : after.Linked nodes.reverse := by
    refine List.isChain_reverse.mpr (isChain_imp_of_ends linked fun z inside w behind pair => ?_)
    have notLast : z ≠ last := by
      rw [lastSplit, List.dropLast_concat] at inside
      rw [lastSplit] at distinct
      exact (List.nodup_append.mp distinct).2.2 z inside last (by simp)
    have notFirst : w ≠ first := by
      rw [firstSplit, List.tail_cons] at behind
      rw [firstSplit] at distinct
      exact fun same => (List.nodup_cons.mp distinct).1 (same ▸ behind)
    rw [next w (List.mem_of_mem_tail behind), prev z (List.dropLast_subset _ inside), if_neg notFirst, if_neg notLast]
    exact ⟨pair.2, pair.1⟩
  have atFirst : after.next first = y := by rw [next first (by simp [firstSplit]), if_pos rfl]
  have atLast : after.prev last = x := by rw [prev last (by simp [lastSplit]), if_pos rfl]
  have ended : after.Linked (nodes.reverse ++ [y]) := by
    refine List.isChain_append.mpr ⟨inner, .singleton y, fun z isZ w isW => ?_⟩
    rw [List.getLast?_reverse, isFirst, Option.mem_some] at isZ
    rw [List.head?_cons, Option.mem_some] at isW
    exact isZ ▸ isW ▸ ⟨atFirst, finish⟩
  refine List.isChain_cons.mpr ⟨fun z isZ => ?_, ended⟩
  rw [List.head?_append, List.head?_reverse, isLast, Option.some_or, Option.mem_some] at isZ
  exact isZ ▸ ⟨start, atLast⟩

end Reversing

end Links

end Semantics
