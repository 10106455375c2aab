import Pintos.Semantics.Computation
import Pintos.Semantics.Links

/-! Doubly linked lists (`lib/kernel/list.c`) over a heap of links.

A `struct list_elem` is an address with two links, and a `struct list` is the
addresses of its two headers. Every access through a pointer and every assertion
is made; a null pointer and a failed assertion stop the code. A heap represents
a family of lists at once, so that an operation is also said to leave the other
lists alone.
-/

set_option autoImplicit false

namespace Pintos.Lib.Lists
open Semantics Computation

inductive Fault where
  | assertion
  | null
  /-- A loop ran longer than it was given steps for. -/
  | fuel
  deriving DecidableEq, Repr

abbrev Heap := Links Nat

abbrev Code := Computation Heap Fault

/-- `struct list`: the addresses of `head` and `tail`. -/
structure Header where
  head : Nat
  tail : Nat

/-! ## The code -/

def getPrev (elem : Nat) : Code Nat := do
  if elem = 0 then stop .null else return (← get).prev elem

def getNext (elem : Nat) : Code Nat := do
  if elem = 0 then stop .null else return (← get).next elem

def setPrev (elem link : Nat) : Code Unit := do
  if elem = 0 then stop .null else modify fun heap => heap.setPrev elem link

def setNext (elem link : Nat) : Code Unit := do
  if elem = 0 then stop .null else modify fun heap => heap.setNext elem link

def assert (condition : Heap → Bool) : Code Unit := require .assertion condition

def isHead (elem : Nat) (heap : Heap) : Bool := elem != 0 && heap.prev elem == 0 && heap.next elem != 0

def isInterior (elem : Nat) (heap : Heap) : Bool := elem != 0 && heap.prev elem != 0 && heap.next elem != 0

def isTail (elem : Nat) (heap : Heap) : Bool := elem != 0 && heap.prev elem != 0 && heap.next elem == 0

def listInit (list : Header) : Code Unit := do
  setPrev list.head 0
  setNext list.head list.tail
  setPrev list.tail list.head
  setNext list.tail 0

def listBegin (list : Header) : Code Nat := getNext list.head

def listNext (elem : Nat) : Code Nat := do
  assert fun heap => isHead elem heap || isInterior elem heap
  getNext elem

def listEnd (list : Header) : Nat := list.tail

def listPrev (elem : Nat) : Code Nat := do
  assert fun heap => isInterior elem heap || isTail elem heap
  getPrev elem

def listInsert (before elem : Nat) : Code Unit := do
  assert fun heap => isInterior before heap || isTail before heap
  assert fun _ => elem != 0
  setPrev elem (← getPrev before)
  setNext elem before
  setNext (← getPrev before) elem
  setPrev before elem

def listSplice (before first last : Nat) : Code Unit := do
  assert fun heap => isInterior before heap || isTail before heap
  if first = last then return ()
  let last ← listPrev last
  assert (isInterior first)
  assert (isInterior last)
  -- Cleanly remove FIRST...LAST from its current list.
  setNext (← getPrev first) (← getNext last)
  setPrev (← getNext last) (← getPrev first)
  -- Splice FIRST...LAST into new list.
  setPrev first (← getPrev before)
  setNext last before
  setNext (← getPrev before) first
  setPrev before last

def listPushFront (list : Header) (elem : Nat) : Code Unit := do
  listInsert (← listBegin list) elem

def listPushBack (list : Header) (elem : Nat) : Code Unit := listInsert (listEnd list) elem

def listRemove (elem : Nat) : Code Nat := do
  assert (isInterior elem)
  setNext (← getPrev elem) (← getNext elem)
  setPrev (← getNext elem) (← getPrev elem)
  getNext elem

def listEmpty (list : Header) : Code Bool := return (← listBegin list) == listEnd list

def reverseLoop (list : Header) : Nat → Nat → Code Unit
  | 0, _ => stop .fuel
  | fuel + 1, elem =>
    if elem = listEnd list then return ()
    else do
      let link ← getPrev elem
      setPrev elem (← getNext elem)
      setNext elem link
      reverseLoop list fuel (← getPrev elem)

def listReverse (fuel : Nat) (list : Header) : Code Unit := do
  if !(← listEmpty list) then
    reverseLoop list fuel (← listBegin list)
    -- swap (&list->head.next, &list->tail.prev)
    let link ← getNext list.head
    setNext list.head (← getPrev list.tail)
    setPrev list.tail link
    -- swap (&list->head.next->prev, &list->tail.prev->next)
    let first ← getNext list.head
    let last ← getPrev list.tail
    let link ← getPrev first
    setPrev first (← getNext last)
    setNext last link

/-! ## What each function computes -/

section Spec
variable {heap : Heap} {elem before first last : Nat}

theorem getPrev_apply (given : elem ≠ 0) : getPrev elem heap = .returned (heap.prev elem) heap := by
  simp [getPrev, given]

theorem getNext_apply (given : elem ≠ 0) : getNext elem heap = .returned (heap.next elem) heap := by
  simp [getNext, given]

theorem setPrev_apply (given : elem ≠ 0) (link : Nat) : setPrev elem link heap = .returned () (heap.setPrev elem link) := by
  simp [setPrev, given]

theorem setNext_apply (given : elem ≠ 0) (link : Nat) : setNext elem link heap = .returned () (heap.setNext elem link) := by
  simp [setNext, given]

theorem assert_apply {condition : Heap → Bool} (holds : condition heap = true) :
    assert condition heap = .returned () heap := require_of_true holds

/-- The assertion on a place to insert at: it is an interior element or a tail. -/
theorem assert_place (given : elem ≠ 0) (prev : heap.prev elem ≠ 0) :
    (assert fun heap => isInterior elem heap || isTail elem heap) heap = .returned () heap := by
  refine assert_apply ?_
  by_cases zero : heap.next elem = 0 <;> simp [isInterior, isTail, given, prev, zero]

theorem assert_start (given : elem ≠ 0) (next : heap.next elem ≠ 0) :
    (assert fun heap => isHead elem heap || isInterior elem heap) heap = .returned () heap := by
  refine assert_apply ?_
  by_cases zero : heap.prev elem = 0 <;> simp [isInterior, isHead, given, next, zero]

theorem assert_interior (given : elem ≠ 0) (prev : heap.prev elem ≠ 0) (next : heap.next elem ≠ 0) :
    assert (isInterior elem) heap = .returned () heap :=
  assert_apply (by simp [isInterior, given, prev, next])

theorem listNext_apply (given : elem ≠ 0) (next : heap.next elem ≠ 0) :
    listNext elem heap = .returned (heap.next elem) heap := by
  unfold listNext
  rw [bind_of_returned (assert_start given next), getNext_apply given]

theorem listPrev_apply (given : elem ≠ 0) (prev : heap.prev elem ≠ 0) :
    listPrev elem heap = .returned (heap.prev elem) heap := by
  unfold listPrev
  rw [bind_of_returned (assert_place given prev), getPrev_apply given]

theorem listInsert_apply (place : before ≠ 0) (prev : heap.prev before ≠ 0) (given : elem ≠ 0) (other : elem ≠ before) :
    listInsert before elem heap = .returned () (heap.putBetween (heap.prev before) elem elem before) := by
  have kept : ((heap.setPrev elem (heap.prev before)).setNext elem before).prev before = heap.prev before :=
    Function.update_of_ne (Ne.symm other) _ _
  unfold listInsert
  rw [bind_of_returned (assert_place place prev), bind_of_returned (assert_apply (by simpa using given)),
    bind_of_returned (getPrev_apply place), bind_of_returned (setPrev_apply given _),
    bind_of_returned (setNext_apply given _), bind_of_returned (getPrev_apply place), kept,
    bind_of_returned (setNext_apply prev _), setPrev_apply place]
  rfl

theorem listRemove_apply (given : elem ≠ 0) (prev : heap.prev elem ≠ 0) (next : heap.next elem ≠ 0)
    (other : heap.prev elem ≠ elem) :
    listRemove elem heap = .returned (heap.next elem) (heap.join (heap.prev elem) (heap.next elem)) := by
  have kept : (heap.setNext (heap.prev elem) (heap.next elem)).next elem = heap.next elem :=
    Function.update_of_ne (Ne.symm other) _ _
  unfold listRemove
  rw [bind_of_returned (assert_interior given prev next), bind_of_returned (getPrev_apply given),
    bind_of_returned (getNext_apply given), bind_of_returned (setNext_apply prev _),
    bind_of_returned (getNext_apply given), bind_of_returned (getPrev_apply given), kept,
    bind_of_returned (setPrev_apply next _), getNext_apply given]
  exact congrArg (fun value => Execution.returned value _) kept

theorem listSplice_same (place : before ≠ 0) (prev : heap.prev before ≠ 0) :
    listSplice before first first heap = .returned () heap := by
  unfold listSplice
  rw [bind_of_returned (assert_place place prev), if_pos rfl]
  rfl

/-- The range ends with `last`, the element before `behind`. -/
theorem listSplice_apply {behind x y : Nat} (place : before ≠ 0) (hasPrev : heap.prev before ≠ 0)
    (different : first ≠ behind) (behindGiven : behind ≠ 0) (isLast : heap.prev behind = last)
    (firstGiven : first ≠ 0) (firstPrev : heap.prev first = x) (xGiven : x ≠ 0) (firstNext : heap.next first ≠ 0)
    (lastGiven : last ≠ 0) (lastPrev : heap.prev last ≠ 0) (lastNext : heap.next last = behind)
    (notFirst : before ≠ first) (xNotLast : x ≠ last)
    (isY : (heap.join x behind).prev before = y) (yGiven : y ≠ 0) :
    listSplice before first behind heap = .returned () ((heap.join x behind).putBetween y first last before) := by
  have one : (heap.setNext x behind).next last = behind := (Function.update_of_ne (Ne.symm xNotLast) _ _).trans lastNext
  have two : (heap.setNext x behind).prev first = x := firstPrev
  have three : ((heap.setNext x behind).setPrev behind x).prev before = y := isY
  have four : ((((heap.setNext x behind).setPrev behind x).setPrev first y).setNext last before).prev before = y :=
    (Function.update_of_ne notFirst _ _).trans isY
  unfold listSplice
  rw [bind_of_returned (assert_place place hasPrev), if_neg different,
    bind_of_returned (listPrev_apply behindGiven (isLast ▸ lastGiven)), isLast]
  rw [bind_of_returned (assert_interior firstGiven (firstPrev ▸ xGiven) firstNext),
    bind_of_returned (assert_interior lastGiven lastPrev (lastNext ▸ behindGiven)),
    bind_of_returned (getPrev_apply firstGiven), bind_of_returned (getNext_apply lastGiven), firstPrev, lastNext,
    bind_of_returned (setNext_apply xGiven _),
    bind_of_returned (getNext_apply lastGiven), bind_of_returned (getPrev_apply firstGiven), one, two,
    bind_of_returned (setPrev_apply behindGiven _), bind_of_returned (getPrev_apply place), three,
    bind_of_returned (setPrev_apply firstGiven _), bind_of_returned (setNext_apply lastGiven _),
    bind_of_returned (getPrev_apply place), four, bind_of_returned (setNext_apply yGiven _), setPrev_apply place]
  rfl

end Spec

/-! ## Lists in a heap -/

def Header.nodes (list : Header) (elems : List Nat) : List Nat := list.head :: (elems ++ [list.tail])

/-- The list has these elements: the links lead through them in both directions, between headers that end there. -/
structure Holds (heap : Heap) (list : Header) (elems : List Nat) : Prop where
  linked : heap.Linked (list.nodes elems)
  first : heap.prev list.head = 0
  last : heap.next list.tail = 0
  distinct : (list.nodes elems).Nodup
  present : 0 ∉ list.nodes elems

section List
variable {heap other : Heap} {list : Header} {front part back : List Nat}

theorem Header.nodes_append (list : Header) (front back : List Nat) :
    list.nodes (front ++ back) = (list.head :: front) ++ (back ++ [list.tail]) := by
  simp [Header.nodes]

theorem Header.mem_nodes {elems : List Nat} {z : Nat} :
    z ∈ list.nodes elems ↔ z = list.head ∨ z ∈ elems ∨ z = list.tail := by
  simp [Header.nodes]

theorem Holds.of_eq {elems : List Nat} (holds : Holds heap list elems)
    (same : ∀ z ∈ list.nodes elems, other.prev z = heap.prev z ∧ other.next z = heap.next z) : Holds other list elems where
  linked := holds.linked.of_eq (fun z inside => (same z (List.dropLast_subset _ inside)).2)
    (fun z inside => (same z (List.mem_of_mem_tail inside)).1)
  first := (same _ (by simp [Header.nodes])).1.trans holds.first
  last := (same _ (by simp [Header.nodes])).2.trans holds.last
  distinct := holds.distinct
  present := holds.present

theorem exists_around (list : Header) (front back : List Nat) : ∃ left right, ∀ part,
    list.nodes (front ++ (part ++ back)) =
      left ++ front.getLastD list.head :: (part ++ back.headD list.tail :: right) := by
  obtain ⟨left, before⟩ := Links.exists_dropLast list.head front
  obtain ⟨right, behind⟩ := Links.exists_tail list.tail back
  refine ⟨left, right, fun part => ?_⟩
  rw [Header.nodes_append, before, List.append_assoc part, behind]
  simp

theorem Holds.neighbours (holds : Holds heap list (front ++ back)) :
    heap.next (front.getLastD list.head) = back.headD list.tail ∧
      heap.prev (back.headD list.tail) = front.getLastD list.head := by
  obtain ⟨left, right, around⟩ := exists_around list front back
  have linked : heap.Linked (list.nodes (front ++ ([] ++ back))) := holds.linked
  rw [around, List.nil_append] at linked
  exact (Links.linked_append_cons.mp linked).2.1

theorem Holds.apart (holds : Holds heap list (front ++ back)) {x y : Nat} (before : x = list.head ∨ x ∈ front)
    (behind : y ∈ back ∨ y = list.tail) : x ≠ y := by
  have distinct := holds.distinct
  rw [Header.nodes_append] at distinct
  exact (List.nodup_append.mp distinct).2.2 x (List.mem_cons.mpr before) y (by simpa using behind)

theorem headD_mem (y : Nat) (back : List Nat) : back.headD y ∈ back ∨ back.headD y = y := by
  cases back with
  | nil => exact Or.inr rfl
  | cons z back => exact Or.inl List.mem_cons_self

theorem getLastD_mem (x : Nat) (front : List Nat) : front.getLastD x = x ∨ front.getLastD x ∈ front :=
  List.mem_cons.mp List.getLastD_mem_cons

section Ends
variable {elems : List Nat} (distinct : (list.nodes elems).Nodup) {z : Nat}
include distinct

theorem head_ne (inside : z ∈ elems ∨ z = list.tail) : list.head ≠ z := by
  rintro rfl
  exact (List.nodup_cons.mp distinct).1 (by simpa using inside)

theorem tail_ne (inside : z = list.head ∨ z ∈ elems) : list.tail ≠ z := by
  rintro rfl
  have split : (list.head :: elems ++ [list.tail]).Nodup := distinct
  exact (List.nodup_append.mp split).2.2 list.tail (List.mem_cons.mpr inside) list.tail (by simp) rfl

end Ends

theorem Holds.join (holds : Holds heap list (front ++ (part ++ back))) :
    Holds (heap.join (front.getLastD list.head) (back.headD list.tail)) list (front ++ back) ∧
      (heap.join (front.getLastD list.head) (back.headD list.tail)).Linked part := by
  obtain ⟨left, right, around⟩ := exists_around list front back
  have shorter : list.nodes (front ++ back) = left ++ front.getLastD list.head :: back.headD list.tail :: right :=
    around []
  have fewer : (list.nodes (front ++ back)).Sublist (list.nodes (front ++ (part ++ back))) := by
    rw [around, shorter]
    exact (List.Sublist.refl left).append ((List.sublist_append_right _ _).cons_cons _)
  have distinct := holds.distinct.sublist fewer
  obtain ⟨joined, inner⟩ := (around part ▸ holds.linked).join (around part ▸ holds.distinct)
  rw [← shorter] at joined
  have notHead : list.head ≠ back.headD list.tail :=
    head_ne distinct ((headD_mem _ back).imp_left (List.mem_append_right _))
  have notTail : list.tail ≠ front.getLastD list.head :=
    tail_ne distinct ((getLastD_mem _ front).imp_right (List.mem_append_left _))
  refine ⟨⟨joined, ?_, ?_, distinct, fun inside => holds.present (fewer.subset inside)⟩, inner⟩
  · exact (Function.update_of_ne notHead _ _).trans holds.first
  · exact (Function.update_of_ne notTail _ _).trans holds.last

theorem Holds.putBetween {first last : Nat} (holds : Holds heap list (front ++ back)) (linked : heap.Linked part)
    (isFirst : part.head? = some first) (isLast : part.getLast? = some last)
    (distinct : (list.nodes (front ++ (part ++ back))).Nodup) (present : 0 ∉ part) :
    Holds (heap.putBetween (front.getLastD list.head) first last (back.headD list.tail)) list
      (front ++ (part ++ back)) := by
  obtain ⟨left, right, around⟩ := exists_around list front back
  have shorter : list.nodes (front ++ back) = left ++ front.getLastD list.head :: back.headD list.tail :: right :=
    around []
  have put := (shorter ▸ holds.linked).putBetween linked isFirst isLast (around part ▸ distinct)
  rw [← around] at put
  have inPart : ∀ {z}, z ∈ part → z ∈ front ++ (part ++ back) := fun inside =>
    List.mem_append_right _ (List.mem_append_left _ inside)
  have inBack : ∀ {z}, z ∈ back → z ∈ front ++ (part ++ back) := fun inside =>
    List.mem_append_right _ (List.mem_append_right _ inside)
  have firstIn : list.head ≠ first := head_ne distinct (Or.inl (inPart (List.mem_of_mem_head? isFirst)))
  have lastIn : list.tail ≠ last := tail_ne distinct (Or.inr (inPart (List.mem_of_mem_getLast? isLast)))
  have notHead : list.head ≠ back.headD list.tail := head_ne distinct ((headD_mem _ back).imp_left inBack)
  have notTail : list.tail ≠ front.getLastD list.head :=
    tail_ne distinct ((getLastD_mem _ front).imp_right (List.mem_append_left _))
  refine ⟨put, ?_, ?_, distinct, fun inside => ?_⟩
  · exact ((Function.update_of_ne notHead _ _).trans (Function.update_of_ne firstIn _ _)).trans holds.first
  · exact ((Function.update_of_ne notTail _ _).trans (Function.update_of_ne lastIn _ _)).trans holds.last
  · have older : 0 ∉ list.nodes (front ++ back) := holds.present
    simp only [Header.mem_nodes, List.mem_append] at inside older
    tauto

theorem listInit_holds (heap : Heap) (headGiven : list.head ≠ 0) (tailGiven : list.tail ≠ 0)
    (different : list.head ≠ list.tail) : ∃ after, listInit list heap = .returned () after ∧ Holds after list [] := by
  unfold listInit
  rw [bind_of_returned (setPrev_apply headGiven _), bind_of_returned (setNext_apply headGiven _),
    bind_of_returned (setPrev_apply tailGiven _), setNext_apply tailGiven]
  refine ⟨_, rfl, List.isChain_pair.mpr ⟨?_, ?_⟩, ?_, ?_, ?_, ?_⟩
  · simp [Links.setPrev, Links.setNext, different]
  · simp [Links.setPrev, Links.setNext]
  · simp [Links.setPrev, Links.setNext, different]
  · simp [Links.setNext]
  · simp [Header.nodes, different]
  · simp [Header.nodes, Ne.symm headGiven, Ne.symm tailGiven]

/-! ### Reversal -/

/-- By induction on the elements that are left; those the loop has passed have their links exchanged. -/
theorem reverseLoop_apply (holds : Holds heap list (front ++ back)) {fuel : Nat} (enough : back.length < fuel) :
    reverseLoop list fuel (back.headD list.tail) (front.foldl Links.swapAt heap) =
      .returned () ((front ++ back).foldl Links.swapAt heap) := by
  induction back generalizing front fuel with
  | nil =>
    obtain ⟨fuel, rfl⟩ := Nat.exists_eq_succ_of_ne_zero (Nat.ne_of_gt enough)
    simp [reverseLoop, listEnd]
  | cons z back ih =>
    obtain ⟨fuel, rfl⟩ := Nat.exists_eq_succ_of_ne_zero (Nat.ne_of_gt (Nat.lt_of_le_of_lt (Nat.zero_le _) enough))
    have inside : z ∈ front ++ z :: back := by simp
    have notTail : z ≠ listEnd list := Ne.symm (tail_ne holds.distinct (Or.inr inside))
    have given : z ≠ 0 := by
      rintro rfl
      exact holds.present (Header.mem_nodes.mpr (Or.inr (Or.inl inside)))
    have elemsDistinct : (front ++ z :: back).Nodup :=
      (List.nodup_append.mp (List.nodup_cons.mp holds.distinct).2).1
    have unpassed : z ∉ front := fun passed => (List.nodup_append.mp elemsDistinct).2.2 z passed z (by simp) rfl
    have split : front ++ z :: back = (front ++ [z]) ++ back := by simp
    rw [split] at holds ⊢
    -- The next element is where the exchanged link leads.
    have next : ((front ++ [z]).foldl Links.swapAt heap).prev z = back.headD list.tail := by
      have frontDistinct : (front ++ [z]).Nodup := elemsDistinct.sublist (by simp)
      rw [(Links.foldl_swapAt frontDistinct z).1, if_pos (by simp), ← holds.neighbours.1, List.getLastD_concat]
    have swapped : (front ++ [z]).foldl Links.swapAt heap =
        (((front.foldl Links.swapAt heap).setPrev z ((front.foldl Links.swapAt heap).next z)).setNext z
          ((front.foldl Links.swapAt heap).prev z)) := by
      rw [List.foldl_append]
      rfl
    rw [List.headD_cons, reverseLoop, if_neg notTail, bind_of_returned (getPrev_apply given),
      bind_of_returned (getNext_apply given), bind_of_returned (setPrev_apply given _),
      bind_of_returned (setNext_apply given _), ← swapped, bind_of_returned (getPrev_apply given), next]
    exact ih holds (by simpa using enough)

def reversed (heap : Heap) (list : Header) (elems : List Nat) (first last : Nat) : Heap :=
  ((((elems.foldl Links.swapAt heap).setNext list.head last).setPrev list.tail first).setPrev last list.head).setNext
    first list.tail

section Reversed
variable {elems : List Nat} {first last : Nat} (holds : Holds heap list elems) (isFirst : elems.head? = some first)
  (isLast : elems.getLast? = some last)
include holds isFirst isLast

theorem Holds.ends : heap.next list.head = first ∧ heap.prev list.tail = last ∧ heap.prev first = list.head ∧
    heap.next last = list.tail := by
  obtain ⟨rest, firstSplit⟩ := List.head?_eq_some_iff.mp isFirst
  obtain ⟨init, lastSplit⟩ := List.getLast?_eq_some_iff.mp isLast
  have whole : Holds heap list ([] ++ elems) := holds
  have start := whole.neighbours
  have finish := ((List.append_nil elems).symm ▸ holds).neighbours
  rw [firstSplit] at start
  rw [lastSplit] at finish
  simp only [List.getLastD_nil, List.headD_cons, List.getLastD_concat, List.headD_nil] at start finish
  exact ⟨start.1, finish.2, start.2, finish.1⟩

theorem listReverse_apply {fuel : Nat} (enough : elems.length < fuel) :
    listReverse fuel list heap = .returned () (reversed heap list elems first last) := by
  obtain ⟨toFirst, toLast, fromFirst, fromLast⟩ := holds.ends isFirst isLast
  have firstIn : first ∈ elems := List.mem_of_mem_head? isFirst
  have lastIn : last ∈ elems := List.mem_of_mem_getLast? isLast
  have nonzero : ∀ z ∈ list.nodes elems, z ≠ 0 := fun z inside same => holds.present (same ▸ inside)
  have headGiven := nonzero list.head (by simp [Header.nodes])
  have tailGiven := nonzero list.tail (by simp [Header.nodes])
  have firstGiven := nonzero first (by simp [Header.nodes, firstIn])
  have lastGiven := nonzero last (by simp [Header.nodes, lastIn])
  have headOut : list.head ∉ elems := fun inside => head_ne holds.distinct (Or.inl inside) rfl
  have tailOut : list.tail ∉ elems := fun inside => tail_ne holds.distinct (Or.inr inside) rfl
  have elemsDistinct : elems.Nodup := (List.nodup_append.mp (List.nodup_cons.mp holds.distinct).2).1
  have loop : reverseLoop list fuel first heap = .returned () (elems.foldl Links.swapAt heap) := by
    have whole : Holds heap list ([] ++ elems) := holds
    have run := reverseLoop_apply whole enough
    rw [List.headD_eq_head?_getD, isFirst] at run
    exact run
  have begin_ : listBegin list heap = .returned first heap := by rw [listBegin, getNext_apply headGiven, toFirst]
  have filled : listEmpty list heap = .returned false heap := by
    have other : (first == list.tail) = false := beq_false_of_ne (Ne.symm (tail_ne holds.distinct (Or.inr firstIn)))
    rw [listEmpty, bind_of_returned begin_, listEnd, other]
    rfl
  unfold listReverse
  rw [bind_of_returned filled, Bool.not_false, if_pos rfl, bind_of_returned begin_, bind_of_returned loop]
  generalize swapped : elems.foldl Links.swapAt heap = middle
  have middlePrev : ∀ z, middle.prev z = if z ∈ elems then heap.next z else heap.prev z := fun z => by
    rw [← swapped]
    exact (Links.foldl_swapAt elemsDistinct z).1
  have middleNext : ∀ z, middle.next z = if z ∈ elems then heap.prev z else heap.next z := fun z => by
    rw [← swapped]
    exact (Links.foldl_swapAt elemsDistinct z).2
  have headNext : middle.next list.head = first := by rw [middleNext, if_neg headOut, toFirst]
  have tailPrev : middle.prev list.tail = last := by rw [middlePrev, if_neg tailOut, toLast]
  have lastPrev : ((middle.setNext list.head last).setPrev list.tail first).prev last = list.tail := by
    refine (Function.update_of_ne (Ne.symm (tail_ne holds.distinct (Or.inr lastIn))) _ _).trans ?_
    exact (middlePrev last).trans ((if_pos lastIn).trans fromLast)
  have firstNext : ((middle.setNext list.head last).setPrev list.tail first).next first = list.head := by
    refine (Function.update_of_ne (Ne.symm (head_ne holds.distinct (Or.inl firstIn))) _ _).trans ?_
    exact (middleNext first).trans ((if_pos firstIn).trans fromFirst)
  have headLast : ((middle.setNext list.head last).setPrev list.tail first).next list.head = last :=
    Function.update_self _ _ _
  have tailFirst : ((middle.setNext list.head last).setPrev list.tail first).prev list.tail = first :=
    Function.update_self _ _ _
  rw [bind_of_returned (getNext_apply headGiven), headNext, bind_of_returned (getPrev_apply tailGiven), tailPrev,
    bind_of_returned (setNext_apply headGiven _), bind_of_returned (setPrev_apply tailGiven _),
    bind_of_returned (getNext_apply headGiven), headLast, bind_of_returned (getPrev_apply tailGiven), tailFirst,
    bind_of_returned (getPrev_apply lastGiven), lastPrev, bind_of_returned (getNext_apply firstGiven), firstNext,
    bind_of_returned (setPrev_apply lastGiven _), setNext_apply firstGiven, reversed, swapped]

theorem Holds.reversed : Holds (reversed heap list elems first last) list elems.reverse ∧
    ∀ z ∉ list.nodes elems, (Lists.reversed heap list elems first last).prev z = heap.prev z ∧
      (Lists.reversed heap list elems first last).next z = heap.next z := by
  have firstIn : first ∈ elems := List.mem_of_mem_head? isFirst
  have lastIn : last ∈ elems := List.mem_of_mem_getLast? isLast
  have elemsDistinct : elems.Nodup := (List.nodup_append.mp (List.nodup_cons.mp holds.distinct).2).1
  have headOut : list.head ∉ elems := fun inside => head_ne holds.distinct (Or.inl inside) rfl
  have tailOut : list.tail ∉ elems := fun inside => tail_ne holds.distinct (Or.inr inside) rfl
  have headTail : list.head ≠ list.tail := head_ne holds.distinct (Or.inr rfl)
  have prev : ∀ z, (Lists.reversed heap list elems first last).prev z =
      if z = last then list.head else if z = list.tail then first else if z ∈ elems then heap.next z else heap.prev z := by
    intro z
    simp only [Lists.reversed, Links.setPrev, Links.setNext, Function.update_apply, (Links.foldl_swapAt elemsDistinct z).1]
  have next : ∀ z, (Lists.reversed heap list elems first last).next z =
      if z = first then list.tail else if z = list.head then last else if z ∈ elems then heap.prev z else heap.next z := by
    intro z
    simp only [Lists.reversed, Links.setPrev, Links.setNext, Function.update_apply, (Links.foldl_swapAt elemsDistinct z).2]
  have inner : heap.Linked elems := by
    have whole : heap.Linked ([list.head] ++ (elems ++ [list.tail])) := holds.linked
    exact whole.right.left
  have ne : ∀ {z w : Nat}, z ∈ elems → w ∉ elems → z ≠ w := fun inside out same => out (same ▸ inside)
  refine ⟨⟨?_, ?_, ?_, ?_, ?_⟩, fun z out => ?_⟩
  · refine inner.reverse elemsDistinct isFirst isLast (fun z inside => ?_) (fun z inside => ?_) ?_ ?_
    · rw [prev, if_neg (ne inside tailOut), if_pos inside]
    · rw [next, if_neg (ne inside headOut), if_pos inside]
    · rw [next, if_neg (Ne.symm (ne firstIn headOut)), if_pos rfl]
    · rw [prev, if_neg (Ne.symm (ne lastIn tailOut)), if_pos rfl]
  · rw [prev, if_neg (Ne.symm (ne lastIn headOut)), if_neg headTail, if_neg headOut]
    exact holds.first
  · rw [next, if_neg (Ne.symm (ne firstIn tailOut)), if_neg (Ne.symm headTail), if_neg tailOut]
    exact holds.last
  · have same : (list.nodes elems.reverse).Perm (list.nodes elems) :=
      ((List.reverse_perm elems).append_right _).cons _
    exact same.nodup_iff.mpr holds.distinct
  · intro inside
    exact holds.present (by simpa [Header.mem_nodes] using inside)
  · simp only [Header.mem_nodes, not_or] at out
    rw [prev, next, if_neg (Ne.symm (ne lastIn out.2.1)), if_neg out.2.2, if_neg out.2.1,
      if_neg (Ne.symm (ne firstIn out.2.1)), if_neg out.1, if_neg out.2.1]
    exact ⟨rfl, rfl⟩

end Reversed

end List

/-! ## Families of lists -/

structure Represents {I : Type} (heap : Heap) (header : I → Header) (contents : I → List Nat) : Prop where
  holds : ∀ i, Holds heap (header i) (contents i)
  disjoint : ∀ i j, i ≠ j → ∀ z ∈ (header i).nodes (contents i), z ∉ (header j).nodes (contents j)

structure Detached {I : Type} (heap : Heap) (header : I → Header) (contents : I → List Nat) (part : List Nat) : Prop where
  linked : heap.Linked part
  distinct : part.Nodup
  present : 0 ∉ part
  apart : ∀ i, ∀ z ∈ part, z ∉ (header i).nodes (contents i)

section Family
variable {I : Type} {heap after : Heap} {header : I → Header} {contents : I → List Nat} {i j : I}
  {front part back : List Nat}

theorem Represents.nonzero (represents : Represents heap header contents) {z : Nat}
    (inside : z ∈ (header i).nodes (contents i)) : z ≠ 0 :=
  fun same => (represents.holds i).present (same ▸ inside)

theorem Represents.head_nonzero (represents : Represents heap header contents) (i : I) : (header i).head ≠ 0 :=
  represents.nonzero (Header.mem_nodes.mpr (Or.inl rfl))

theorem place_mem (list : Header) (front back : List Nat) :
    front.getLastD list.head ∈ list.nodes (front ++ back) ∧ back.headD list.tail ∈ list.nodes (front ++ back) := by
  obtain ⟨left, right, around⟩ := exists_around list front back
  have split : list.nodes (front ++ back) = left ++ front.getLastD list.head :: back.headD list.tail :: right := around []
  rw [split]
  simp

theorem Represents.place (represents : Represents heap header contents) (split : contents i = front ++ back) :
    back.headD (header i).tail ≠ 0 ∧ heap.prev (back.headD (header i).tail) = front.getLastD (header i).head ∧
      front.getLastD (header i).head ≠ 0 := by
  obtain ⟨atFront, atBack⟩ := place_mem (header i) front back
  exact ⟨represents.nonzero (split ▸ atBack), (split ▸ represents.holds i).neighbours.2,
    represents.nonzero (split ▸ atFront)⟩

variable [DecidableEq I]

section
variable (represents : Represents heap header contents)
include represents

/-- One list is another one now, made of its own elements and of cells that were in no list. -/
theorem Represents.update {elems : List Nat} (holds : Holds after (header i) elems)
    (others : ∀ z, z ∉ (header i).nodes elems → z ∉ (header i).nodes (contents i) →
      after.prev z = heap.prev z ∧ after.next z = heap.next z)
    (made : ∀ z ∈ elems, z ∈ contents i ∨ ∀ k, z ∉ (header k).nodes (contents k)) :
    Represents after header (Function.update contents i elems) := by
  -- The cells of the list are in no other one.
  have apart : ∀ k, k ≠ i → ∀ z ∈ (header i).nodes elems, z ∉ (header k).nodes (contents k) := by
    intro k other z inside
    rcases Header.mem_nodes.mp inside with rfl | member | rfl
    · exact represents.disjoint i k (Ne.symm other) _ (by simp [Header.nodes])
    · rcases made z member with own | fresh
      · exact represents.disjoint i k (Ne.symm other) z (by simp [Header.nodes, own])
      · exact fresh k
    · exact represents.disjoint i k (Ne.symm other) _ (by simp [Header.nodes])
  refine ⟨fun k => ?_, fun k l different z => ?_⟩
  · by_cases here : k = i
    · subst here
      rw [Function.update_self]
      exact holds
    · rw [Function.update_of_ne here]
      refine (represents.holds k).of_eq fun z inside => others z (fun mine => apart k here z mine inside) fun mine => ?_
      exact represents.disjoint i k (Ne.symm here) z mine inside
  · by_cases here : k = i
    · subst here
      rw [Function.update_self, Function.update_of_ne (Ne.symm different)]
      exact apart l (Ne.symm different) z
    · rw [Function.update_of_ne here]
      by_cases there : l = i
      · subst there
        rw [Function.update_self]
        exact fun inside mine => apart k here z mine inside
      · rw [Function.update_of_ne there]
        exact represents.disjoint k l different z

theorem Represents.join (split : contents i = front ++ (part ++ back)) :
    Represents (heap.join (front.getLastD (header i).head) (back.headD (header i).tail)) header
        (Function.update contents i (front ++ back)) ∧
      Detached (heap.join (front.getLastD (header i).head) (back.headD (header i).tail)) header
        (Function.update contents i (front ++ back)) part := by
  obtain ⟨joined, inner⟩ := (split ▸ represents.holds i).join
  obtain ⟨atFront, atBack⟩ := place_mem (header i) front back
  have whole : ((header i).nodes (front ++ (part ++ back))).Nodup := split ▸ (represents.holds i).distinct
  have elemsDistinct : (front ++ (part ++ back)).Nodup := (List.nodup_append.mp (List.nodup_cons.mp whole).2).1
  have mine : ∀ z ∈ part, z ∈ contents i := fun z inside => by simp [split, inside]
  have fewer : ∀ z ∈ front ++ back, z ∈ contents i := by
    intro z inside
    rw [split]
    simp only [List.mem_append] at inside ⊢
    tauto
  have others : ∀ z, z ∉ (header i).nodes (front ++ back) → z ∉ (header i).nodes (contents i) →
      (heap.join (front.getLastD (header i).head) (back.headD (header i).tail)).prev z = heap.prev z ∧
        (heap.join (front.getLastD (header i).head) (back.headD (header i).tail)).next z = heap.next z :=
    fun z out _ => ⟨Function.update_of_ne (Ne.symm (ne_of_mem_of_not_mem atBack out)) _ _,
      Function.update_of_ne (Ne.symm (ne_of_mem_of_not_mem atFront out)) _ _⟩
  refine ⟨represents.update joined others fun z inside => Or.inl (fewer z inside), inner, ?_, ?_, fun k z inside => ?_⟩
  · exact (List.nodup_append.mp (List.nodup_append.mp elemsDistinct).2.1).1
  · exact fun inside => (represents.holds i).present (by simp [Header.mem_nodes, mine 0 inside])
  · by_cases here : k = i
    · subst here
      rw [Function.update_self]
      obtain ⟨-, behind, apart⟩ := List.nodup_append.mp elemsDistinct
      simp only [Header.mem_nodes, List.mem_append, not_or]
      refine ⟨Ne.symm (head_ne whole (Or.inl (by simp [inside]))), ⟨fun early => ?_, fun late => ?_⟩,
        Ne.symm (tail_ne whole (Or.inr (by simp [inside])))⟩
      · exact apart z early z (by simp [inside]) rfl
      · exact (List.nodup_append.mp behind).2.2 z inside z late rfl
    · rw [Function.update_of_ne here]
      exact represents.disjoint i k (Ne.symm here) z (by simp [Header.mem_nodes, mine z inside])

theorem Represents.putBetween {first last : Nat}
    (detached : Detached heap header contents part) (split : contents i = front ++ back)
    (isFirst : part.head? = some first) (isLast : part.getLast? = some last) :
    Represents (heap.putBetween (front.getLastD (header i).head) first last (back.headD (header i).tail)) header
      (Function.update contents i (front ++ (part ++ back))) := by
  have holds : Holds heap (header i) (front ++ back) := split ▸ represents.holds i
  have out : ∀ z ∈ part, z ∉ (header i).nodes (front ++ back) := fun z inside => split ▸ detached.apart i z inside
  have whole : ((header i).nodes (front ++ (part ++ back))).Nodup := by
    have perm : ((header i).nodes (front ++ (part ++ back))).Perm (part ++ (header i).nodes (front ++ back)) := by
      rw [Header.nodes_append, Header.nodes_append, List.append_assoc part]
      exact List.perm_append_comm_assoc _ _ _
    exact perm.nodup_iff.mpr (List.nodup_append.mpr ⟨detached.distinct, holds.distinct, fun z inside w other same =>
      out z inside (same ▸ other)⟩)
  obtain ⟨atFront, atBack⟩ := place_mem (header i) front back
  refine represents.update (holds.putBetween detached.linked isFirst isLast whole detached.present)
    (fun z outside _ => ?_) fun z inside => ?_
  · have fewer : ∀ w ∈ (header i).nodes (front ++ back), z ≠ w := by
      rintro w inside rfl
      refine outside ?_
      simp only [Header.mem_nodes, List.mem_append] at inside ⊢
      tauto
    have notPart : ∀ w ∈ part, z ≠ w := by
      rintro w inside rfl
      exact outside (by simp [Header.mem_nodes, inside])
    have firstIn := notPart first (List.mem_of_mem_head? isFirst)
    have lastIn := notPart last (List.mem_of_mem_getLast? isLast)
    exact ⟨(Function.update_of_ne (fewer _ atBack) _ _).trans (Function.update_of_ne firstIn _ _),
      (Function.update_of_ne (fewer _ atFront) _ _).trans (Function.update_of_ne lastIn _ _)⟩
  · by_cases own : z ∈ part
    · exact Or.inr fun k => detached.apart k z own
    · refine Or.inl ?_
      rw [split]
      simp only [List.mem_append] at inside ⊢
      tauto

end

/-! ### The operations -/

section
variable (represents : Represents heap header contents)
include represents

theorem listInsert_represents {elem : Nat}
    (split : contents i = front ++ back) (given : elem ≠ 0) (fresh : ∀ k, elem ∉ (header k).nodes (contents k)) :
    ∃ after, listInsert (back.headD (header i).tail) elem heap = .returned () after ∧
      Represents after header (Function.update contents i (front ++ elem :: back)) := by
  obtain ⟨place, prev, prevGiven⟩ := represents.place split
  have detached : Detached heap header contents [elem] :=
    ⟨.singleton elem, List.nodup_singleton elem, by simpa using Ne.symm given, by simpa using fresh⟩
  have other : elem ≠ back.headD (header i).tail := fun same => fresh i (by
    rw [same, split]
    exact (place_mem _ _ _).2)
  refine ⟨_, listInsert_apply place (prev.symm ▸ prevGiven) given other, ?_⟩
  rw [prev]
  exact represents.putBetween detached split rfl rfl

/-- `list_remove` also returns what followed the element. -/
theorem listRemove_represents {elem : Nat} (split : contents i = front ++ elem :: back) :
    ∃ after, listRemove elem heap = .returned (back.headD (header i).tail) after ∧
      Represents after header (Function.update contents i (front ++ back)) := by
  obtain ⟨given, prev, prevGiven⟩ := represents.place split
  rw [List.headD_cons] at given prev
  have behind : contents i = (front ++ [elem]) ++ back := by simp [split]
  obtain ⟨nextGiven, -, -⟩ := represents.place behind
  have next := (behind ▸ represents.holds i).neighbours.1
  rw [List.getLastD_concat] at next
  have other : front.getLastD (header i).head ≠ elem :=
    (split ▸ represents.holds i).apart (getLastD_mem _ _) (Or.inl List.mem_cons_self)
  have part : contents i = front ++ ([elem] ++ back) := split
  refine ⟨_, ?_, (represents.join part).1⟩
  have applied := listRemove_apply given (prev.symm ▸ prevGiven) (next.symm ▸ nextGiven) (prev.symm ▸ other)
  rw [prev, next] at applied
  exact applied

/-- The part moves from a place of list `i` to a place of what is then list `j`, which may be the same one. -/
theorem listSplice_represents {left right : List Nat} (source : contents i = front ++ (part ++ back))
    (target : Function.update contents i (front ++ back) j = left ++ right) :
    ∃ after, listSplice (right.headD (header j).tail) ((part ++ back).headD (header i).tail) (back.headD (header i).tail)
        heap = .returned () after ∧
      Represents after header (Function.update (Function.update contents i (front ++ back)) j (left ++ (part ++ right))) := by
  obtain ⟨joined, detached⟩ := represents.join source
  obtain ⟨place, prev, prevGiven⟩ := joined.place target
  cases part with
  | nil =>
    rw [List.nil_append] at source
    rw [← source, Function.update_eq_self] at target ⊢
    obtain ⟨place, prev, prevGiven⟩ := represents.place target
    refine ⟨heap, listSplice_same place (prev.symm ▸ prevGiven), ?_⟩
    rw [List.nil_append, ← target, Function.update_eq_self]
    exact represents
  | cons first rest =>
    obtain ⟨init, last, ended⟩ : ∃ init last, first :: rest = init ++ [last] :=
      ⟨_, _, (List.dropLast_append_getLast (List.cons_ne_nil first rest)).symm⟩
    have lastIn : last ∈ first :: rest := by simp [ended]
    -- The range at its two ends, and the list behind it.
    have fromFirst : contents i = (front ++ [first]) ++ (rest ++ back) := by simp [source]
    have fromLast : contents i = (front ++ init) ++ (last :: back) := by simp [source, ended]
    have behind : contents i = (front ++ (init ++ [last])) ++ back := by simp [source, ended]
    obtain ⟨firstGiven, firstPrev, xGiven⟩ := represents.place source
    obtain ⟨firstNextGiven, -, -⟩ := represents.place fromFirst
    obtain ⟨lastGiven, lastPrev, lastPrevGiven⟩ := represents.place fromLast
    obtain ⟨behindGiven, behindPrev, -⟩ := represents.place behind
    have firstNext := (fromFirst ▸ represents.holds i).neighbours.1
    have lastNext := (behind ▸ represents.holds i).neighbours.1
    simp only [List.cons_append, List.headD_cons] at firstGiven firstPrev lastGiven lastPrev
    rw [← List.append_assoc, List.getLastD_concat] at behindPrev lastNext
    rw [List.getLastD_concat] at firstNext
    have different : first ≠ back.headD (header i).tail := by
      refine (behind ▸ represents.holds i).apart (Or.inr ?_) (headD_mem _ _)
      simp [← ended]
    have apart : front.getLastD (header i).head ≠ last := by
      refine (source ▸ represents.holds i).apart (getLastD_mem _ _) (Or.inl ?_)
      exact List.mem_append_left _ lastIn
    have inTarget : right.headD (header j).tail ∈
        (header j).nodes (Function.update contents i (front ++ back) j) := by
      rw [target]
      exact (place_mem _ _ _).2
    have notFirst : right.headD (header j).tail ≠ first :=
      ne_of_mem_of_not_mem inTarget (detached.apart j first List.mem_cons_self)
    -- Before the range is taken out, only what is behind it has another element before it.
    have hasPrev : heap.prev (right.headD (header j).tail) ≠ 0 := by
      by_cases same : right.headD (header j).tail = back.headD (header i).tail
      · rw [same, behindPrev]
        exact lastGiven
      · rw [← prev] at prevGiven
        rwa [show (heap.join (front.getLastD (header i).head) (back.headD (header i).tail)).prev
          (right.headD (header j).tail) = heap.prev (right.headD (header j).tail) from
          Function.update_of_ne same _ _] at prevGiven
    refine ⟨_, listSplice_apply place hasPrev different behindGiven behindPrev firstGiven firstPrev xGiven
      (firstNext.symm ▸ firstNextGiven) lastGiven (lastPrev.symm ▸ lastPrevGiven) lastNext notFirst apart prev prevGiven, ?_⟩
    exact joined.putBetween detached target rfl (by rw [ended, List.getLast?_concat])

theorem listReverse_represents (i : I) :
    ∃ after, (∀ fuel > (contents i).length, listReverse fuel (header i) heap = .returned () after) ∧
      Represents after header (Function.update contents i (contents i).reverse) := by
  have holds := represents.holds i
  cases isFirst : (contents i).head? with
  | none =>
    have none : contents i = [] := List.head?_eq_none_iff.mp isFirst
    have headGiven := represents.head_nonzero i
    have alone : heap.next (header i).head = (header i).tail := by
      rw [none] at holds
      have split : Holds heap (header i) ([] ++ []) := holds
      exact split.neighbours.1
    have empty : listEmpty (header i) heap = .returned true heap := by
      rw [listEmpty, listBegin, bind_of_returned (getNext_apply headGiven), alone, listEnd, beq_self_eq_true]
      rfl
    refine ⟨heap, fun fuel _ => ?_, ?_⟩
    · unfold listReverse
      rw [bind_of_returned empty, Bool.not_true, if_neg (by decide)]
      rfl
    · rw [none, List.reverse_nil, ← none, Function.update_eq_self]
      exact represents
  | some first =>
    have filled : contents i ≠ [] := fun none => by simp [none] at isFirst
    have isLast := List.getLast?_eq_some_getLast filled
    obtain ⟨reversed, others⟩ := holds.reversed isFirst isLast
    refine ⟨_, fun fuel enough => listReverse_apply holds isFirst isLast enough,
      represents.update reversed (fun z _ => others z) ?_⟩
    exact fun z inside => Or.inl (List.mem_reverse.mp inside)

end

end Family

/-! ## Whole runs of operations -/

inductive Op (I : Type) where
  | insert (before elem : Nat)
  | splice (before first last : Nat)
  | pushFront (i : I) (elem : Nat)
  | pushBack (i : I) (elem : Nat)
  | remove (elem : Nat)
  | reverse (i : I)

section Runs
variable {I : Type} (header : I → Header)

def Op.perform (fuel : Nat) : Op I → Code Unit
  | .insert before elem => listInsert before elem
  | .splice before first last => listSplice before first last
  | .pushFront i elem => listPushFront (header i) elem
  | .pushBack i elem => listPushBack (header i) elem
  | .remove elem => do
    let _ ← listRemove elem
  | .reverse i => listReverse fuel (header i)

def performAll (fuel : Nat) : List (Op I) → Code Unit
  | [] => return ()
  | op :: rest => do
    op.perform header fuel
    performAll fuel rest

variable [DecidableEq I]

/-- What an operation makes of the sequences. A place of a list is given by the
first element behind it, or by the tail. -/
inductive Op.Turns : Op I → (I → List Nat) → (I → List Nat) → Prop
  | insert {contents : I → List Nat} {i : I} {front back : List Nat} {elem : Nat}
      (split : contents i = front ++ back) (given : elem ≠ 0) (fresh : ∀ k, elem ∉ (header k).nodes (contents k)) :
      Turns (.insert (back.headD (header i).tail) elem) contents (Function.update contents i (front ++ elem :: back))
  | splice {contents : I → List Nat} {i j : I} {front part back left right : List Nat}
      (source : contents i = front ++ (part ++ back))
      (target : Function.update contents i (front ++ back) j = left ++ right) :
      Turns (.splice (right.headD (header j).tail) ((part ++ back).headD (header i).tail) (back.headD (header i).tail))
        contents (Function.update (Function.update contents i (front ++ back)) j (left ++ (part ++ right)))
  | pushFront {contents : I → List Nat} {i : I} {elem : Nat}
      (given : elem ≠ 0) (fresh : ∀ k, elem ∉ (header k).nodes (contents k)) :
      Turns (.pushFront i elem) contents (Function.update contents i (elem :: contents i))
  | pushBack {contents : I → List Nat} {i : I} {elem : Nat}
      (given : elem ≠ 0) (fresh : ∀ k, elem ∉ (header k).nodes (contents k)) :
      Turns (.pushBack i elem) contents (Function.update contents i (contents i ++ [elem]))
  | remove {contents : I → List Nat} {i : I} {front back : List Nat} {elem : Nat}
      (split : contents i = front ++ elem :: back) :
      Turns (.remove elem) contents (Function.update contents i (front ++ back))
  | reverse {contents : I → List Nat} {i : I} :
      Turns (.reverse i) contents (Function.update contents i (contents i).reverse)

inductive Turned : List (Op I) → (I → List Nat) → (I → List Nat) → Prop
  | nil (contents : I → List Nat) : Turned [] contents contents
  | cons {op : Op I} {rest : List (Op I)} {contents middle final : I → List Nat} :
      op.Turns header contents middle → Turned rest middle final → Turned (op :: rest) contents final

variable {header} {heap : Heap} {contents final : I → List Nat}

theorem perform_represents {op : Op I} (represents : Represents heap header contents)
    (turns : op.Turns header contents final) : ∃ after bound,
      (∀ fuel ≥ bound, op.perform header fuel heap = .returned () after) ∧ Represents after header final := by
  cases turns with
  | insert split given fresh =>
    obtain ⟨after, inserted, represented⟩ := listInsert_represents represents split given fresh
    exact ⟨after, 0, fun _ _ => inserted, represented⟩
  | splice source target =>
    obtain ⟨after, spliced, represented⟩ := listSplice_represents represents source target
    exact ⟨after, 0, fun _ _ => spliced, represented⟩
  | @pushFront _ i elem given fresh =>
    have split : contents i = [] ++ contents i := rfl
    obtain ⟨after, inserted, represented⟩ := listInsert_represents represents split given fresh
    refine ⟨after, 0, fun _ _ => ?_, represented⟩
    have first := (split ▸ represents.holds i).neighbours.1
    rw [Op.perform, listPushFront, listBegin, bind_of_returned (getNext_apply (represents.head_nonzero i))]
    exact (congrArg (fun place => listInsert place elem heap) first).trans inserted
  | @pushBack _ i elem given fresh =>
    obtain ⟨after, inserted, represented⟩ := listInsert_represents represents (List.append_nil (contents i)).symm given fresh
    exact ⟨after, 0, fun _ _ => inserted, represented⟩
  | remove split =>
    obtain ⟨after, removed, represented⟩ := listRemove_represents represents split
    refine ⟨after, 0, fun _ _ => ?_, represented⟩
    rw [Op.perform, bind_of_returned removed]
    rfl
  | @reverse _ i =>
    obtain ⟨after, turned, represented⟩ := listReverse_represents represents i
    exact ⟨after, (contents i).length + 1, turned, represented⟩

/-- Over any run of operations the heap represents the sequences that they make. -/
theorem list_operations_implement_sequences {ops : List (Op I)} (represents : Represents heap header contents)
    (turned : Turned header ops contents final) : ∃ after bound,
      (∀ fuel ≥ bound, performAll header fuel ops heap = .returned () after) ∧ Represents after header final := by
  induction turned generalizing heap with
  | nil contents => exact ⟨heap, 0, fun _ _ => rfl, represents⟩
  | cons turns _ ih =>
    obtain ⟨middle, first, performed, halfway⟩ := perform_represents represents turns
    obtain ⟨after, second, others, represented⟩ := ih halfway
    refine ⟨after, max first second, fun fuel enough => ?_, represented⟩
    rw [performAll, bind_of_returned (performed fuel (by omega))]
    exact others fuel (by omega)

def twoLists : Heap where
  prev e := if e = 5 then 1 else if e = 6 then 5 else if e = 2 then 6 else if e = 7 then 3 else if e = 4 then 7 else 0
  next e := if e = 1 then 5 else if e = 5 then 6 else if e = 6 then 2 else if e = 3 then 7 else if e = 7 then 4 else 0

def twoHeaders (second : Bool) : Header := if second then ⟨3, 4⟩ else ⟨1, 2⟩

def twoContents (second : Bool) : List Nat := if second then [7] else [5, 6]

theorem twoLists_represents : Represents twoLists twoHeaders twoContents := by
  refine ⟨fun i => ?_, by decide⟩
  cases i with
  | false => exact ⟨by unfold Links.Linked; decide, by decide, by decide, by decide, by decide⟩
  | true => exact ⟨by unfold Links.Linked; decide, by decide, by decide, by decide, by decide⟩

/-- The first element goes to the end of the other list, which is then reversed. -/
theorem list_operations_implement_sequences_splice : Represents twoLists twoHeaders twoContents ∧
    ∃ after bound, (∀ fuel ≥ bound,
      performAll twoHeaders fuel [.splice 4 5 6, .reverse true, .remove 6] twoLists = .returned () after) ∧
      Represents after twoHeaders
        (Function.update (Function.update (Function.update (Function.update twoContents false [6]) true [7, 5]) true [5, 7])
          false []) := by
  refine ⟨twoLists_represents, list_operations_implement_sequences twoLists_represents ?_⟩
  have moved : Op.Turns twoHeaders (.splice 4 5 6) twoContents _ :=
    @Op.Turns.splice Bool twoHeaders _ twoContents false true [] [5] [6] [7] [] rfl rfl
  have removed : Op.Turns twoHeaders (.remove 6) (Function.update (Function.update (Function.update twoContents false [6])
      true [7, 5]) true [5, 7]) _ := @Op.Turns.remove Bool twoHeaders _ _ false [] [] 6 rfl
  exact .cons moved (.cons .reverse (.cons removed (.nil _)))

end Runs

end Pintos.Lib.Lists
