import Pintos.Lib.Lists
import Pintos.Semantics.NaturalMerge

/-! `list_sort` (`lib/kernel/list.c`), a natural merge sort in place.

`less` compares two elements by their addresses; what the elements hold does not
change. Each loop has a number of steps that it may take. The runs that a pass
puts out are counted in a `Nat`: a run has an element, and the elements have
different addresses, so that a `size_t` does not wrap.
-/

set_option autoImplicit false

namespace Pintos.Lib.Lists
open Semantics Computation NaturalMerge

section Code
variable (less : Nat → Nat → Bool)

def isSortedLoop (b : Nat) : Nat → Nat → Code Bool
  | 0, _ => stop .fuel
  | fuel + 1, a => do
    let a ← listNext a
    if a = b then return true
    else do
      let before ← listPrev a
      if less a before then return false else isSortedLoop b fuel a

def isSorted (steps a b : Nat) : Code Bool := if a = b then return true else isSortedLoop less b steps a

def endOfRunLoop (b : Nat) : Nat → Nat → Code Nat
  | 0, _ => stop .fuel
  | fuel + 1, a => do
    let a ← listNext a
    if a = b then return a
    else do
      let before ← listPrev a
      if less a before then return a else endOfRunLoop b fuel a

def findEndOfRun (steps a b : Nat) : Code Nat := do
  assert fun _ => a != 0
  assert fun _ => b != 0
  assert fun _ => a != b
  endOfRunLoop less b steps a

def mergeLoop (b1 : Nat) : Nat → Nat → Nat → Code Unit
  | 0, _, _ => stop .fuel
  | fuel + 1, a0, a1b0 =>
    if a0 ≠ a1b0 ∧ a1b0 ≠ b1 then
      if !less a1b0 a0 then do
        let a0 ← listNext a0
        mergeLoop b1 fuel a0 a1b0
      else do
        let a1b0 ← listNext a1b0
        listSplice a0 (← listPrev a1b0) a1b0
        mergeLoop b1 fuel a0 a1b0
    else return ()

def inplaceMerge (steps a0 a1b0 b1 : Nat) : Code Unit := do
  assert fun _ => a0 != 0
  assert fun _ => a1b0 != 0
  assert fun _ => b1 != 0
  let first ← isSorted less steps a0 a1b0
  assert fun _ => first
  let second ← isSorted less steps a1b0 b1
  assert fun _ => second
  mergeLoop less b1 steps a0 a1b0

/-- The inner loop of `list_sort` from `a0` on: the runs that the pass puts out. -/
def passLoop (list : Header) (steps : Nat) : Nat → Nat → Nat → Code Nat
  | 0, _, _ => stop .fuel
  | fuel + 1, a0, outputRunCnt =>
    if a0 = listEnd list then return outputRunCnt
    else do
      let outputRunCnt := outputRunCnt + 1
      let a1b0 ← findEndOfRun less steps a0 (listEnd list)
      if a1b0 = listEnd list then return outputRunCnt
      else do
        let b1 ← findEndOfRun less steps a1b0 (listEnd list)
        inplaceMerge less steps a0 a1b0 b1
        passLoop list steps fuel b1 outputRunCnt

def sortLoop (list : Header) (steps : Nat) : Nat → Code Unit
  | 0 => stop .fuel
  | fuel + 1 => do
    let outputRunCnt ← passLoop less list steps steps (← listBegin list) 0
    if outputRunCnt > 1 then sortLoop list steps fuel else return ()

def listSort (steps : Nat) (list : Header) : Code Unit := do
  sortLoop less list steps steps
  let sorted ← isSorted less steps (← listBegin list) (listEnd list)
  assert fun _ => sorted

end Code

section Walking
variable {I : Type} {heap : Heap} {header : I → Header} {contents : I → List Nat} {i : I} {less : Nat → Nat → Bool}
  {front back : List Nat} {x : Nat}

section
variable (represents : Represents heap header contents)
include represents

theorem Represents.listBegin (i : I) :
    listBegin (header i) heap = .returned ((contents i).headD (header i).tail) heap := by
  have whole : Holds heap (header i) ([] ++ contents i) := represents.holds i
  rw [Lists.listBegin, getNext_apply (represents.head_nonzero i)]
  exact congrArg (fun value => Execution.returned value heap) whole.neighbours.1

theorem Represents.listNext (split : contents i = front ++ x :: back) :
    listNext x heap = .returned (back.headD (header i).tail) heap := by
  have behind : contents i = (front ++ [x]) ++ back := by simp [split]
  have next := (behind ▸ represents.holds i).neighbours.1
  rw [List.getLastD_concat] at next
  have given : x ≠ 0 := (represents.place split).1
  rw [listNext_apply given (next.symm ▸ (represents.place behind).1), next]

theorem Represents.listPrev (split : contents i = front ++ x :: back) :
    listPrev (back.headD (header i).tail) heap = .returned x heap := by
  have behind : contents i = (front ++ [x]) ++ back := by simp [split]
  obtain ⟨given, prev, prevGiven⟩ := represents.place behind
  rw [List.getLastD_concat] at prev prevGiven
  rw [listPrev_apply given (prev.symm ▸ prevGiven), prev]

theorem Represents.headD_ne {part : List Nat} (some : part ≠ []) (split : contents i = front ++ (part ++ back)) :
    (part ++ back).headD (header i).tail ≠ back.headD (header i).tail := by
  obtain ⟨y, rest, rfl⟩ := List.exists_cons_of_ne_nil some
  have holds : Holds heap (header i) ((front ++ y :: rest) ++ back) := by
    have same : (front ++ y :: rest) ++ back = contents i := by simp [split]
    exact same ▸ represents.holds i
  exact holds.apart (Or.inr (by simp)) (headD_mem _ _)

/-- By induction on what the loop has still to compare. -/
theorem isSortedLoop_run {seg : List Nat}
    (split : contents i = front ++ x :: (seg ++ back)) (run : (x :: seg).IsChain fun x y => follows less x y = true)
    {fuel : Nat} (enough : seg.length < fuel) :
    isSortedLoop less (back.headD (header i).tail) fuel x heap = .returned true heap := by
  induction seg generalizing front x fuel with
  | nil =>
    obtain ⟨fuel, rfl⟩ := Nat.exists_eq_add_of_lt enough
    rw [isSortedLoop, bind_of_returned (represents.listNext split), List.nil_append, if_pos rfl]
    rfl
  | cons y seg ih =>
    obtain ⟨fuel, rfl⟩ := Nat.exists_eq_succ_of_ne_zero (Nat.ne_of_gt (Nat.lt_of_le_of_lt (Nat.zero_le _) enough))
    have ordered := List.isChain_cons_cons.mp run
    have later : contents i = (front ++ [x]) ++ ((y :: seg) ++ back) := by simp [split]
    have next : contents i = (front ++ [x]) ++ y :: (seg ++ back) := by simp [split]
    have before : less y x = false := by simpa [follows] using ordered.1
    rw [isSortedLoop, bind_of_returned (represents.listNext split),
      if_neg (represents.headD_ne (List.cons_ne_nil y seg) later), bind_of_returned (represents.listPrev split),
      List.cons_append, List.headD_cons, before, if_neg (by decide)]
    exact ih next ordered.2 (by simpa using enough)

theorem isSorted_run {seg : List Nat}
    (split : contents i = front ++ (seg ++ back)) (run : seg.IsChain fun x y => follows less x y = true) {steps : Nat}
    (enough : seg.length ≤ steps) :
    isSorted less steps ((seg ++ back).headD (header i).tail) (back.headD (header i).tail) heap = .returned true heap := by
  cases seg with
  | nil =>
    rw [isSorted, List.nil_append, if_pos rfl]
    rfl
  | cons y seg =>
    rw [isSorted, if_neg (represents.headD_ne (List.cons_ne_nil y seg) split)]
    exact isSortedLoop_run represents split run enough

theorem Represents.ne_tail (split : contents i = front ++ x :: back) : x ≠ (header i).tail := by
  have later : contents i = front ++ ((x :: back) ++ []) := by simp [split]
  simpa using represents.headD_ne (List.cons_ne_nil x back) later

end

theorem endOfRunLoop_apply (less : Nat → Nat → Bool) (represents : Represents heap header contents) (split : contents i = front ++ x :: back)
    {fuel : Nat} (enough : back.length < fuel) :
    endOfRunLoop less (header i).tail fuel x heap =
      .returned ((splitRun less x back).2.headD (header i).tail) heap := by
  induction back generalizing front x fuel with
  | nil =>
    obtain ⟨fuel, rfl⟩ := Nat.exists_eq_add_of_lt enough
    rw [endOfRunLoop, bind_of_returned (represents.listNext split), List.headD_nil, if_pos rfl]
    rfl
  | cons y back ih =>
    obtain ⟨fuel, rfl⟩ := Nat.exists_eq_succ_of_ne_zero (Nat.ne_of_gt (Nat.lt_of_le_of_lt (Nat.zero_le _) enough))
    have next : contents i = (front ++ [x]) ++ y :: back := by simp [split]
    rw [endOfRunLoop, bind_of_returned (represents.listNext split), List.headD_cons,
      if_neg (represents.ne_tail next)]
    have prev := represents.listPrev split
    rw [List.headD_cons] at prev
    rw [bind_of_returned prev, splitRun]
    split
    · rfl
    · exact ih next (by simpa using enough)

theorem findEndOfRun_apply (less : Nat → Nat → Bool) (represents : Represents heap header contents) (split : contents i = front ++ x :: back)
    {steps : Nat} (enough : back.length < steps) :
    findEndOfRun less steps x (header i).tail heap =
      .returned ((splitRun less x back).2.headD (header i).tail) heap := by
  have given : x ≠ 0 := (represents.place split).1
  have tailGiven : (header i).tail ≠ 0 := represents.nonzero (Header.mem_nodes.mpr (Or.inr (Or.inr rfl)))
  have inside := represents.ne_tail split
  unfold findEndOfRun
  rw [bind_of_returned (assert_apply (by simpa using given)), bind_of_returned (assert_apply (by simpa using tailGiven)),
    bind_of_returned (assert_apply (by simpa using inside))]
  exact endOfRunLoop_apply less represents split enough

end Walking

/-! ### Merging two runs -/

section Merging
variable {I : Type} [DecidableEq I] {header : I → Header} {i : I}

variable {heap : Heap} {contents : I → List Nat} {front first back : List Nat}

theorem splice_before (represents : Represents heap header contents) {x y : Nat}
    (split : contents i = front ++ (x :: first ++ (y :: back))) :
    ∃ after, listSplice x y (back.headD (header i).tail) heap = .returned () after ∧
      Represents after header (Function.update contents i ((front ++ [y]) ++ (x :: first ++ back))) := by
  have source : contents i = (front ++ x :: first) ++ ([y] ++ back) := by simp [split]
  have target : Function.update contents i ((front ++ x :: first) ++ back) i = front ++ (x :: first ++ back) := by simp
  obtain ⟨after, spliced, represented⟩ := listSplice_represents represents source target
  refine ⟨after, spliced, ?_⟩
  rw [Function.update_idem] at represented
  simpa using represented

variable (less : Nat → Nat → Bool)

/-- The loop follows `List.merge`; `front` is what it has merged and what was before. -/
theorem mergeLoop_represents (represents : Represents heap header contents) {second : List Nat}
    (split : contents i = front ++ (first ++ (second ++ back))) :
    ∃ after, (∀ fuel > first.length + second.length,
        mergeLoop less (back.headD (header i).tail) fuel ((first ++ (second ++ back)).headD (header i).tail)
          ((second ++ back).headD (header i).tail) heap = .returned () after) ∧
      Represents after header
        (Function.update contents i (front ++ (first.merge second (follows less) ++ back))) := by
  induction first generalizing heap contents front second with
  | nil =>
    refine ⟨heap, fun fuel enough => ?_, ?_⟩
    · obtain ⟨fuel, rfl⟩ := Nat.exists_eq_add_of_lt enough
      rw [mergeLoop, List.nil_append, if_neg fun both => both.1 rfl]
      rfl
    · have same : front ++ ([].merge second (follows less) ++ back) = contents i := by simp [split]
      rw [same, Function.update_eq_self]
      exact represents
  | cons x first outer =>
    induction second generalizing heap contents front with
    | nil =>
      refine ⟨heap, fun fuel enough => ?_, ?_⟩
      · obtain ⟨fuel, rfl⟩ := Nat.exists_eq_add_of_lt enough
        rw [mergeLoop, List.nil_append, if_neg fun both => both.2 rfl]
        rfl
      · have same : front ++ ((x :: first).merge [] (follows less) ++ back) = contents i := by simp [split]
        rw [same, Function.update_eq_self]
        exact represents
    | cons y second inner =>
      have apart := represents.headD_ne (List.cons_ne_nil x first) split
      have later : contents i = (front ++ x :: first) ++ ((y :: second) ++ back) := by simp [split]
      have more := represents.headD_ne (List.cons_ne_nil y second) later
      have enter : ∀ fuel, mergeLoop less (back.headD (header i).tail) (fuel + 1)
          (((x :: first) ++ ((y :: second) ++ back)).headD (header i).tail) (((y :: second) ++ back).headD (header i).tail)
          heap = (if !less y x then do
              let a0 ← listNext x
              mergeLoop less (back.headD (header i).tail) fuel a0 y
            else do
              let a1b0 ← listNext y
              listSplice x (← listPrev a1b0) a1b0
              mergeLoop less (back.headD (header i).tail) fuel x a1b0) heap := fun fuel => by
        rw [mergeLoop, if_pos ⟨apart, more⟩]
        rfl
      by_cases before : less y x = true
      · -- `y` is spliced in before `x`.
        have next : contents i = (front ++ x :: first) ++ y :: (second ++ back) := by simp [split]
        have shape : contents i = front ++ (x :: first ++ (y :: (second ++ back))) := split
        obtain ⟨moved, spliced, represented⟩ := splice_before represents shape
        obtain ⟨after, merged, result⟩ := inner represented (Function.update_self _ _ _)
        refine ⟨after, fun fuel enough => ?_, ?_⟩
        · obtain ⟨fuel, rfl⟩ := Nat.exists_eq_succ_of_ne_zero (Nat.ne_of_gt (Nat.lt_of_le_of_lt (Nat.zero_le _) enough))
          rw [enter, before, Bool.not_true, if_neg (by decide), bind_of_returned (represents.listNext next),
            bind_of_returned (represents.listPrev next), bind_of_returned spliced]
          exact merged fuel (by simp only [List.length_cons] at enough ⊢; omega)
        · rw [Function.update_idem] at result
          have late : ¬follows less x y = true := by simp [follows, before]
          rw [List.cons_merge_cons, if_neg late]
          simpa using result
      · have next : contents i = (front ++ [x]) ++ (first ++ ((y :: second) ++ back)) := by simp [split]
        obtain ⟨after, merged, result⟩ := outer represents next
        have here : contents i = front ++ x :: (first ++ ((y :: second) ++ back)) := by simp [split]
        refine ⟨after, fun fuel enough => ?_, ?_⟩
        · obtain ⟨fuel, rfl⟩ := Nat.exists_eq_succ_of_ne_zero (Nat.ne_of_gt (Nat.lt_of_le_of_lt (Nat.zero_le _) enough))
          have stays : (!less y x) = true := by simpa using before
          rw [enter, stays, if_pos rfl, bind_of_returned (represents.listNext here)]
          exact merged fuel (by simp only [List.length_cons] at enough ⊢; omega)
        · have early : follows less x y = true := by simpa [follows] using before
          rw [List.cons_merge_cons, if_pos early]
          simpa using result

theorem inplaceMerge_represents (represents : Represents heap header contents) {second : List Nat}
    (split : contents i = front ++ (first ++ (second ++ back)))
    (firstRun : first.IsChain fun x y => follows less x y = true)
    (secondRun : second.IsChain fun x y => follows less x y = true) :
    ∃ after, (∀ steps > (contents i).length,
        inplaceMerge less steps ((first ++ (second ++ back)).headD (header i).tail)
          ((second ++ back).headD (header i).tail) (back.headD (header i).tail) heap = .returned () after) ∧
      Represents after header
        (Function.update contents i (front ++ (first.merge second (follows less) ++ back))) := by
  obtain ⟨after, merged, result⟩ := mergeLoop_represents less represents split
  have later : contents i = (front ++ first) ++ (second ++ back) := by simp [split]
  have last : contents i = (front ++ first ++ second) ++ back := by simp [split]
  refine ⟨after, fun steps enough => ?_, result⟩
  have size : (contents i).length = front.length + (first.length + (second.length + back.length)) := by simp [split]
  unfold inplaceMerge
  rw [bind_of_returned (assert_apply (by simpa using (represents.place split).1)),
    bind_of_returned (assert_apply (by simpa using (represents.place later).1)),
    bind_of_returned (assert_apply (by simpa using (represents.place last).1)),
    bind_of_returned (isSorted_run represents split firstRun (by omega)), bind_of_returned (assert_apply rfl),
    bind_of_returned (isSorted_run represents later secondRun (by omega)), bind_of_returned (assert_apply rfl)]
  exact merged steps (by omega)

end Merging

/-! ### Passes -/

section Passes
variable {I : Type} [DecidableEq I] {header : I → Header} {i : I} (less : Nat → Nat → Bool)

theorem passLoop_represents {heap : Heap} {contents : I → List Nat} (represents : Represents heap header contents)
    {front rest : List Nat} (split : contents i = front ++ rest) :
    ∃ after, (∀ steps > (contents i).length, ∀ fuel > rest.length, ∀ count,
        passLoop less (header i) steps fuel (rest.headD (header i).tail) count heap =
          .returned (count + (pass less rest).2) after) ∧
      Represents after header (Function.update contents i (front ++ (pass less rest).1)) := by
  fun_induction pass less rest generalizing heap contents front with
  | case1 =>
    refine ⟨heap, fun steps _ fuel enough count => ?_, ?_⟩
    · obtain ⟨fuel, rfl⟩ := Nat.exists_eq_add_of_lt enough
      rw [passLoop, List.headD_nil, listEnd, if_pos rfl]
      rfl
    · rw [← split, Function.update_eq_self]
      exact represents
  | case2 x xs none =>
    refine ⟨heap, fun steps long fuel enough count => ?_, ?_⟩
    · obtain ⟨fuel, rfl⟩ := Nat.exists_eq_succ_of_ne_zero (Nat.ne_of_gt (Nat.lt_of_le_of_lt (Nat.zero_le _) enough))
      have short : xs.length < steps := by
        rw [split, List.length_append, List.length_cons] at long
        omega
      have found := findEndOfRun_apply less represents split short
      rw [none, List.headD_nil] at found
      rw [passLoop, List.headD_cons, listEnd, if_neg (represents.ne_tail split), bind_of_returned found, if_pos rfl]
      rfl
    · rw [← split, Function.update_eq_self]
      exact represents
  | case3 x xs y ys rest later =>
    rename_i ih
    have firstSplit := splitRun_append less x xs
    have secondSplit := splitRun_append less y ys
    rw [rest, ← secondSplit] at firstSplit
    have runs : contents i = front ++ ((splitRun less x xs).1 ++ ((splitRun less y ys).1 ++ (splitRun less y ys).2)) := by
      rw [split, firstSplit]
    have behind : contents i = (front ++ (splitRun less x xs).1) ++ y :: ys := by
      rw [runs, secondSplit, List.append_assoc]
    obtain ⟨merged, performed, represented⟩ :=
      inplaceMerge_represents less represents runs (splitRun_isChain x xs).1 (splitRun_isChain y ys).1
    obtain ⟨after, passed, result⟩ := ih represented ((Function.update_self _ _ _).trans (List.append_assoc _ _ _).symm)
    have size : (contents i).length = front.length + (x :: xs).length := by rw [split, List.length_append]
    have shorter : (contents i).length = (front ++ (splitRun less x xs).1).length + (y :: ys).length := by
      rw [behind, List.length_append]
    have kept : (Function.update contents i (front ++ ((splitRun less x xs).1.merge (splitRun less y ys).1
        (follows less) ++ (splitRun less y ys).2)) i).length = (contents i).length := by
      rw [Function.update_self, runs]
      simp only [List.length_append, (List.merge_perm_append _).length_eq]
      omega
    have second := length_splitRun less y ys
    have first := length_splitRun less x xs
    rw [rest, List.length_cons] at first
    refine ⟨after, fun steps long fuel enough count => ?_, ?_⟩
    · obtain ⟨fuel, rfl⟩ := Nat.exists_eq_succ_of_ne_zero (Nat.ne_of_gt (Nat.lt_of_le_of_lt (Nat.zero_le _) enough))
      have found : findEndOfRun less steps x (header i).tail heap = _ :=
        findEndOfRun_apply less represents split (by rw [List.length_cons] at size; omega)
      have next : findEndOfRun less steps y (header i).tail heap = _ :=
        findEndOfRun_apply less represents behind (by rw [List.length_cons] at shorter; omega)
      rw [rest, List.headD_cons] at found
      have done := performed steps long
      rw [secondSplit, ← rest, splitRun_append, rest, List.headD_cons, List.headD_cons] at done
      rw [passLoop, List.headD_cons, listEnd, if_neg (represents.ne_tail split), bind_of_returned found,
        if_neg (represents.ne_tail behind), bind_of_returned next, bind_of_returned done,
        passed steps (kept.symm ▸ long) fuel (by rw [List.length_cons] at enough; omega)]
      congr 1
      simp only [later]
      omega
    · rw [Function.update_idem] at result
      simpa using result

/-- By induction on the descents, which every pass but the last makes fewer. -/
theorem sortLoop_represents {heap : Heap} {contents : I → List Nat} (represents : Represents heap header contents)
    (order : IsStrictWeakOrder Nat fun x y => less x y = true) :
    ∃ sorted after, StableSort less (contents i) sorted ∧
      (∀ steps > (contents i).length, ∀ fuel > descents less (contents i),
        sortLoop less (header i) steps fuel heap = .returned () after) ∧
      Represents after header (Function.update contents i sorted) := by
  induction measure : descents less (contents i) using Nat.strong_induction_on generalizing heap contents with
  | _ count ih =>
    have split : contents i = [] ++ contents i := rfl
    obtain ⟨middle, passed, represented⟩ := passLoop_represents less represents split
    rw [List.nil_append] at represented
    have length : (pass less (contents i)).1.length = (contents i).length := (pass_rearranged order _).perm.length_eq
    have enter : ∀ steps > (contents i).length, ∀ fuel > count, sortLoop less (header i) steps fuel heap =
        (if (pass less (contents i)).2 > 1 then sortLoop less (header i) steps (fuel - 1) else return ()) middle := by
      intro steps long fuel enough
      obtain ⟨fuel, rfl⟩ := Nat.exists_eq_succ_of_ne_zero (Nat.ne_of_gt (Nat.lt_of_le_of_lt (Nat.zero_le _) enough))
      rw [sortLoop, bind_of_returned (represents.listBegin i), bind_of_returned (passed steps long steps long 0),
        Nat.zero_add]
      rfl
    by_cases several : 1 < (pass less (contents i)).2
    · have fewer := pass_progress order several
      obtain ⟨sorted, after, stable, done, result⟩ := ih (descents less (pass less (contents i)).1) (measure ▸ fewer)
        represented (congrArg (descents less) (Function.update_self _ _ _))
      rw [Function.update_self] at stable done
      rw [Function.update_idem] at result
      refine ⟨sorted, after, stable.after_pass order, fun steps long fuel enough => ?_, result⟩
      rw [enter steps long fuel enough, if_pos several]
      exact done steps (length.symm ▸ long) (fuel - 1) (by omega)
    · refine ⟨_, middle, pass_last order (Nat.le_of_not_lt several), fun steps long fuel enough => ?_, represented⟩
      rw [enter steps long fuel enough, if_neg several]
      rfl

/-- `list_sort` leaves the list a stable sort of what it was, its links intact, and no assertion fails. -/
theorem list_sort_stable {heap : Heap} {contents : I → List Nat} (represents : Represents heap header contents)
    (order : IsStrictWeakOrder Nat fun x y => less x y = true) (i : I) :
    ∃ sorted after, StableSort less (contents i) sorted ∧
      (∀ steps > (contents i).length, listSort less steps (header i) heap = .returned () after) ∧
      Represents after header (Function.update contents i sorted) := by
  obtain ⟨sorted, after, stable, done, result⟩ := sortLoop_represents (i := i) less represents order
  refine ⟨sorted, after, stable, fun steps long => ?_, result⟩
  have few : descents less (contents i) ≤ (contents i).length := descents_le _
  have size : sorted.length = (contents i).length := stable.perm.length_eq
  have whole : Function.update contents i sorted i = [] ++ (sorted ++ []) := by simp
  have first := result.listBegin i
  have checked : isSorted less steps _ _ after = _ := isSorted_run result whole stable.sorted.isChain (by omega)
  rw [whole, List.nil_append] at first
  unfold listSort
  rw [bind_of_returned (done steps long steps (by omega)), bind_of_returned first]
  rw [List.headD_nil] at checked
  rw [listEnd, bind_of_returned checked, assert_apply rfl]

def oneList : Heap where
  prev e := if e = 13 then 1 else if e = 23 then 13 else if e = 12 then 23 else if e = 2 then 12 else 0
  next e := if e = 1 then 13 else if e = 13 then 23 else if e = 23 then 12 else if e = 12 then 2 else 0

def byLastDigit (x y : Nat) : Bool := x % 10 < y % 10

theorem byLastDigit_order : IsStrictWeakOrder Nat fun x y => byLastDigit x y = true where
  irrefl x := by simp [byLastDigit]
  trans x y z first second := by
    simp only [byLastDigit, decide_eq_true_eq] at *
    omega
  incomp_trans x y z first second := by
    simp only [byLastDigit, decide_eq_true_eq] at *
    omega

theorem oneList_represents : Represents oneList (fun _ : Unit => ⟨1, 2⟩) fun _ => [13, 23, 12] :=
  ⟨fun _ => ⟨by unfold Links.Linked; decide, by decide, by decide, by decide, by decide⟩,
    fun i j different => absurd (Subsingleton.elim i j) different⟩

theorem list_sort_stable_oneList : ∃ sorted after, StableSort byLastDigit [13, 23, 12] sorted ∧
    (∀ steps > 3, listSort byLastDigit steps ⟨1, 2⟩ oneList = .returned () after) ∧
    Represents after (fun _ : Unit => ⟨1, 2⟩) (Function.update (fun _ => [13, 23, 12]) () sorted) :=
  list_sort_stable byLastDigit oneList_represents byLastDigit_order ()

end Passes

end Pintos.Lib.Lists
