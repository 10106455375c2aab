import Mathlib.Data.List.Chain
import Mathlib.Order.Defs.Unbundled

/-! Natural merge sort on sequences.

A pass goes over the sequence once and merges its runs two by two; passes are
made until one run is left. The order is any strict weak order, given by a
function `less`. A sort is stable when elements that `less` does not tell apart
stay in their order, which is said by filtering for each such class.
-/

set_option autoImplicit false

namespace Semantics

namespace NaturalMerge
variable {A : Type} (less : A → A → Bool)

def follows (x y : A) : Bool := !less y x

def alike (x y : A) : Bool := !less x y && !less y x

structure Rearranged (xs ys : List A) : Prop where
  perm : ys.Perm xs
  stable : ∀ x, ys.filter (alike less x) = xs.filter (alike less x)

structure StableSort (xs ys : List A) : Prop extends Rearranged less xs ys where
  sorted : ys.Pairwise fun x y => follows less x y = true

/-- The longest run from the first element on, and what is behind it. -/
def splitRun : A → List A → List A × List A
  | x, [] => ([x], [])
  | x, y :: rest =>
    if less y x then ([x], y :: rest)
    else (x :: (splitRun y rest).1, (splitRun y rest).2)

theorem splitRun_append (x : A) (xs : List A) : (splitRun less x xs).1 ++ (splitRun less x xs).2 = x :: xs := by
  fun_induction splitRun less x xs with
  | case1 x => rfl
  | case2 x y rest before => rfl
  | case3 x y rest before ih => rw [List.cons_append, ih]

theorem length_splitRun (x : A) (xs : List A) : (splitRun less x xs).2.length ≤ xs.length := by
  fun_induction splitRun less x xs with
  | case1 x => exact Nat.le_refl _
  | case2 x y rest before => exact Nat.le_refl _
  | case3 x y rest before ih => exact Nat.le_succ_of_le ih

def pass : List A → List A × Nat
  | [] => ([], 0)
  | x :: xs =>
    match _rest : (splitRun less x xs).2 with
    | [] => (x :: xs, 1)
    | y :: ys =>
      let later := pass (splitRun less y ys).2
      ((splitRun less x xs).1.merge (splitRun less y ys).1 (follows less) ++ later.1, later.2 + 1)
termination_by xs => xs.length
decreasing_by
  have first := length_splitRun less x xs
  have second := length_splitRun less y ys
  rw [_rest] at first
  simp only [List.length_cons] at first ⊢
  omega

def descents : List A → Nat
  | x :: y :: rest => (if less y x then 1 else 0) + descents (y :: rest)
  | _ => 0

section Rearrangement
variable {less} {xs ys zs ws : List A}

theorem Rearranged.refl (xs : List A) : Rearranged less xs xs := ⟨List.Perm.refl xs, fun _ => rfl⟩

theorem Rearranged.trans (first : Rearranged less xs ys) (second : Rearranged less ys zs) : Rearranged less xs zs :=
  ⟨second.perm.trans first.perm, fun x => (second.stable x).trans (first.stable x)⟩

theorem Rearranged.append (first : Rearranged less xs ys) (second : Rearranged less zs ws) :
    Rearranged less (xs ++ zs) (ys ++ ws) :=
  ⟨first.perm.append second.perm, fun x => by rw [List.filter_append, List.filter_append, first.stable, second.stable]⟩

end Rearrangement

section Order
variable {less} (order : IsStrictWeakOrder A fun x y => less x y = true)
include order

theorem follows_trans {x y z : A} (first : follows less x y = true) (second : follows less y z = true) :
    follows less x z = true := by
  simp only [follows, Bool.not_eq_true', ← Bool.not_eq_true] at *
  intro before
  have xy : ¬less x y = true ∧ ¬less y x = true := ⟨fun lt => second (order.trans _ _ _ before lt), first⟩
  have yz : ¬less y z = true ∧ ¬less z y = true := ⟨fun lt => first (order.trans _ _ _ lt before), second⟩
  exact (order.incomp_trans x y z xy yz).2 before

theorem follows_total (x y : A) : (follows less x y || follows less y x) = true := by
  by_contra neither
  simp only [follows, Bool.or_eq_true, Bool.not_eq_true', not_or, Bool.not_eq_false] at neither
  exact order.irrefl x (order.trans _ _ _ neither.2 neither.1)

theorem pairwise_of_isChain {xs : List A} (chain : xs.IsChain fun x y => follows less x y = true) :
    xs.Pairwise fun x y => follows less x y = true := by
  have : Trans (fun x y => follows less x y = true) (fun x y => follows less x y = true)
    (fun x y => follows less x y = true) := ⟨follows_trans order⟩
  exact List.isChain_iff_pairwise.mp chain

theorem filter_eq_nil {x y : A} {xs : List A} (before : less y x = true)
    (sorted : (x :: xs).Pairwise fun x y => follows less x y = true) {kind : A} (like : alike less kind y = true) :
    (x :: xs).filter (alike less kind) = [] := by
  rw [List.filter_eq_nil_iff]
  intro z inside other
  have behind : follows less x z = true := by
    rcases List.mem_cons.mp inside with rfl | inside
    · exact (Bool.or_self _).symm.trans (follows_total order z z)
    · exact (List.pairwise_cons.mp sorted).1 z inside
  have apart : ¬less y z = true ∧ ¬less z y = true := by
    simp only [alike, Bool.and_eq_true, Bool.not_eq_true', ← Bool.not_eq_true] at like other
    exact order.incomp_trans y kind z ⟨like.2, like.1⟩ other
  have back : follows less z y = true := by simp [follows, apart.1]
  have late := follows_trans order behind back
  rw [follows, before] at late
  cases late

theorem merge_rearranged {xs ys : List A} (sorted : xs.Pairwise fun x y => follows less x y = true) :
    Rearranged less (xs ++ ys) (xs.merge ys (follows less)) := by
  refine ⟨List.merge_perm_append _, fun kind => ?_⟩
  induction xs generalizing ys with
  | nil => simp
  | cons x xs ih =>
    induction ys with
    | nil => simp
    | cons y ys inner =>
      rw [List.cons_merge_cons]
      split <;> rename_i early
      · rw [List.filter_cons, ih (List.pairwise_cons.mp sorted).2, List.cons_append, List.filter_cons]
      · have before : less y x = true := by simpa [follows] using early
        by_cases like : alike less kind y = true
        · have none := filter_eq_nil order before sorted like
          rw [List.filter_cons_of_pos like, inner, List.filter_append, List.filter_append, none,
            List.filter_cons_of_pos like]
          rfl
        · rw [List.filter_cons_of_neg like, inner, List.filter_append, List.filter_append, List.filter_cons_of_neg like]

theorem merge_sorted {xs ys : List A} (first : xs.Pairwise fun x y => follows less x y = true)
    (second : ys.Pairwise fun x y => follows less x y = true) :
    (xs.merge ys (follows less)).Pairwise fun x y => follows less x y = true :=
  @List.pairwise_merge A (follows less) (fun _ _ _ => follows_trans order) (follows_total order) xs ys first second

end Order

/-! ### Runs -/

section Runs
variable {less}

theorem splitRun_isChain (x : A) (xs : List A) :
    (splitRun less x xs).1.IsChain (fun x y => follows less x y = true) ∧ (splitRun less x xs).1.head? = some x := by
  fun_induction splitRun less x xs with
  | case1 x => exact ⟨.singleton x, rfl⟩
  | case2 x y rest before => exact ⟨.singleton x, rfl⟩
  | case3 x y rest before ih =>
    refine ⟨List.isChain_cons.mpr ⟨fun z isZ => ?_, ih.1⟩, rfl⟩
    rw [ih.2, Option.mem_some] at isZ
    subst isZ
    simpa [follows] using before

/-- Behind a run the sequence descends, and nowhere else. -/
theorem descents_splitRun (x : A) (xs : List A) :
    descents less (x :: xs) = match (splitRun less x xs).2 with
      | [] => 0
      | y :: ys => descents less (y :: ys) + 1 := by
  fun_induction splitRun less x xs with
  | case1 x => rfl
  | case2 x y rest before => simp [descents, before, Nat.add_comm]
  | case3 x y rest before ih =>
    rw [descents, ih, if_neg before, Nat.zero_add]

theorem descents_le (xs : List A) : descents less xs ≤ xs.length := by
  fun_induction descents less xs with
  | case1 x y rest ih =>
    rw [List.length_cons]
    split <;> omega
  | case2 xs short => exact Nat.zero_le _

theorem descents_eq_zero {xs : List A} (none : descents less xs = 0) :
    xs.IsChain fun x y => follows less x y = true := by
  fun_induction descents less xs with
  | case1 x y rest ih =>
    refine List.isChain_cons_cons.mpr ⟨?_, ih (by omega)⟩
    by_contra late
    have before : less y x = true := by simpa [follows] using late
    simp [before] at none
  | case2 xs short =>
    match xs, short with
    | [], _ => exact .nil
    | [x], _ => exact .singleton x
    | x :: y :: rest, short => exact absurd rfl (short x y rest)

/-- A run in front of a sequence adds at most one descent, and none in front of nothing. -/
theorem descents_append {xs ys : List A} (run : xs.IsChain fun x y => follows less x y = true) :
    descents less (xs ++ ys) ≤ descents less ys + if ys = [] then 0 else 1 := by
  induction run with
  | nil => simp
  | singleton x =>
    cases ys with
    | nil => simp [descents]
    | cons y ys =>
      simp only [List.singleton_append, descents, List.cons_ne_nil, if_false]
      split <;> omega
  | @cons_cons x y rest first _ ih =>
    have before : less y x = false := by simpa [follows] using first
    simpa [descents, before] using ih

end Runs

/-! ### Passes -/

section Passes
variable {less}

variable (order : IsStrictWeakOrder A fun x y => less x y = true)
include order

theorem splitRun_sorted (x : A) (xs : List A) :
    (splitRun less x xs).1.Pairwise fun x y => follows less x y = true :=
  pairwise_of_isChain order (splitRun_isChain x xs).1

theorem pass_rearranged (xs : List A) : Rearranged less xs (pass less xs).1 := by
  fun_induction pass less xs with
  | case1 => exact .refl []
  | case2 x xs none => exact .refl _
  | case3 x xs y ys rest later ih =>
    have merged : Rearranged less _ ((splitRun less x xs).1.merge (splitRun less y ys).1 (follows less)) :=
      merge_rearranged order (splitRun_sorted order x xs)
    have split : x :: xs = ((splitRun less x xs).1 ++ (splitRun less y ys).1) ++ (splitRun less y ys).2 := by
      rw [List.append_assoc, splitRun_append, ← rest, splitRun_append]
    rw [split]
    exact merged.append ih

/-- A pass makes half as many runs, and leaves no more runs than it made. -/
theorem pass_counts (xs : List A) (some : xs ≠ []) :
    descents less (pass less xs).1 + 1 ≤ (pass less xs).2 ∧ 2 * (pass less xs).2 ≤ descents less xs + 2 := by
  fun_induction pass less xs with
  | case1 => exact absurd rfl some
  | case2 x xs none =>
    have flat := @descents_splitRun A less x xs
    rw [none] at flat
    simp [flat]
  | case3 x xs y ys rest later ih =>
    have first := @descents_splitRun A less x xs
    have second := @descents_splitRun A less y ys
    rw [rest] at first
    have run := (merge_sorted order (splitRun_sorted order x xs) (splitRun_sorted order y ys)).isChain
    have joined := @descents_append A less _ later.1 run
    cases behind : (splitRun less y ys).2 with
    | nil =>
      have nothing : later = ([], 0) := by simp only [later, behind, pass]
      simp only [nothing, if_true, descents] at joined ⊢
      omega
    | cons z zs =>
      rw [behind] at second ih
      have counted := ih (List.cons_ne_nil z zs)
      have same : later = pass less (z :: zs) := by simp only [later, behind]
      rw [← same] at counted
      simp only at first second ⊢
      split at joined <;> omega

/-- As long as a pass makes several runs, it leaves fewer descents. -/
theorem pass_progress {xs : List A} (several : 1 < (pass less xs).2) :
    descents less (pass less xs).1 < descents less xs := by
  have filled : xs ≠ [] := by
    rintro rfl
    simp [pass] at several
  have counts := pass_counts order xs filled
  omega

theorem pass_last {xs : List A} (once : (pass less xs).2 ≤ 1) : StableSort less xs (pass less xs).1 := by
  refine ⟨pass_rearranged order xs, pairwise_of_isChain order (descents_eq_zero ?_)⟩
  by_cases empty : xs = []
  · simp [empty, pass, descents]
  · have counts := pass_counts order xs empty
    omega

theorem StableSort.after_pass {xs ys : List A} (sorted : StableSort less (pass less xs).1 ys) : StableSort less xs ys :=
  ⟨(pass_rearranged order xs).trans sorted.toRearranged, sorted.sorted⟩

end Passes

end NaturalMerge

end Semantics
