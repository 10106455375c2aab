import Pintos.Lib.ListSort

/-! The other operations of `lib/kernel/list.c` that compare elements:
`list_insert_ordered`, `list_unique`, `list_max` and `list_min`. -/

set_option autoImplicit false

namespace Pintos.Lib.Lists
open Semantics Computation NaturalMerge

section Code
variable (less : Nat → Nat → Bool)

def insertLoop (list : Header) (elem : Nat) : Nat → Nat → Code Nat
  | 0, _ => stop .fuel
  | fuel + 1, e =>
    if e = listEnd list then return e
    else if less elem e then return e
    else do insertLoop list elem fuel (← listNext e)

def listInsertOrdered (steps : Nat) (list : Header) (elem : Nat) : Code Unit := do
  assert fun _ => elem != 0
  let e ← insertLoop less list elem steps (← listBegin list)
  listInsert e elem

def uniqueLoop (list : Header) (duplicates : Option Header) : Nat → Nat → Code Unit
  | 0, _ => stop .fuel
  | fuel + 1, elem => do
    let next ← listNext elem
    if next = listEnd list then return ()
    else if !less elem next && !less next elem then do
      let _ ← listRemove next
      duplicates.elim (return ()) fun duplicates => listPushBack duplicates next
      uniqueLoop list duplicates fuel elem
    else uniqueLoop list duplicates fuel next

def listUnique (steps : Nat) (list : Header) (duplicates : Option Header) : Code Unit := do
  if ← listEmpty list then return ()
  else uniqueLoop less list duplicates steps (← listBegin list)

/-- The loop of `list_max` and `list_min`; `better` says when an element takes the place of the one found so far. -/
def extremeLoop (better : Nat → Nat → Bool) (list : Header) : Nat → Nat → Nat → Code Nat
  | 0, _, _ => stop .fuel
  | fuel + 1, found, e =>
    if e = listEnd list then return found
    else do extremeLoop better list fuel (if better found e then e else found) (← listNext e)

def listExtreme (better : Nat → Nat → Bool) (steps : Nat) (list : Header) : Code Nat := do
  let found ← listBegin list
  if found = listEnd list then return found else extremeLoop better list steps found (← listNext found)

def listMax (steps : Nat) (list : Header) : Code Nat := listExtreme (fun max e => less max e) steps list

def listMin (steps : Nat) (list : Header) : Code Nat := listExtreme (fun min e => less e min) steps list

end Code

/-- The elements in maximal runs of neighbours that `less` does not tell apart. -/
structure Runs (less : Nat → Nat → Bool) (elems : List Nat) (groups : List (List Nat)) : Prop where
  whole : groups.flatten = elems
  some : ∀ group ∈ groups, group ≠ []
  same : ∀ group ∈ groups, ∀ x ∈ group, ∀ y ∈ group, alike less x y = true
  maximal : groups.IsChain fun first second => ∀ x ∈ first, ∀ y ∈ second, alike less x y = false

/-- What `list_unique` keeps and what it removes, from an element on that it keeps. -/
def uniques (less : Nat → Nat → Bool) : Nat → List Nat → List Nat × List Nat
  | x, [] => ([x], [])
  | x, y :: rest =>
    if alike less x y then ((uniques less x rest).1, y :: (uniques less x rest).2)
    else (x :: (uniques less y rest).1, (uniques less y rest).2)

section Order
variable {less : Nat → Nat → Bool} (order : IsStrictWeakOrder Nat fun x y => less x y = true)

theorem alike_iff {x y : Nat} : alike less x y = true ↔ follows less x y = true ∧ follows less y x = true := by
  rw [alike, Bool.and_eq_true, and_comm]
  rfl

theorem uniques_perm (x : Nat) (rest : List Nat) : ((uniques less x rest).1 ++ (uniques less x rest).2).Perm (x :: rest) := by
  induction rest generalizing x with
  | nil => exact .refl _
  | cons y rest ih =>
    rw [uniques]
    split
    · exact List.perm_middle.trans (((ih x).cons y).trans (.swap x y rest))
    · exact (ih y).cons x

include order

theorem alike_trans {x y z : Nat} (first : alike less x y = true) (second : alike less y z = true) :
    alike less x z = true := by
  rw [alike_iff] at *
  exact ⟨follows_trans order first.1 second.1, follows_trans order second.2 first.2⟩

theorem less_of_less_of_follows {x y z : Nat} (first : less x y = true) (second : follows less y z = true) :
    less x z = true := by
  by_contra more
  have back : follows less z x = true := by simpa [follows] using more
  have contrary := follows_trans order second back
  simp [follows, first] at contrary

theorem less_of_follows_of_less {x y z : Nat} (first : follows less x y = true) (second : less y z = true) :
    less x z = true := by
  by_contra more
  have back : follows less z x = true := by simpa [follows] using more
  have contrary := follows_trans order back first
  simp [follows, second] at contrary

/-- What is kept is the first element of each run, and the others are removed. -/
theorem uniques_runs (x : Nat) (rest : List Nat) : ∃ group groups, Runs less (x :: rest) ((x :: group) :: groups) ∧
    (uniques less x rest).1 = ((x :: group) :: groups).map (·.headD 0) ∧
    (uniques less x rest).2 = ((x :: group) :: groups).flatMap List.tail := by
  have refl : ∀ z, alike less z z = true := fun z =>
    alike_iff.mpr (by simpa using follows_total order z z)
  have symm : ∀ {y z}, alike less y z = true → alike less z y = true := fun like => alike_iff.mpr (alike_iff.mp like).symm
  induction rest generalizing x with
  | nil =>
    refine ⟨[], [], ⟨rfl, by simp, fun group only => ?_, .singleton _⟩, rfl, rfl⟩
    rw [List.mem_singleton.mp only]
    simpa using refl x
  | cons y rest ih =>
    rw [uniques]
    by_cases like : alike less x y = true
    · obtain ⟨group, groups, runs, kept, removed⟩ := ih x
      have first : ∀ z ∈ x :: y :: group, alike less x z = true := by
        rintro z (_ | ⟨_, _ | ⟨_, inside⟩⟩)
        · exact refl x
        · exact like
        · exact runs.same _ List.mem_cons_self x List.mem_cons_self z (List.mem_cons_of_mem x inside)
      refine ⟨y :: group, groups, ⟨?_, ?_, ?_, ?_⟩, ?_, ?_⟩
      · have whole := runs.whole
        simp only [List.flatten_cons, List.cons_append, List.cons.injEq, true_and] at whole ⊢
        exact whole
      · rintro part (_ | ⟨_, inside⟩)
        · exact List.cons_ne_nil _ _
        · exact runs.some part (List.mem_cons_of_mem _ inside)
      · rintro part (_ | ⟨_, inside⟩)
        · exact fun u mine v also => alike_trans order (symm (first u mine)) (first v also)
        · exact runs.same part (List.mem_cons_of_mem _ inside)
      · refine List.isChain_cons.mpr ⟨fun next isNext u mine v inside => ?_, (List.isChain_cons.mp runs.maximal).2⟩
        have apart := (List.isChain_cons.mp runs.maximal).1 next isNext x List.mem_cons_self v inside
        by_contra also
        rw [alike_trans order (first u mine) (by simpa using also)] at apart
        cases apart
      · rw [if_pos like, kept]
        rfl
      · rw [if_pos like, removed]
        rfl
    · obtain ⟨group, groups, runs, kept, removed⟩ := ih y
      refine ⟨[], (y :: group) :: groups, ⟨?_, ?_, ?_, ?_⟩, ?_, ?_⟩
      · rw [List.flatten_cons, runs.whole]
        rfl
      · rintro part (_ | ⟨_, inside⟩)
        · exact List.cons_ne_nil _ _
        · exact runs.some part inside
      · rintro part (_ | ⟨_, inside⟩)
        · simpa using refl x
        · exact runs.same part inside
      · refine List.isChain_cons_cons.mpr ⟨fun u mine v inside => ?_, runs.maximal⟩
        rw [List.mem_singleton.mp mine]
        by_contra also
        have near := runs.same _ List.mem_cons_self v inside y List.mem_cons_self
        exact like (alike_trans order (by simpa using also) near)
      · rw [if_neg like, kept]
        rfl
      · rw [if_neg like, removed]
        rfl

theorem uniques_sorted {x : Nat} {rest : List Nat} (sorted : (x :: rest).Pairwise fun x y => follows less x y = true) :
    ((uniques less x rest).1.Pairwise fun x y => less x y = true) ∧
      ∀ z ∈ (uniques less x rest).1, follows less x z = true := by
  induction rest generalizing x with
  | nil =>
    have refl := follows_total order x x
    simpa [uniques] using refl
  | cons y rest ih =>
    obtain ⟨least, behind⟩ := List.pairwise_cons.mp sorted
    have near := least y List.mem_cons_self
    rw [uniques]
    split <;> rename_i like
    · exact ih (List.pairwise_cons.mpr ⟨fun z inside => least z (List.mem_cons_of_mem y inside),
        (List.pairwise_cons.mp behind).2⟩)
    · obtain ⟨strict, more⟩ := ih behind
      have before : less x y = true := by
        by_contra not
        exact like (alike_iff.mpr ⟨near, by simpa [follows] using not⟩)
      refine ⟨List.pairwise_cons.mpr ⟨fun z kept => less_of_less_of_follows order before (more z kept), strict⟩, ?_⟩
      rintro z (_ | ⟨_, kept⟩)
      · simpa using follows_total order x x
      · exact follows_trans order near (more z kept)

end Order

section Walking
variable {I : Type} {heap : Heap} {header : I → Header} {contents : I → List Nat} {i : I} {front rest : List Nat} {x : Nat}

theorem insertLoop_apply (less : Nat → Nat → Bool) (represents : Represents heap header contents) (elem : Nat) {fuel : Nat}
    (split : contents i = front ++ rest) (enough : rest.length < fuel) :
    insertLoop less (header i) elem fuel (rest.headD (header i).tail) heap =
      .returned ((rest.dropWhile fun y => !less elem y).headD (header i).tail) heap := by
  induction rest generalizing front fuel with
  | nil =>
    obtain ⟨fuel, rfl⟩ := Nat.exists_eq_add_of_lt enough
    rw [insertLoop, List.headD_nil, listEnd, if_pos rfl]
    rfl
  | cons y rest ih =>
    obtain ⟨fuel, rfl⟩ : ∃ more, fuel = more + 1 := ⟨fuel - 1, by omega⟩
    rw [insertLoop, List.headD_cons, listEnd, if_neg (represents.ne_tail split)]
    cases before : less elem y with
    | true => simp [before]
    | false =>
      have next : contents i = (front ++ [y]) ++ rest := by simp [split]
      rw [if_neg Bool.false_ne_true, bind_of_returned (represents.listNext split), ih next (by simpa using enough),
        List.dropWhile_cons_of_pos (by simp [before])]

/-- The loop of `list_max` and `list_min` keeps the first of the best elements. -/
theorem extremeLoop_apply {better : Nat → Nat → Bool} (represents : Represents heap header contents)
    (trans : ∀ a b c, better a b = true → better b c = true → better a c = true)
    (weak : ∀ a b c, better a b = true → better a c = false → better c b = true)
    {before between : List Nat} {fuel : Nat} (split : contents i = (before ++ x :: between) ++ rest) (enough : rest.length < fuel)
    (first : ∀ y ∈ before, better y x = true) (best : ∀ y ∈ between, better x y = false) :
    ∃ front found back, contents i = front ++ found :: back ∧
      extremeLoop better (header i) fuel x (rest.headD (header i).tail) heap = .returned found heap ∧
      (∀ y ∈ front, better y found = true) ∧ ∀ y ∈ back, better found y = false := by
  induction rest generalizing before x between fuel with
  | nil =>
    obtain ⟨fuel, rfl⟩ := Nat.exists_eq_add_of_lt enough
    refine ⟨before, x, between, by simpa using split, ?_, first, best⟩
    rw [extremeLoop, List.headD_nil, listEnd, if_pos rfl]
    rfl
  | cons e rest ih =>
    obtain ⟨fuel, rfl⟩ : ∃ more, fuel = more + 1 := ⟨fuel - 1, by omega⟩
    rw [extremeLoop, List.headD_cons, listEnd, if_neg (represents.ne_tail split), bind_of_returned (represents.listNext split)]
    cases taken : better x e with
    | true =>
      have next : contents i = ((before ++ x :: between) ++ e :: []) ++ rest := by simp [split]
      refine ih next (by simpa using enough) ?_ (by simp)
      intro y inside
      rcases List.mem_append.mp inside with early | _ | ⟨_, later⟩
      · exact trans y x e (first y early) taken
      · exact taken
      · exact weak x e y taken (best y later)
    | false =>
      have next : contents i = (before ++ x :: (between ++ [e])) ++ rest := by simp [split]
      refine ih next (by simpa using enough) first ?_
      intro y inside
      rcases List.mem_append.mp inside with early | last
      · exact best y early
      · rw [List.mem_singleton.mp last]
        exact taken

theorem listExtreme_apply (better : Nat → Nat → Bool) (represents : Represents heap header contents)
    (trans : ∀ a b c, better a b = true → better b c = true → better a c = true)
    (weak : ∀ a b c, better a b = true → better a c = false → better c b = true) (i : I) {steps : Nat}
    (enough : (contents i).length < steps) :
    (contents i = [] → listExtreme better steps (header i) heap = .returned (header i).tail heap) ∧
      (contents i ≠ [] → ∃ front found back, contents i = front ++ found :: back ∧
        listExtreme better steps (header i) heap = .returned found heap ∧
        (∀ y ∈ front, better y found = true) ∧ ∀ y ∈ back, better found y = false) := by
  rw [listExtreme, bind_of_returned (represents.listBegin i), listEnd]
  refine ⟨fun empty => ?_, fun some => ?_⟩
  · rw [empty, List.headD_nil, if_pos rfl]
    rfl
  · obtain ⟨x, rest, split⟩ := List.exists_cons_of_ne_nil some
    have here : contents i = [] ++ x :: rest := split
    rw [split, List.length_cons] at enough
    rw [split, List.headD_cons, if_neg (represents.ne_tail here), bind_of_returned (represents.listNext here), ← split]
    have start : contents i = ([] ++ x :: []) ++ rest := split
    exact extremeLoop_apply represents trans weak start (by omega) (by simp) (by simp)

end Walking

section Changing
variable {I : Type} [DecidableEq I] {header : I → Header} {contents : I → List Nat} {i : I} {heap : Heap}

/-- The lists when list `i` has kept some elements and others were appended to another list, if there is one. -/
def settled (contents : I → List Nat) (i : I) (duplicates : Option I) (kept removed : List Nat) : I → List Nat :=
  duplicates.elim (Function.update contents i kept) fun j =>
    Function.update (Function.update contents i kept) j (contents j ++ removed)

theorem uniqueLoop_represents (less : Nat → Nat → Bool) {duplicates : Option I} (other : ∀ j ∈ duplicates, j ≠ i)
    (represents : Represents heap header contents) {front rest : List Nat} {x fuel : Nat}
    (split : contents i = front ++ x :: rest) (enough : rest.length < fuel) :
    ∃ after, uniqueLoop less (header i) (duplicates.map header) fuel x heap = .returned () after ∧
      Represents after header
        (settled contents i duplicates (front ++ (uniques less x rest).1) (uniques less x rest).2) := by
  induction rest generalizing heap contents front x fuel with
  | nil =>
    obtain ⟨fuel, rfl⟩ := Nat.exists_eq_add_of_lt enough
    refine ⟨heap, ?_, ?_⟩
    · rw [uniqueLoop, bind_of_returned (represents.listNext split), List.headD_nil, listEnd, if_pos rfl]
      rfl
    · rw [uniques, ← split]
      cases duplicates <;> simpa [settled] using represents
  | cons y rest ih =>
    obtain ⟨fuel, rfl⟩ : ∃ more, fuel = more + 1 := ⟨fuel - 1, by omega⟩
    have next : contents i = (front ++ [x]) ++ y :: rest := by simp [split]
    have short : rest.length < fuel := by simpa using enough
    rw [uniqueLoop, bind_of_returned (represents.listNext split), List.headD_cons, listEnd, if_neg (represents.ne_tail next),
      uniques]
    by_cases like : alike less x y = true
    · have test : (!less x y && !less y x) = true := like
      obtain ⟨between, removed, represented⟩ := listRemove_represents represents next
      rw [if_pos test, bind_of_returned removed, if_pos like]
      cases duplicates with
      | none =>
        obtain ⟨after, ran, result⟩ := ih represented (show Function.update contents i ((front ++ [x]) ++ rest) i = front ++ x :: rest by simp) short
        refine ⟨after, ran, ?_⟩
        simpa [settled] using result
      | some j =>
        have apart : j ≠ i := other j rfl
        have given : y ≠ 0 := (represents.place next).1
        have part : contents i = (front ++ [x]) ++ ([y] ++ rest) := next
        have fresh : ∀ k, y ∉ (header k).nodes (Function.update contents i ((front ++ [x]) ++ rest) k) :=
          fun k => (represents.join part).2.apart k y (by simp)
        obtain ⟨later, pushed, appended⟩ :=
          listInsert_represents (i := j) represented (List.append_nil _).symm given fresh
        have again : Function.update (Function.update contents i ((front ++ [x]) ++ rest)) j
            (Function.update contents i ((front ++ [x]) ++ rest) j ++ [y]) i = front ++ x :: rest := by
          simp [Function.update_of_ne (Ne.symm apart)]
        obtain ⟨after, ran, result⟩ := ih appended again short
        refine ⟨after, (bind_of_returned pushed).trans ran, ?_⟩
        have same : settled (Function.update (Function.update contents i ((front ++ [x]) ++ rest)) j
              (Function.update contents i ((front ++ [x]) ++ rest) j ++ [y])) i (some j)
              (front ++ (uniques less x rest).1) (uniques less x rest).2 =
            settled contents i (some j) (front ++ (uniques less x rest).1) (y :: (uniques less x rest).2) := by
          funext k
          by_cases mine : k = j
          · subst mine
            simp [settled, Function.update_of_ne apart]
          · by_cases own : k = i <;> simp [settled, mine, own, Function.update_apply, Ne.symm apart]
        exact same ▸ result
    · have test : ¬(!less x y && !less y x) = true := like
      obtain ⟨after, ran, result⟩ := ih represents next short
      rw [if_neg test, if_neg like]
      exact ⟨after, ran, by simpa using result⟩

/-- Insertion in order, removal of duplicates into another list, if one is given, and the first greatest and least element. -/
theorem list_order_operations {less : Nat → Nat → Bool} (represents : Represents heap header contents)
    (order : IsStrictWeakOrder Nat fun x y => less x y = true) (i : I) {duplicates : Option I}
    (other : ∀ j ∈ duplicates, j ≠ i) {steps : Nat} (enough : (contents i).length < steps) :
    (((contents i).Pairwise fun x y => follows less x y = true) → ∀ elem, elem ≠ 0 →
      (∀ k, elem ∉ (header k).nodes (contents k)) → ∃ front back after, contents i = front ++ back ∧
        listInsertOrdered less steps (header i) elem heap = .returned () after ∧
        Represents after header (Function.update contents i (front ++ elem :: back)) ∧
        ((front ++ elem :: back).Pairwise fun x y => follows less x y = true) ∧
        (∀ x ∈ front, less elem x = false) ∧ ∀ x ∈ back, less elem x = true) ∧
    (∃ groups after, Runs less (contents i) groups ∧
      listUnique less steps (header i) (duplicates.map header) heap = .returned () after ∧
      Represents after header (settled contents i duplicates (groups.map (·.headD 0)) (groups.flatMap List.tail)) ∧
      (groups.map (·.headD 0) ++ groups.flatMap List.tail).Perm (contents i) ∧
      (((contents i).Pairwise fun x y => follows less x y = true) →
        (groups.map (·.headD 0)).Pairwise fun x y => less x y = true)) ∧
    ((contents i = [] → listMax less steps (header i) heap = .returned (header i).tail heap) ∧
      (contents i ≠ [] → ∃ front max back, contents i = front ++ max :: back ∧
        listMax less steps (header i) heap = .returned max heap ∧ (∀ x ∈ front, less x max = true) ∧
        ∀ x ∈ back, less max x = false)) ∧
    ((contents i = [] → listMin less steps (header i) heap = .returned (header i).tail heap) ∧
      (contents i ≠ [] → ∃ front min back, contents i = front ++ min :: back ∧
        listMin less steps (header i) heap = .returned min heap ∧ (∀ x ∈ front, less min x = true) ∧
        ∀ x ∈ back, less x min = false)) := by
  have begins := represents.listBegin i
  have emptiness : listEmpty (header i) heap =
      .returned ((contents i).headD (header i).tail == (header i).tail) heap := by
    rw [listEmpty, bind_of_returned begins]
    rfl
  refine ⟨fun sorted elem given fresh => ?_, ?_, ?_, ?_⟩
  · have split : contents i = (contents i).takeWhile (fun y => !less elem y) ++ (contents i).dropWhile fun y => !less elem y :=
      List.takeWhile_append_dropWhile.symm
    obtain ⟨after, inserted, represented⟩ := listInsert_represents represents split given fresh
    have front : ∀ x ∈ (contents i).takeWhile fun y => !less elem y, less elem x = false := fun x inside => by
      simpa using List.all_eq_true.mp List.all_takeWhile x inside
    have ordered := sorted
    rw [split] at ordered
    obtain ⟨first, second, across⟩ := List.pairwise_append.mp ordered
    have back : ∀ x ∈ (contents i).dropWhile fun y => !less elem y, less elem x = true := by
      cases left : (contents i).dropWhile fun y => !less elem y with
      | nil => simp
      | cons y rest =>
        have before : less elem y = true := by
          have stops := List.head?_dropWhile_not (fun y => !less elem y) (contents i)
          simpa [left] using stops
        rw [left] at second
        rintro x (_ | ⟨_, inside⟩)
        · exact before
        · exact less_of_less_of_follows order before ((List.pairwise_cons.mp second).1 x inside)
    refine ⟨_, _, after, split, ?_, represented, ?_, front, back⟩
    · rw [listInsertOrdered, bind_of_returned (assert_apply (by simpa using given)), bind_of_returned begins,
        bind_of_returned (insertLoop_apply less represents elem (List.nil_append _).symm enough)]
      exact inserted
    · refine List.pairwise_append.mpr ⟨first, List.pairwise_cons.mpr ⟨fun x inside => ?_, second⟩, ?_⟩
      · have least := back x inside
        have greater : less x elem = false := by
          by_contra more
          exact order.irrefl x (order.trans _ _ _ (by simpa using more) least)
        simp [follows, greater]
      · rintro x inside y (_ | ⟨_, later⟩)
        · simp [follows, front x inside]
        · exact across x inside y later
  · cases elems : contents i with
    | nil =>
      refine ⟨[], heap, ⟨rfl, by simp, by simp, .nil⟩, ?_, ?_, .refl _, fun _ => .nil⟩
      · rw [listUnique, bind_of_returned emptiness, elems, List.headD_nil, if_pos (beq_self_eq_true _)]
        rfl
      · have same : Function.update contents i [] = contents := by rw [← elems, Function.update_eq_self]
        cases duplicates <;> simpa [settled, same] using represents
    | cons x rest =>
      have split : contents i = [] ++ x :: rest := elems
      obtain ⟨group, groups, runs, kept, removed⟩ := uniques_runs order x rest
      rw [elems, List.length_cons] at enough
      obtain ⟨after, ran, represented⟩ := uniqueLoop_represents less other represents split (by omega : rest.length < steps)
      rw [kept, removed] at represented
      refine ⟨_, after, runs, ?_, represented, ?_, fun sorted => ?_⟩
      · rw [listUnique, bind_of_returned emptiness, elems, List.headD_cons, beq_false_of_ne (represents.ne_tail split),
          if_neg Bool.false_ne_true, bind_of_returned begins, elems, List.headD_cons]
        exact ran
      · rw [← kept, ← removed]
        exact uniques_perm x rest
      · rw [← kept]
        exact (uniques_sorted order sorted).1
  · refine listExtreme_apply (fun max e => less max e) represents order.trans (fun a b c before not => ?_) i enough
    exact less_of_follows_of_less order (by simp [follows, not]) before
  · refine listExtreme_apply (fun min e => less e min) represents (fun a b c first second => order.trans _ _ _ second first)
      (fun a b c before not => ?_) i enough
    exact less_of_less_of_follows order before (by simp [follows, not])

/-- The first two of three elements are of a kind, and the last one is the least. -/
theorem list_order_operations_oneList : ∃ after groups, Runs byLastDigit [13, 23, 12] groups ∧
    listUnique byLastDigit 4 ⟨1, 2⟩ none oneList = .returned () after ∧
    ∃ front min back, [13, 23, 12] = front ++ min :: back ∧ listMin byLastDigit 4 ⟨1, 2⟩ oneList = .returned min oneList := by
  obtain ⟨-, ⟨groups, after, runs, done, -⟩, -, -, least⟩ :=
    list_order_operations oneList_represents byLastDigit_order () (by simp : ∀ j ∈ (none : Option Unit), j ≠ ())
      (by decide : 3 < 4)
  obtain ⟨front, min, back, split, found, -⟩ := least (List.cons_ne_nil _ _)
  exact ⟨after, groups, runs, done, front, min, back, split, found⟩

end Changing

end Pintos.Lib.Lists
