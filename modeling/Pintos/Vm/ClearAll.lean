import Pintos.Lib.HashMap
import Pintos.Vm.Agreement

/-! `page_clear_all` (`vm/page.c`) over the buckets of the supplemental page table.

The paging model has a supplemental page table as the list of its pages. Here
the loop goes through the hash table with its iterator, whatever the buckets
are. `frame_free` is a scan of the whole frame table for one address, and the
entries of several processes stand in it in any order.
-/

set_option autoImplicit false

namespace Pintos.Vm
open Semantics Lib

variable {s : State}

/-- `while (hash_next (&i))`. The body leaves the links of the table alone. -/
def State.clearLoop (table : Hash Nat) (s : State) (i : Hash.Iterator Nat) : State :=
  match _next : table.next i with
  | (i', some p) => clearLoop table (s.clearPage p) i'
  | (_, none) => s
termination_by (i.remaining table).length
decreasing_by
  obtain ⟨visited, left⟩ := Hash.next_remaining table i
  rw [_next] at visited left
  rw [left, List.length_tail]
  have more : i.remaining table ≠ [] := fun none => by simp [none] at visited
  have := List.length_pos_of_ne_nil more
  omega

def State.clearTable (s : State) (cur : Nat) (table : Hash Nat) : State :=
  let cleared := s.clearLoop table table.first
  cleared.setThread cur { cleared.threads cur with spt := [] }

def State.resides (s : State) (p : Nat) : Bool := (s.pages p).location = .inFrame ∧ (s.pages p).kpage ≠ 0

def FrameTableElem.Refers (entry : FrameTableElem) (pagedir : Nat) (pages : List Nat) : Prop :=
  (entry.pagedir ≠ 0 ∧ entry.pagedir = pagedir) ∨ (entry.pagePointer ≠ 0 ∧ entry.pagePointer ∈ pages)

instance (entry : FrameTableElem) (pagedir : Nat) (pages : List Nat) : Decidable (entry.Refers pagedir pages) :=
  inferInstanceAs (Decidable (_ ∨ _))

structure Consistent (s : State) (pagedir : Nat) (pages : List Nat) : Prop where
  frames : Frames s
  entry : ∀ p ∈ pages, s.resides p → ∃ i < totalPages, s.frameTable i =
    { kpage := (s.pages p).kpage, upage := (s.pages p).upage, pagedir := pagedir, pagePointer := p }
  owner : ∀ i < totalPages, (s.frameTable i).Refers pagedir pages → (s.frameTable i).pagePointer ∈ pages ∧
    s.resides (s.frameTable i).pagePointer ∧ (s.pages (s.frameTable i).pagePointer).kpage = (s.frameTable i).kpage
  present : ∀ p ∈ pages, p ≠ 0

structure Released (s after : State) (pagedir : Nat) (pages : List Nat) : Prop where
  gone : ∀ i < totalPages, ¬(after.frameTable i).Refers pagedir pages
  freed : ∀ i < totalPages, (s.frameTable i).Refers pagedir pages →
    after.frameTable i = { kpage := (s.frameTable i).kpage }
  others : ∀ i < totalPages, ¬(s.frameTable i).Refers pagedir pages → after.frameTable i = s.frameTable i
  occupancy : after.occupancy = s.occupancy - (pages.filter s.resides).length

/-! ## The iterator -/

theorem clearLoop_eq (table : Hash Nat) (s : State) (i : Hash.Iterator Nat) :
    s.clearLoop table i = (i.remaining table).foldl State.clearPage s := by
  fun_induction State.clearLoop table s i with
  | case1 s i i' p next ih =>
    obtain ⟨visited, left⟩ := Hash.next_remaining table i
    rw [next] at visited left
    obtain ⟨rest, split⟩ := List.head?_eq_some_iff.mp visited.symm
    rw [ih, left, split, List.tail_cons, List.foldl_cons]
  | case2 s i i' next =>
    obtain ⟨visited, -⟩ := Hash.next_remaining table i
    rw [next] at visited
    rw [List.head?_eq_none_iff.mp visited.symm, List.foldl_nil]

theorem clearTable_eq (s : State) (cur : Nat) {table : Hash Nat} (some : 0 < table.bucketCnt) :
    s.clearTable cur table =
      (table.elems.foldl State.clearPage s).setThread cur
        { (table.elems.foldl State.clearPage s).threads cur with spt := [] } := by
  unfold State.clearTable
  rw [clearLoop_eq, Hash.first_remaining _ some]

/-! ## One page -/

section Page
variable {pagedir p : Nat} {rest : List Nat}

theorem resides_iff : s.resides p = true ↔ (s.pages p).location = .inFrame ∧ (s.pages p).kpage ≠ 0 := by
  simp [State.resides]

theorem clearPage_of_absent (frames : Frames s) (absent : s.resides p = false) :
    (s.clearPage p).frameTable = s.frameTable ∧ (s.clearPage p).occupancy = s.occupancy := by
  rw [clearPage_eq]
  split <;> rename_i located
  · have null : (s.pages p).kpage = 0 := by
      by_contra given
      rw [resides_iff.mpr ⟨located, given⟩] at absent
      cases absent
    have idle : s.frameFree (s.pages p).kpage = s :=
      frameFree_of_no_frame fun i bound => null ▸ frames.kpage_pos i bound
    simp only [idle, and_self]
  · exact ⟨rfl, rfl⟩

theorem clearPage_of_resides (frames : Frames s) (resides : s.resides p = true) {i : Nat} (bound : i < totalPages)
    (kpage : (s.frameTable i).kpage = (s.pages p).kpage) :
    (s.clearPage p).frameTable = (s.released i).frameTable ∧ (s.clearPage p).occupancy = s.occupancy - 1 := by
  have freed : s.frameFree (s.pages p).kpage = s.released i := by
    rw [← kpage]
    exact frameFree_of_frame frames bound
  rw [clearPage_eq, if_pos (resides_iff.mp resides).1]
  simp only [freed]
  exact ⟨trivial, rfl⟩

theorem clearPage_frames (frames : Frames s) (p : Nat) : Frames (s.clearPage p) := by
  have kpage : ∀ i, ((s.clearPage p).frameTable i).kpage = (s.frameTable i).kpage := by
    intro i
    rw [clearPage_eq]
    split
    · exact frameFree_kpage s _ i
    · rfl
  have clock : (s.clearPage p).clockPointer = s.clockPointer := by
    rw [clearPage_eq]
    split <;> rfl
  refine ⟨fun i bound => ?_, fun i bi j bj same => ?_, ?_⟩
  · rw [kpage]
    exact frames.kpage_pos i bound
  · rw [kpage, kpage] at same
    exact frames.kpage_inj i bi j bj same
  · rw [clock]
    exact frames.clock

theorem resides_clearPage (s : State) {q : Nat} (different : q ≠ p) : (s.clearPage p).resides q = s.resides q := by
  unfold State.resides
  rw [clearPage_pages s p different]

theorem FrameTableElem.Refers.cons {entry : FrameTableElem} (refers : entry.Refers pagedir rest) :
    entry.Refers pagedir (p :: rest) :=
  refers.imp_right fun ⟨given, member⟩ => ⟨given, List.mem_cons_of_mem p member⟩

theorem not_refers_blank (kpage : Nat) (pages : List Nat) :
    ¬({ kpage := kpage } : FrameTableElem).Refers pagedir pages := by
  rintro (⟨given, _⟩ | ⟨given, _⟩)
  · exact given rfl
  · exact given rfl

section
variable (consistent : Consistent s pagedir (p :: rest))
include consistent

theorem Consistent.entry_after {i : Nat} (bound : i < totalPages) : (s.clearPage p).frameTable i =
      if (s.frameTable i).pagePointer = p ∧ (s.frameTable i).Refers pagedir (p :: rest) then
        { kpage := (s.frameTable i).kpage }
      else s.frameTable i := by
  by_cases resides : s.resides p = true
  · obtain ⟨j, inside, entry⟩ := consistent.entry p List.mem_cons_self resides
    have kpage : (s.frameTable j).kpage = (s.pages p).kpage := by rw [entry]
    rw [(clearPage_of_resides consistent.frames resides inside kpage).1]
    by_cases here : i = j
    · subst here
      have pointer : (s.frameTable i).pagePointer = p := by rw [entry]
      have refers : (s.frameTable i).Refers pagedir (p :: rest) := by
        refine Or.inr ?_
        rw [pointer]
        exact ⟨consistent.present p List.mem_cons_self, List.mem_cons_self⟩
      rw [if_pos ⟨pointer, refers⟩]
      exact Function.update_self _ _ _
    · rw [if_neg]
      · exact Function.update_of_ne here _ _
      · rintro ⟨pointer, refers⟩
        obtain ⟨-, -, same⟩ := consistent.owner i bound refers
        rw [pointer, ← kpage] at same
        exact here (consistent.frames.kpage_inj i bound j inside same.symm)
  · rw [(clearPage_of_absent consistent.frames (Bool.not_eq_true _ ▸ resides)).1, if_neg]
    rintro ⟨pointer, refers⟩
    have owner := (consistent.owner i bound refers).2.1
    rw [pointer] at owner
    exact resides owner

theorem Consistent.refers_after {i : Nat} (bound : i < totalPages)
    (refers : ((s.clearPage p).frameTable i).Refers pagedir rest) :
    (s.clearPage p).frameTable i = s.frameTable i ∧ (s.frameTable i).pagePointer ≠ p ∧
      (s.frameTable i).Refers pagedir (p :: rest) := by
  rw [consistent.entry_after bound] at refers ⊢
  split at refers <;> rename_i mine
  · exact absurd refers (not_refers_blank _ _)
  · rw [if_neg mine]
    exact ⟨rfl, fun pointer => mine ⟨pointer, refers.cons⟩, refers.cons⟩

theorem Consistent.clear (distinct : (p :: rest).Nodup) : Consistent (s.clearPage p) pagedir rest := by
  have other : ∀ {q}, q ∈ rest → q ≠ p := fun member same => (List.nodup_cons.mp distinct).1 (same ▸ member)
  refine ⟨clearPage_frames consistent.frames p, fun q member resides => ?_, fun i bound refers => ?_,
    fun q member => consistent.present q (List.mem_cons_of_mem p member)⟩
  · have different := other member
    rw [resides_clearPage s different] at resides
    obtain ⟨i, bound, entry⟩ := consistent.entry q (List.mem_cons_of_mem p member) resides
    refine ⟨i, bound, ?_⟩
    rw [consistent.entry_after bound, if_neg, clearPage_pages s p different]
    · exact entry
    · rintro ⟨pointer, -⟩
      rw [entry] at pointer
      exact different pointer
  · obtain ⟨same, different, before⟩ := consistent.refers_after bound refers
    obtain ⟨member, resides, kpage⟩ := consistent.owner i bound before
    rw [same, resides_clearPage s different, clearPage_pages s p different]
    exact ⟨(List.mem_cons.mp member).resolve_left different, resides, kpage⟩

theorem Consistent.occupancy_after : (s.clearPage p).occupancy = s.occupancy - if s.resides p then 1 else 0 := by
  by_cases resides : s.resides p = true
  · obtain ⟨j, inside, entry⟩ := consistent.entry p List.mem_cons_self resides
    rw [if_pos resides]
    exact (clearPage_of_resides consistent.frames resides inside (by rw [entry])).2
  · rw [if_neg resides, (clearPage_of_absent consistent.frames (Bool.not_eq_true _ ▸ resides)).2, Int.sub_zero]

end

end Page

/-! ## The whole table -/

/-- By induction on the pages that are left: each round keeps the table consistent with the rest. -/
theorem Consistent.released {pagedir : Nat} {pages : List Nat} (consistent : Consistent s pagedir pages)
    (distinct : pages.Nodup) : Released s (pages.foldl State.clearPage s) pagedir pages := by
  induction pages generalizing s with
  | nil =>
    have none : ∀ i < totalPages, ¬(s.frameTable i).Refers pagedir [] := fun i bound refers => by
      cases (consistent.owner i bound refers).1
    exact ⟨none, fun i bound refers => absurd refers (none i bound), fun _ _ _ => rfl, by simp⟩
  | cons p rest ih =>
    have released := ih (consistent.clear distinct) (List.nodup_cons.mp distinct).2
    rw [List.foldl_cons]
    -- An entry of `p` is freed in this round, and no later round touches it.
    have mine : ∀ i < totalPages, (s.frameTable i).Refers pagedir (p :: rest) → (s.frameTable i).pagePointer = p →
        (rest.foldl State.clearPage (s.clearPage p)).frameTable i = { kpage := (s.frameTable i).kpage } := by
      intro i bound refers pointer
      have blank := consistent.entry_after bound
      rw [if_pos ⟨pointer, refers⟩] at blank
      rw [released.others i bound (by rw [blank]; exact not_refers_blank _ _), blank]
    -- An entry of another page is as it was when its round comes.
    have later : ∀ i < totalPages, (s.frameTable i).pagePointer ≠ p → (s.clearPage p).frameTable i = s.frameTable i := by
      intro i bound pointer
      rw [consistent.entry_after bound, if_neg fun both => pointer both.1]
    have freed : ∀ i < totalPages, (s.frameTable i).Refers pagedir (p :: rest) →
        (rest.foldl State.clearPage (s.clearPage p)).frameTable i = { kpage := (s.frameTable i).kpage } := by
      intro i bound refers
      by_cases pointer : (s.frameTable i).pagePointer = p
      · exact mine i bound refers pointer
      · have same := later i bound pointer
        have member := (List.mem_cons.mp (consistent.owner i bound refers).1).resolve_left pointer
        have given := consistent.present _ (consistent.owner i bound refers).1
        rw [released.freed i bound (by rw [same]; exact Or.inr ⟨given, member⟩), same]
    have others : ∀ i < totalPages, ¬(s.frameTable i).Refers pagedir (p :: rest) →
        (rest.foldl State.clearPage (s.clearPage p)).frameTable i = s.frameTable i := by
      intro i bound without
      have same : (s.clearPage p).frameTable i = s.frameTable i := by
        rw [consistent.entry_after bound, if_neg fun both => without both.2]
      rw [released.others i bound (by rw [same]; exact fun refers => without refers.cons), same]
    refine ⟨fun i bound refers => ?_, freed, others, ?_⟩
    · by_cases before : (s.frameTable i).Refers pagedir (p :: rest)
      · rw [freed i bound before] at refers
        exact not_refers_blank _ _ refers
      · rw [others i bound before] at refers
        exact before refers
    · have kept : rest.filter (s.clearPage p).resides = rest.filter s.resides :=
        List.filter_congr fun q member => resides_clearPage s fun same =>
          (List.nodup_cons.mp distinct).1 (same ▸ member)
      rw [released.occupancy, kept, consistent.occupancy_after, List.filter_cons]
      split
      · rw [List.length_cons]
        omega
      · omega

/-- `page_clear_all` frees the frames of the exiting process and no others, for any buckets of its table. -/
theorem page_clear_all_releases {cur : Nat} {table : Hash Nat} (some : 0 < table.bucketCnt)
    (distinct : table.elems.Nodup) (consistent : Consistent s (s.threads cur).pagedir table.elems) :
    Released s (s.clearTable cur table) (s.threads cur).pagedir table.elems := by
  have released := consistent.released distinct
  rw [clearTable_eq s cur some]
  exact ⟨released.gone, released.freed, released.others, released.occupancy⟩

def interleaved : State :=
  { bootState 0 with
    frameTable := fun i =>
      if i = 0 then { kpage := physBase, upage := 0x8048000, pagedir := 5, pagePointer := 1 }
      else if i = 1 then { kpage := physBase + pgSize, upage := 0x8048000, pagedir := 9, pagePointer := 3 }
      else if i = 2 then { kpage := physBase + 2 * pgSize, upage := 0x8049000, pagedir := 5, pagePointer := 2 }
      else { kpage := physBase + pgSize * i }
    occupancy := 3
    pages := fun p =>
      if p = 1 then { upage := 0x8048000, kpage := physBase, location := .inFrame, pagedir := 5 }
      else if p = 2 then { upage := 0x8049000, kpage := physBase + 2 * pgSize, location := .inFrame, pagedir := 5 }
      else if p = 3 then { upage := 0x8048000, kpage := physBase + pgSize, location := .inFrame, pagedir := 9 }
      else { upage := 0x804a000, location := .inSwap, pagedir := 5 }
    threads := fun t => if t = 1 then { phase := .exiting, pagedir := 5 } else { phase := .running, pagedir := 9 } }

def sharedBucket : Hash Nat := ⟨3, 4, fun bucket => if bucket = 1 then [1, 4] else if bucket = 3 then [2] else []⟩

theorem interleaved_consistent : Consistent interleaved 5 [1, 4, 2] := by
  have kpage : ∀ i, (interleaved.frameTable i).kpage = physBase + pgSize * i := by
    intro i
    simp only [interleaved]
    split_ifs with zero one two
    · simp [zero]
    · simp [one]
    · simp [two, Nat.mul_comm]
    · rfl
  refine ⟨⟨fun i _ => ?_, fun i _ j _ same => ?_, by decide⟩, ?_, fun i _ refers => ?_, by decide⟩
  · rw [kpage]
    simp [physBase]
  · rw [kpage, kpage] at same
    simp only [pgSize] at same
    omega
  · intro p member resides
    rcases List.mem_cons.mp member with rfl | member
    · exact ⟨0, by decide, rfl⟩
    · rcases List.mem_cons.mp member with rfl | member
      · exact absurd resides (by decide)
      · rw [List.mem_singleton.mp member]
        exact ⟨2, by decide, rfl⟩
  · by_cases zero : i = 0
    · subst zero
      decide
    by_cases one : i = 1
    · subst one
      exact absurd refers (by decide)
    by_cases two : i = 2
    · subst two
      decide
    have blank : interleaved.frameTable i = { kpage := physBase + pgSize * i } := by
      simp [interleaved, zero, one, two]
    rw [blank] at refers
    exact absurd refers (not_refers_blank _ _)

theorem page_clear_all_releases_interleaved : sharedBucket.elems = [1, 4, 2] ∧
    Released interleaved (interleaved.clearTable 1 sharedBucket) 5 sharedBucket.elems := by
  have elems : sharedBucket.elems = [1, 4, 2] := rfl
  refine ⟨elems, page_clear_all_releases (by decide) ?_ ?_⟩
  · rw [elems]
    decide
  · rw [elems]
    exact interleaved_consistent

end Pintos.Vm
