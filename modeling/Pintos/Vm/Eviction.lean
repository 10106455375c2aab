import Pintos.Vm.Effects

/-! What `frame_find_empty` does to the state, eviction included.

The clock changes accessed bits only. Writing the victim out is the function
`pageOut` of the state at which the clock stopped; its lemmas give each field,
so that the loop over the eight sectors is met here and nowhere else.
-/

set_option autoImplicit false

namespace Pintos.Vm
open Semantics Computation

variable {s final : State}

/-! ## Looking for a victim -/

/-- The state differs from `s` in accessed bits and in the clock hand only. -/
structure Glanced (s after : State) : Prop where
  rest : after = { s with pagedirs := after.pagedirs, clockPointer := after.clockPointer }
  present : ∀ pd va, (after.pte pd va).present = (s.pte pd va).present
  page : ∀ pd va, (after.pte pd va).page = (s.pte pd va).page
  writable : ∀ pd va, (after.pte pd va).writable = (s.pte pd va).writable

namespace Glanced

theorem refl (s : State) : Glanced s s := ⟨rfl, fun _ _ => rfl, fun _ _ => rfl, fun _ _ => rfl⟩

theorem trans {middle : State} (first : Glanced s middle) (second : Glanced middle final) : Glanced s final := by
  refine ⟨?_, fun pd va => ?_, fun pd va => ?_, fun pd va => ?_⟩
  · rw [second.rest, first.rest]
  · rw [second.present, first.present]
  · rw [second.page, first.page]
  · rw [second.writable, first.writable]

variable (glanced : Glanced s final)
include glanced

theorem frameTable : final.frameTable = s.frameTable := by rw [glanced.rest]
theorem pages : final.pages = s.pages := by rw [glanced.rest]
theorem nextPage : final.nextPage = s.nextPage := by rw [glanced.rest]
theorem threads : final.threads = s.threads := by rw [glanced.rest]
theorem freeBitmap : final.freeBitmap = s.freeBitmap := by rw [glanced.rest]
theorem slots : final.slots = s.slots := by rw [glanced.rest]
theorem files : final.files = s.files := by rw [glanced.rest]

end Glanced

theorem glanced_setAccessed (s : State) (pd vpage : Nat) (accessed : Bool) :
    Glanced s (s.setPte pd vpage { s.pte pd vpage with accessed := accessed }) := by
  have same : ∀ other va, other = pd ∧ pgNo va = pgNo vpage → s.pte other va = s.pte pd vpage := by
    rintro other va ⟨rfl, samePage⟩
    exact Pagedir.pte_eq_of_pgNo _ samePage
  refine ⟨rfl, fun other va => ?_, fun other va => ?_, fun other va => ?_⟩ <;>
    rw [State.pte_setPte] <;> split <;> rename_i here
  · rw [same other va here]
  · rfl
  · rw [same other va here]
  · rfl
  · rw [same other va here]
  · rfl

theorem glanced_advanceClock (s : State) : Glanced s s.advanceClock :=
  ⟨rfl, fun _ _ => rfl, fun _ _ => rfl, fun _ _ => rfl⟩

theorem advanceClock_range (range : firstEvictable ≤ s.clockPointer ∧ s.clockPointer < totalPages) :
    firstEvictable ≤ s.advanceClock.clockPointer ∧ s.advanceClock.clockPointer < totalPages := by
  unfold State.advanceClock
  by_cases last : s.clockPointer + 1 = totalPages
  · simp only [if_pos last]
    decide
  · simp only [if_neg last]
    omega

theorem pagedirIsAccessed_apply (s : State) (pd vpage : Nat) :
    pagedirIsAccessed pd vpage s =
      if pd = 0 then .stopped .panic s else .returned (s.pte pd vpage).accessed s := by
  unfold pagedirIsAccessed lookupPage
  by_cases none : pd = 0
  · simp [none, bind_apply]
  · rw [if_neg none, bind_apply, bne_iff_ne.mpr none]
    rfl

theorem pagedirSetAccessed_apply (s : State) {pd : Nat} (vpage : Nat) (accessed : Bool) (directory : pd ≠ 0) :
    ∃ after, pagedirSetAccessed pd vpage accessed s = .returned () after ∧ Glanced s after ∧
      after.clockPointer = s.clockPointer := by
  unfold pagedirSetAccessed lookupPage
  simp only [bind_apply, bne_iff_ne.mpr directory, assert_true, modify_apply]
  refine ⟨_, rfl, ?_⟩
  split
  · exact ⟨glanced_setAccessed _ _ _ _, rfl⟩
  · exact ⟨Glanced.refl _, rfl⟩

/-- One look of the clock: it stops here, moves on with a bit cleared, or finds no directory. -/
theorem evictSelect_succ (s : State) (fuel : Nat) :
    ((s.frameTable s.clockPointer).pagedir = 0 ∧ evictSelect (fuel + 1) s = .stopped .panic s) ∨
    ((s.frameTable s.clockPointer).pagedir ≠ 0 ∧ evictSelect (fuel + 1) s = .returned () s) ∨
    ∃ after, Glanced s after ∧ after.clockPointer = s.clockPointer ∧
      evictSelect (fuel + 1) s = evictSelect fuel after.advanceClock := by
  rw [evictSelect, bind_get]
  by_cases directory : (s.frameTable s.clockPointer).pagedir = 0
  · refine Or.inl ⟨directory, bind_of_stopped ?_⟩
    rw [pagedirIsAccessed_apply, if_pos directory]
  · have looked : pagedirIsAccessed (s.frameTable s.clockPointer).pagedir (s.frameTable s.clockPointer).upage s =
        .returned (s.pte (s.frameTable s.clockPointer).pagedir (s.frameTable s.clockPointer).upage).accessed s := by
      rw [pagedirIsAccessed_apply, if_neg directory]
    rw [bind_of_returned looked]
    cases accessed : (s.pte (s.frameTable s.clockPointer).pagedir (s.frameTable s.clockPointer).upage).accessed with
    | false => exact Or.inr (Or.inl ⟨directory, rfl⟩)
    | true =>
      obtain ⟨after, cleared, glance, clock⟩ :=
        pagedirSetAccessed_apply s (s.frameTable s.clockPointer).upage false directory
      refine Or.inr (Or.inr ⟨after, glance, clock, ?_⟩)
      rw [if_pos rfl, bind_of_returned cleared, bind_modify]

theorem evictSelect_returned {fuel : Nat} (range : firstEvictable ≤ s.clockPointer ∧ s.clockPointer < totalPages)
    (done : evictSelect fuel s = .returned () final) :
    Glanced s final ∧ (firstEvictable ≤ final.clockPointer ∧ final.clockPointer < totalPages) ∧
      (final.frameTable final.clockPointer).pagedir ≠ 0 := by
  induction fuel generalizing s with
  | zero => cases done
  | succ fuel ih =>
    rcases evictSelect_succ s fuel with ⟨_, failed⟩ | ⟨directory, stops⟩ | ⟨after, glance, clock, goes⟩
    · rw [failed] at done; cases done
    · rw [stops] at done
      cases done
      exact ⟨Glanced.refl _, range, directory⟩
    · rw [goes] at done
      obtain ⟨later, range', victim⟩ := ih (advanceClock_range (clock.symm ▸ range)) done
      exact ⟨glance.trans ((glanced_advanceClock _).trans later), range', victim⟩

theorem evictSelect_stopped {fuel : Nat} {why : Halt} (ended : evictSelect fuel s = .stopped why final) :
    why = .panic ∨ why = .diverge := by
  induction fuel generalizing s with
  | zero =>
    cases ended
    exact Or.inr rfl
  | succ fuel ih =>
    rcases evictSelect_succ s fuel with ⟨_, failed⟩ | ⟨_, stops⟩ | ⟨after, _, _, goes⟩
    · rw [failed] at ended
      cases ended
      exact Or.inl rfl
    · rw [stops] at ended; cases ended
    · rw [goes] at ended
      exact ih ended

/-! ## Writing the victim out -/

def State.unmapped (s : State) (pd upage : Nat) : State :=
  if (s.pte pd upage).present then s.setPte pd upage { s.pte pd upage with present := false } else s

def State.pageOut (s : State) (slot : Nat) : State :=
  let frame := s.frameTable s.clockPointer
  let marked := (s.unmapped frame.pagedir frame.upage).setSlot slot true
  let placed := marked.setPage frame.pagePointer { s.pages frame.pagePointer with swapLocation := slot * 8 }
  ((List.range 8).foldl (State.sectorOut frame.kpage (slot * 8)) placed).evicted

theorem foldl_sectorOut (s : State) (kpage sector count : Nat) :
    (List.range count).foldl (State.sectorOut kpage sector) s =
      { s with swap := fun x o =>
          if sector ≤ x ∧ x < sector + count then s.ram kpage (blockSectorSize * (x - sector) + o) else s.swap x o } := by
  induction count with
  | zero =>
    have never : ∀ x, ¬(sector ≤ x ∧ x < sector + 0) := by omega
    simp only [List.range_zero, List.foldl_nil, never, if_false]
  | succ count ih =>
    rw [List.range_succ, List.foldl_append, ih, List.foldl_cons, List.foldl_nil]
    unfold State.sectorOut
    congr 1
    funext x
    by_cases last : x = sector + count
    · subst last
      have inside : sector ≤ sector + count ∧ sector + count < sector + (count + 1) := by omega
      simp [inside]
    · rw [Function.update_of_ne last]
      funext o
      have same : (sector ≤ x ∧ x < sector + (count + 1)) ↔ (sector ≤ x ∧ x < sector + count) := by omega
      simp only [same]

theorem unmapped_eq (s : State) (pd upage : Nat) :
    s.unmapped pd upage = { s with pagedirs := (s.unmapped pd upage).pagedirs } := by
  unfold State.unmapped
  split <;> rfl

theorem pte_unmapped (s : State) (pd upage other va : Nat) :
    (s.unmapped pd upage).pte other va =
      if other = pd ∧ pgNo va = pgNo upage then { s.pte other va with present := false } else s.pte other va := by
  unfold State.unmapped
  cases mapped : (s.pte pd upage).present with
  | true =>
    rw [if_pos rfl, State.pte_setPte]
    split <;> rename_i here
    · obtain ⟨rfl, samePage⟩ := here
      have entry : s.pte other va = s.pte other upage := Pagedir.pte_eq_of_pgNo _ samePage
      rw [entry]
    · rfl
  | false =>
    rw [if_neg (by simp)]
    split <;> rename_i here
    · obtain ⟨rfl, samePage⟩ := here
      have entry : s.pte other va = s.pte other upage := Pagedir.pte_eq_of_pgNo _ samePage
      rw [entry, ← mapped]
    · rfl

section PageOut
variable (s) (slot : Nat)

/-- The whole effect of an eviction on the state, one field at a time. -/
theorem pageOut_eq : s.pageOut slot =
    { s with
      frameTable := Function.update s.frameTable s.clockPointer { kpage := (s.frameTable s.clockPointer).kpage }
      occupancy := s.occupancy - 1
      clockPointer := s.advanceClock.clockPointer
      pages := Function.update s.pages (s.frameTable s.clockPointer).pagePointer
        { s.pages (s.frameTable s.clockPointer).pagePointer with
          swapLocation := slot * 8, location := .inSwap, kpage := 0 }
      pagedirs := (s.unmapped (s.frameTable s.clockPointer).pagedir (s.frameTable s.clockPointer).upage).pagedirs
      swap := fun x o =>
        if slot * 8 ≤ x ∧ x < slot * 8 + 8 then
          s.ram (s.frameTable s.clockPointer).kpage (blockSectorSize * (x - slot * 8) + o)
        else s.swap x o
      freeBitmap := Function.update s.freeBitmap slot true } := by
  unfold State.pageOut
  simp only [foldl_sectorOut]
  have bare := unmapped_eq s (s.frameTable s.clockPointer).pagedir (s.frameTable s.clockPointer).upage
  rw [bare]
  simp only [State.evicted, State.advanceClock, State.setSlot, State.setPage, State.setFrame, Function.update_self,
    Function.update_idem]

theorem pte_pageOut (pd va : Nat) : (s.pageOut slot).pte pd va =
    if pd = (s.frameTable s.clockPointer).pagedir ∧ pgNo va = pgNo (s.frameTable s.clockPointer).upage then
      { s.pte pd va with present := false }
    else s.pte pd va := by
  rw [← pte_unmapped, pageOut_eq]
  rfl

end PageOut

theorem pagedirClearPage_apply (s : State) (pd upage : Nat) :
    pagedirClearPage pd upage s =
      if pgOfs upage = 0 ∧ upage < physBase ∧ pd ≠ 0 then .returned () (s.unmapped pd upage) else .stopped .panic s := by
  unfold pagedirClearPage lookupPage isUserVaddr
  by_cases aligned : pgOfs upage = 0
  · by_cases user : upage < physBase
    · by_cases directory : pd = 0
      · simp [aligned, user, directory, bind_apply]
      · rw [if_pos ⟨aligned, user, directory⟩, beq_iff_eq.mpr aligned, decide_eq_true user,
          bne_iff_ne.mpr directory]
        rfl
    · simp [aligned, user, bind_apply]
  · have uneven : (pgOfs upage == 0) = false := by simpa using aligned
    rw [if_neg (fun all => aligned all.1), uneven]
    rfl

theorem swapWrite_apply (s : State) (kpage page : Nat) :
    swapWrite kpage page s = match s.freeSlot with
      | some slot => .returned () ((List.range 8).foldl (State.sectorOut kpage (slot * 8))
          ((s.setSlot slot true).setPage page { s.pages page with swapLocation := slot * 8 }))
      | none => .stopped .panic s := by
  unfold swapWrite swapGetFree
  cases found : s.freeSlot with
  | none => simp [bind_apply, found]
  | some slot => simp [bind_apply, found]

theorem unmapped_freeSlot (s : State) (pd upage : Nat) : (s.unmapped pd upage).freeSlot = s.freeSlot := by
  rw [unmapped_eq]
  rfl

theorem unmapped_pages (s : State) (pd upage : Nat) : (s.unmapped pd upage).pages = s.pages := by
  rw [unmapped_eq]

/-- From where the clock stops, eviction is `pageOut` to the first free slot, or a failed assertion. -/
theorem frameEvict_of_select {stop : State} (selected : evictSelect evictFuel s = .returned () stop) :
    frameEvict s =
      if pgOfs (stop.frameTable stop.clockPointer).upage = 0 ∧
          (stop.frameTable stop.clockPointer).upage < physBase ∧
          (stop.frameTable stop.clockPointer).pagedir ≠ 0 then
        match stop.freeSlot with
        | some slot => .returned (stop.frameTable stop.clockPointer).kpage (stop.pageOut slot)
        | none => .stopped .panic (stop.unmapped (stop.frameTable stop.clockPointer).pagedir
            (stop.frameTable stop.clockPointer).upage)
      else .stopped .panic stop := by
  unfold frameEvict
  rw [bind_of_returned selected, bind_get, bind_apply, pagedirClearPage_apply]
  by_cases valid : pgOfs (stop.frameTable stop.clockPointer).upage = 0 ∧
      (stop.frameTable stop.clockPointer).upage < physBase ∧ (stop.frameTable stop.clockPointer).pagedir ≠ 0
  · simp only [if_pos valid, bind_apply, swapWrite_apply, unmapped_freeSlot, unmapped_pages]
    cases stop.freeSlot with
    | none => rfl
    | some slot => rfl
  · simp only [if_neg valid]

structure Evicted (s : State) (kpage : Nat) (final : State) (stop : State) (slot : Nat) : Prop where
  glanced : Glanced s stop
  range : firstEvictable ≤ stop.clockPointer ∧ stop.clockPointer < totalPages
  directory : (stop.frameTable stop.clockPointer).pagedir ≠ 0
  available : stop.freeSlot = some slot
  kpage : kpage = (stop.frameTable stop.clockPointer).kpage
  final : final = stop.pageOut slot

theorem frameEvict_returned {kpage : Nat} (frames : Frames s) (done : frameEvict s = .returned kpage final) :
    ∃ stop slot, Evicted s kpage final stop slot := by
  cases selected : evictSelect evictFuel s with
  | stopped why stop =>
    rw [frameEvict, bind_of_stopped selected] at done
    cases done
  | returned value stop =>
    obtain ⟨glanced, range, directory⟩ := evictSelect_returned frames.clock selected
    rw [frameEvict_of_select selected] at done
    split at done
    · cases found : stop.freeSlot with
      | none => simp [found] at done
      | some slot =>
        simp only [found] at done
        cases done
        exact ⟨stop, slot, glanced, range, directory, found, rfl, rfl⟩
    · cases done

theorem frameEvict_stopped {why : Halt} (ended : frameEvict s = .stopped why final) :
    why = .panic ∨ why = .diverge := by
  cases selected : evictSelect evictFuel s with
  | stopped reason stop =>
    rw [frameEvict, bind_of_stopped selected] at ended
    cases ended
    exact evictSelect_stopped selected
  | returned value stop =>
    rw [frameEvict_of_select selected] at ended
    split at ended
    · cases found : stop.freeSlot with
      | none =>
        simp only [found] at ended
        cases ended
        exact Or.inl rfl
      | some slot => simp [found] at ended
    · cases ended
      exact Or.inl rfl

/-! ## Finding a frame -/

theorem firstFree_spec {i : Nat} (found : s.firstFree = some i) :
    i < totalPages ∧ (s.frameTable i).upage = 0 ∧ ∀ j < i, (s.frameTable j).upage ≠ 0 := by
  unfold State.firstFree at found
  have here := List.find?_some found
  have member := List.mem_of_find?_eq_some found
  refine ⟨List.mem_range.mp member, by simpa using here, fun j below => ?_⟩
  have earlier := (List.find?_range_eq_some.mp found).2.2 j below
  simpa using earlier

theorem firstFree_none (absent : s.firstFree = none) : ∀ i < totalPages, (s.frameTable i).upage ≠ 0 := by
  unfold State.firstFree at absent
  intro i bound
  have taken := List.find?_eq_none.mp absent i (List.mem_range.mpr bound)
  simpa using taken

/-- What `frame_find_empty` returns: nothing, a free frame, or an evicted one. -/
inductive Found (s : State) : Nat → State → Prop where
  | nothing : (∀ i < totalPages, (s.frameTable i).upage ≠ 0) → Found s 0 s
  | free (i : Nat) : i < totalPages → (s.frameTable i).upage = 0 → Found s (s.frameTable i).kpage s
  | evicted {kpage slot : Nat} {final stop : State} : Evicted s kpage final stop slot → Found s kpage final

theorem frameFindEmpty_returned {kpage : Nat} (frames : Frames s) (done : frameFindEmpty s = .returned kpage final) :
    Found s kpage final := by
  unfold frameFindEmpty at done
  rw [bind_get] at done
  split at done
  · cases found : s.firstFree with
    | none =>
      simp only [found] at done
      cases done
      exact .nothing (firstFree_none found)
    | some i =>
      simp only [found] at done
      cases done
      obtain ⟨bound, free, _⟩ := firstFree_spec found
      exact .free i bound free
  · obtain ⟨stop, slot, evicted⟩ := frameEvict_returned frames done
    exact .evicted evicted

theorem frameFindEmpty_stopped {why : Halt} (ended : frameFindEmpty s = .stopped why final) :
    why = .panic ∨ why = .diverge := by
  unfold frameFindEmpty at ended
  rw [bind_get] at ended
  split at ended
  · cases found : s.firstFree with
    | none => simp [found] at ended
    | some i => simp [found] at ended
  · exact frameEvict_stopped ended

end Pintos.Vm
