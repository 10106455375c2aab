import Pintos.Vm.System

/-! What the frame table operations do to the state.

One lemma for each operation says which state it returns, in terms of the plain
state functions below; the invariants are then proved of those functions and no
later proof runs the kernel computations again.
-/

set_option autoImplicit false

namespace Pintos.Vm
open Semantics Computation

variable {s final : State}

structure Frames (s : State) : Prop where
  kpage_pos : ∀ i < totalPages, (s.frameTable i).kpage ≠ 0
  kpage_inj : ∀ i < totalPages, ∀ j < totalPages, (s.frameTable i).kpage = (s.frameTable j).kpage → i = j
  clock : firstEvictable ≤ s.clockPointer ∧ s.clockPointer < totalPages

/-! ## Freeing a frame -/

def State.released (s : State) (i : Nat) : State :=
  { s.setFrame i { kpage := (s.frameTable i).kpage } with occupancy := s.occupancy - 1 }

@[simp] theorem released_kpage (s : State) (i j : Nat) :
    ((s.released i).frameTable j).kpage = (s.frameTable j).kpage := by
  by_cases same : j = i
  · subst same; simp [State.released]
  · simp [State.released, same]

theorem frameFree_of_frame (frames : Frames s) {i : Nat} (bound : i < totalPages) :
    s.frameFree (s.frameTable i).kpage = s.released i := by
  have acts : State.freeAt (s.frameTable i).kpage s i = s.released i := by
    simp [State.freeAt, State.released]
  unfold State.frameFree
  rw [foldl_single List.nodup_range (List.mem_range.mpr bound), acts]
  · intro other inside different
    have apart : (s.frameTable other).kpage ≠ (s.frameTable i).kpage :=
      fun same => different (frames.kpage_inj _ (List.mem_range.mp inside) _ bound same)
    simp [State.freeAt, apart]
  · intro other inside different
    rw [acts]
    have apart : ((s.released i).frameTable other).kpage ≠ (s.frameTable i).kpage := by
      rw [released_kpage]
      exact fun same => different (frames.kpage_inj _ (List.mem_range.mp inside) _ bound same)
    rw [State.freeAt, if_neg apart]

theorem frameFree_of_no_frame {kpage : Nat} (absent : ∀ i < totalPages, (s.frameTable i).kpage ≠ kpage) :
    s.frameFree kpage = s := by
  unfold State.frameFree
  apply foldl_idle
  intro i inside
  simp [State.freeAt, absent i (List.mem_range.mp inside)]

/-- Freeing by address is labelling one entry as available, or nothing at all. -/
theorem frameFree_cases (frames : Frames s) (kpage : Nat) :
    (∃ i < totalPages, (s.frameTable i).kpage = kpage ∧ s.frameFree kpage = s.released i) ∨
      ((∀ i < totalPages, (s.frameTable i).kpage ≠ kpage) ∧ s.frameFree kpage = s) := by
  by_cases found : ∃ i < totalPages, (s.frameTable i).kpage = kpage
  · obtain ⟨i, bound, same⟩ := found
    refine Or.inl ⟨i, bound, same, ?_⟩
    rw [← same]
    exact frameFree_of_frame frames bound
  · have absent : ∀ i < totalPages, (s.frameTable i).kpage ≠ kpage :=
      fun i bound same => found ⟨i, bound, same⟩
    exact Or.inr ⟨absent, frameFree_of_no_frame absent⟩

/-! ## Installing a page -/

def State.occupied (s : State) (upage pagedir page i : Nat) : State :=
  { s.setFrame i { kpage := (s.frameTable i).kpage, upage := upage, pagedir := pagedir, pagePointer := page } with
    occupancy := s.occupancy + 1 }

theorem installLoop_idle {cur upage kpage pagedir page : Nat} {indices : List Nat}
    (absent : ∀ j ∈ indices, (s.frameTable j).kpage ≠ kpage) :
    installLoop cur upage kpage pagedir page indices s = .returned () s := by
  induction indices with
  | nil => rfl
  | cons j rest ih =>
    have skipped : (s.frameTable j).kpage ≠ kpage := absent j (by simp)
    unfold installLoop
    simp only [bind_get, skipped, if_false]
    exact ih fun k inside => absent k (by simp [inside])

/-- With one matching entry, and that entry free, the loop fills it. -/
theorem installLoop_fills (cur upage pagedir page : Nat) {i : Nat} {indices : List Nat}
    (distinct : indices.Nodup) (member : i ∈ indices)
    (only : ∀ j ∈ indices, (s.frameTable j).kpage = (s.frameTable i).kpage → j = i)
    (free : (s.frameTable i).upage = 0) :
    installLoop cur upage (s.frameTable i).kpage pagedir page indices s =
      .returned () (s.occupied upage pagedir page i) := by
  induction indices with
  | nil => cases member
  | cons j rest ih =>
    obtain ⟨fresh, distinctRest⟩ := List.nodup_cons.mp distinct
    by_cases same : j = i
    · subst same
      unfold installLoop
      simp only [bind_get, free, if_true, ne_eq, not_true_eq_false, if_false, bind_modify]
      -- The rest of the table has other frames, before and after this entry is filled.
      apply installLoop_idle
      intro k inside
      have apart : k ≠ j := fun equal => fresh (equal ▸ inside)
      have differs := fun equal => apart (only k (by simp [inside]) equal)
      simpa [apart] using differs
    · have inRest : i ∈ rest := by
        rcases List.mem_cons.mp member with equal | inside
        · exact absurd equal.symm same
        · exact inside
      have skipped : (s.frameTable j).kpage ≠ (s.frameTable i).kpage := fun equal => same (only j (by simp) equal)
      unfold installLoop
      simp only [bind_get, skipped, if_false]
      exact ih distinctRest inRest fun k inside => only k (by simp [inside])

def State.installed (s : State) (cur target i : Nat) : State :=
  let page := s.pages target
  let kpage := (s.frameTable i).kpage
  let mapped := s.setPte (s.threads cur).pagedir page.upage
    { present := true, page := kpage, writable := page.writable }
  (mapped.occupied page.upage page.pagedir target i).setPage target { page with location := .inFrame, kpage := kpage }

/-- Everything `install_page` can do: map the page, refuse it, or fail an assertion. -/
theorem installPage_cases (cur upage kpage : Nat) (writable allocated : Bool) :
    installPage cur upage kpage writable allocated s =
        .returned true (s.setPte (s.threads cur).pagedir upage { present := true, page := kpage, writable := writable }) ∧
      (s.pte (s.threads cur).pagedir upage).present = false ∧ isKernelVaddr kpage = true ∨
    installPage cur upage kpage writable allocated s = .returned false s ∨
    installPage cur upage kpage writable allocated s = .stopped .panic s := by
  unfold installPage pagedirGetPage pagedirSetPage lookupPage
  simp only [bind_get]
  by_cases user : isUserVaddr upage = true
  · by_cases directory : ((s.threads cur).pagedir != 0) = true
    · rw [user, directory]
      simp only [bind_apply, assert_true, get_apply, pure_apply]
      by_cases unmapped : (if (s.pte (s.threads cur).pagedir upage).present = true then
          (s.pte (s.threads cur).pagedir upage).page + pgOfs upage else 0) = 0
      · rw [if_pos unmapped]
        cases pgOfs upage == 0 <;> cases pgOfs kpage == 0 <;> cases kernel : isKernelVaddr kpage <;>
          simp only [bind_apply, assert_true, assert_false, get_apply, or_true]
        by_cases table : ((((s.pagedirs (s.threads cur).pagedir).table (pdNo upage)).isSome || allocated) = true)
        · rw [if_pos table]
          cases present : (s.pte (s.threads cur).pagedir upage).present <;> simp [bind_apply]
        · rw [if_neg table]
          simp
      · rw [if_neg unmapped]
        simp
    · simp [bind_apply, user, directory]
  · simp [bind_apply, user]

/-- After `install_page` has mapped the page, `frame_install` fills the entry of a free frame. -/
theorem frameInstall_of_mapped (frames : Frames s) (cur upage pagedir page : Nat) (writable allocated : Bool) {i : Nat}
    (bound : i < totalPages) (free : (s.frameTable i).upage = 0)
    (mapped : installPage cur upage (s.frameTable i).kpage writable allocated s =
      .returned true (s.setPte (s.threads cur).pagedir upage
        { present := true, page := (s.frameTable i).kpage, writable := writable })) :
    frameInstall cur upage (s.frameTable i).kpage pagedir writable page allocated s =
      .returned true ((s.setPte (s.threads cur).pagedir upage
        { present := true, page := (s.frameTable i).kpage, writable := writable }).occupied upage pagedir page i) := by
  unfold frameInstall
  rw [bind_of_returned mapped, if_pos rfl]
  have filled := installLoop_fills cur upage pagedir page (i := i)
    (s := s.setPte (s.threads cur).pagedir upage
      { present := true, page := (s.frameTable i).kpage, writable := writable })
    List.nodup_range (List.mem_range.mpr bound)
    (fun j inside same => frames.kpage_inj j (List.mem_range.mp inside) i bound same) free
  exact bind_of_returned filled

theorem frameInstall_cases (frames : Frames s) (cur upage pagedir page : Nat) (writable allocated : Bool) {i : Nat}
    (bound : i < totalPages) (free : (s.frameTable i).upage = 0) :
    frameInstall cur upage (s.frameTable i).kpage pagedir writable page allocated s =
        .returned true ((s.setPte (s.threads cur).pagedir upage
          { present := true, page := (s.frameTable i).kpage, writable := writable }).occupied upage pagedir page i) ∧
      (s.pte (s.threads cur).pagedir upage).present = false ∨
    frameInstall cur upage (s.frameTable i).kpage pagedir writable page allocated s = .returned false s ∨
    frameInstall cur upage (s.frameTable i).kpage pagedir writable page allocated s = .stopped .panic s := by
  rcases installPage_cases (s := s) cur upage (s.frameTable i).kpage writable allocated with
    ⟨mapped, absent, _⟩ | refused | failed
  · exact Or.inl ⟨frameInstall_of_mapped frames cur upage pagedir page writable allocated bound free mapped, absent⟩
  · refine Or.inr (Or.inl ?_)
    unfold frameInstall
    rw [bind_of_returned refused]
    rfl
  · refine Or.inr (Or.inr ?_)
    unfold frameInstall
    exact bind_of_stopped failed

/-- Everything `page_install_to_frame` can do with a free frame: install the page,
end the process after a decrement of `occupancy`, or fail an assertion. -/
theorem pageInstallToFrame_cases (frames : Frames s) (cur target upage kpage pagedir : Nat) {i : Nat}
    (bound : i < totalPages) (free : (s.frameTable i).upage = 0) (env : Env) (isUpage : upage = (s.pages target).upage)
    (isKpage : kpage = (s.frameTable i).kpage) (isPagedir : pagedir = (s.pages target).pagedir) :
    pageInstallToFrame cur target upage kpage pagedir env s = .returned true (s.installed cur target i) ∧
      (s.pte (s.threads cur).pagedir (s.pages target).upage).present = false ∨
    pageInstallToFrame cur target upage kpage pagedir env s =
        .stopped (.exit (-532)) ((s.released i).ending cur (-532)) ∨
    pageInstallToFrame cur target upage kpage pagedir env s = .stopped .panic s := by
  subst isUpage isKpage isPagedir
  unfold pageInstallToFrame
  rw [bind_get]
  rcases frameInstall_cases frames cur (s.pages target).upage (s.pages target).pagedir target
    (s.pages target).writable env.pageTable bound free with ⟨filled, absent⟩ | refused | failed
  · refine Or.inl ⟨?_, absent⟩
    rw [bind_of_returned filled]
    rfl
  · refine Or.inr (Or.inl ?_)
    rw [bind_of_returned refused]
    simp only [Bool.not_false, if_true, bind_modify, frameFree_of_frame frames bound]
    rfl
  · exact Or.inr (Or.inr (bind_of_stopped failed))

/-! ### Without assumptions on the frame table -/

theorem installLoop_returned {cur upage kpage pagedir page : Nat} {indices : List Nat}
    (done : installLoop cur upage kpage pagedir page indices s = .returned () final) :
    ∃ frameTable occupancy, final = { s with frameTable := frameTable, occupancy := occupancy } := by
  induction indices generalizing s with
  | nil =>
    cases done
    exact ⟨_, _, rfl⟩
  | cons i rest ih =>
    unfold installLoop at done
    rw [bind_get] at done
    split at done
    · split at done
      · cases done
      · rw [bind_modify] at done
        obtain ⟨frameTable, occupancy, rfl⟩ := ih done
        exact ⟨frameTable, occupancy, rfl⟩
    · exact ih done

section Returned
variable {cur target upage kpage pagedir : Nat} {env : Env} {success : Bool}
  (done : pageInstallToFrame cur target upage kpage pagedir env s = .returned success final)
include done

theorem pageInstallToFrame_returned :
    ∃ frameTable occupancy, final = State.setPage
      { s.setPte (s.threads cur).pagedir upage { present := true, page := kpage, writable := (s.pages target).writable } with
        frameTable := frameTable, occupancy := occupancy }
      target { s.pages target with location := .inFrame, kpage := kpage } := by
  unfold pageInstallToFrame at done
  rw [bind_get] at done
  obtain ⟨installed, middle, framed, rest⟩ := bind_returned.mp done
  obtain ⟨mapped, after, paged, filled⟩ := bind_returned.mp framed
  rcases installPage_cases (s := s) cur upage kpage (s.pages target).writable env.pageTable with
    ⟨maps, _⟩ | refused | failed
  · cases maps.symm.trans paged
    obtain ⟨_, last, looped, returned⟩ := bind_returned.mp filled
    cases returned
    cases rest
    obtain ⟨frameTable, occupancy, rfl⟩ := installLoop_returned looped
    exact ⟨frameTable, occupancy, rfl⟩
  · -- a refusal ends the process
    cases refused.symm.trans paged
    cases filled
    cases rest
  · cases failed.symm.trans paged

theorem pageInstallToFrame_maps :
    final.translate cur upage = { present := true, page := kpage, writable := (s.pages target).writable } := by
  obtain ⟨_, _, rfl⟩ := pageInstallToFrame_returned done
  exact (State.pte_setPte ..).trans (if_pos ⟨rfl, rfl⟩)

end Returned

end Pintos.Vm
