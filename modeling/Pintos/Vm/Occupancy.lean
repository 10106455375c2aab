import Mathlib.Data.Finset.Card
import Mathlib.Order.Interval.Finset.Nat
import Pintos.Vm.Agreement

/-! `occupancy` counts the frames in use, so `frame_find_empty` always has an answer.

A page-in that fails frees a frame that was never installed and so makes the
counter too small by one. Without such page-ins the counter is exact, a free
frame is found whenever there is one, and otherwise the clock finds a victim
within one round.
-/

set_option autoImplicit false

namespace Pintos.Vm
open Semantics Computation

variable {s m final : State} {move : Move} {event : Event} {debt : Nat}

def State.inUse (s : State) : Finset Nat := (Finset.range totalPages).filter fun i => (s.frameTable i).upage ≠ 0

def Counted (s : State) : Prop := s.occupancy = s.inUse.card

/-- `occupancy` is too small by the number of page-ins that failed. -/
def Owing (debt : Nat) (s : State) : Prop := s.occupancy + debt = s.inUse.card

theorem counted_iff : Counted s ↔ Owing 0 s := by
  unfold Counted Owing
  omega

variable {i : Nat} {after : State}

theorem mem_inUse : i ∈ s.inUse ↔ i < totalPages ∧ (s.frameTable i).upage ≠ 0 := by
  simp [State.inUse]

/-! ## The counter over every move -/

section
variable (owing : Owing debt s)
include owing

theorem Owing.of_eq (frameTable : after.frameTable = s.frameTable)
    (occupancy : after.occupancy = s.occupancy) : Owing debt after := by
  unfold Owing State.inUse
  rw [frameTable, occupancy]
  exact owing

theorem Owing.vacate (member : i ∈ s.inUse) (cleared : (after.frameTable i).upage = 0)
    (others : ∀ j, j ≠ i → after.frameTable j = s.frameTable j) (occupancy : after.occupancy = s.occupancy - 1) :
    Owing debt after := by
  have erased : after.inUse = s.inUse.erase i := by
    ext j
    rw [Finset.mem_erase, mem_inUse, mem_inUse]
    by_cases here : j = i
    · subst here
      simp [cleared]
    · rw [others j here]
      simp [here]
  have positive : 0 < s.inUse.card := Finset.card_pos.mpr ⟨i, member⟩
  unfold Owing at owing ⊢
  rw [occupancy, erased, Finset.card_erase_of_mem member]
  omega

theorem Owing.occupy (vacant : s.Vacant i) (filled : (after.frameTable i).upage ≠ 0)
    (others : ∀ j, j ≠ i → after.frameTable j = s.frameTable j) (occupancy : after.occupancy = s.occupancy + 1) :
    Owing debt after := by
  have inserted : after.inUse = insert i s.inUse := by
    ext j
    rw [Finset.mem_insert, mem_inUse, mem_inUse]
    by_cases here : j = i
    · subst here
      simp [filled, vacant.1]
    · rw [others j here]
      simp [here]
  have absent : i ∉ s.inUse := fun member => (mem_inUse.mp member).2 vacant.2
  unfold Owing at owing ⊢
  rw [occupancy, inserted, Finset.card_insert_of_notMem absent]
  omega

theorem Owing.installed {t p : Nat} (fits : Installable s t p i)
    (nonzero : (s.pages p).upage ≠ 0) : Owing debt (s.installed t p i) := by
  refine owing.occupy fits.vacant ?_ (fun j here => installed_frame_other s t p i here) rfl
  rw [installed_frame_self]
  exact nonzero

theorem Owing.pageOut (backed : Backed s) {slot : Nat}
    (range : s.clockPointer < totalPages) (given : (s.frameTable s.clockPointer).pagedir ≠ 0) :
    Owing debt (s.pageOut slot) := by
  refine owing.vacate (mem_inUse.mpr ⟨range, backed.pos _ range given⟩) ?_ (fun j here => pageOut_frame_other here) ?_
  · rw [pageOut_frame_self]
  · rw [pageOut_eq]

theorem Owing.clear (backed : Backed s) (frames : Frames s) {t p : Nat} (owned : s.Owns t p)
    (pagedir : (s.pages p).pagedir ≠ 0) : Owing debt (s.clearPage p) := by
  rw [clearPage_eq]
  by_cases located : (s.pages p).location = .inFrame
  swap
  · rw [if_neg located]
    exact owing
  rw [if_pos located]
  by_cases given : (s.pages p).kpage = 0
  · have none : s.frameFree (s.pages p).kpage = s :=
      frameFree_of_no_frame fun i bound => given ▸ frames.kpage_pos i bound
    exact owing.of_eq (by rw [none]) (by rw [none])
  · obtain ⟨i, bound, entry⟩ := backed.back owned located given
    have freed : s.frameFree (s.pages p).kpage = s.released i := by
      have released := frameFree_of_frame frames bound
      rw [entry] at released
      exact released
    have member : i ∈ s.inUse := mem_inUse.mpr ⟨bound, backed.pos i bound (by rw [entry]; exact pagedir)⟩
    refine owing.vacate member ?_ (fun j here => ?_) ?_
    · simp only [freed]
      simp [State.released]
    · simp only [freed]
      exact Function.update_of_ne here _ _
    · simp only [freed]
      rfl

theorem Owing.act (sound : Sound s) (backed : Backed s) (fits : move.Fits s)
    (elsewhere : ¬move.AtNull s) (matched : ∀ i, move ≠ .unmatched i) : Owing debt (s.act move) := by
  cases move with
  | glance | fill | store | ending | drop | enter => exact owing.of_eq rfl rfl
  | pageOut slot => exact owing.pageOut backed fits.1.2 fits.2.1
  | fileIn t p i bytes =>
    have filled : Owing debt (s.setRam (s.frameTable i).kpage bytes) := owing.of_eq rfl rfl
    exact filled.installed fits.1.filled elsewhere
  | swapIn t p i =>
    have fetched : Owing debt (s.fetched p i .cleared) := owing.of_eq rfl rfl
    refine fetched.installed fits.1.fetched ?_
    rw [(SameTables.fetched s p i .cleared).upage]
    exact elsewhere
  | growIn t upage i =>
    obtain ⟨buildable, running, vacant, absent, unmapped⟩ := fits
    have built : Owing debt (s.built t (stackEntry upage (s.threads t).pagedir .cleared)) :=
      owing.of_eq (built_frameTable _ _ _) (by rw [built_eq])
    refine built.installed (buildable.installable sound.tables running vacant absent unmapped) ?_
    rw [built_new]
    exact elsewhere
  | unmatched i => exact absurd rfl (matched i)
  | build t page => exact owing.of_eq (built_frameTable _ _ _) (by rw [State.act, built_eq])
  | clear p =>
    obtain ⟨t, _, owned⟩ := fits
    refine owing.clear backed sound.frames owned ?_
    rw [sound.tables.pagedir owned]
    exact sound.tables.directory owned
  | leave t => exact owing.of_eq (by rw [State.act, left_eq]) (by rw [State.act, left_eq])
  | spawn t pagedir =>
    have eq := spawn_eq s t fits.2.1
    exact owing.of_eq (by rw [State.act, eq]) (by rw [State.act, eq])
  | stillborn t => exact owing.of_eq (by rw [State.act, stillborn_eq]) (by rw [State.act, stillborn_eq])

theorem Owing.released (vacant : s.Vacant i) : Owing (debt + 1) (s.released i) := by
  have same : (s.released i).inUse = s.inUse := by
    ext j
    rw [mem_inUse, mem_inUse]
    by_cases here : j = i
    · subst here
      simp [State.released, vacant.2]
    · simp [State.released, here]
  have occupancy : (s.released i).occupancy = s.occupancy - 1 := rfl
  unfold Owing at owing ⊢
  rw [same, occupancy]
  omega

end

theorem Counted.of_eq (counted : Counted s) (frameTable : after.frameTable = s.frameTable)
    (occupancy : after.occupancy = s.occupancy) : Counted after :=
  counted_iff.mpr ((counted_iff.mp counted).of_eq frameTable occupancy)

theorem Counted.act (counted : Counted s) (sound : Sound s) (backed : Backed s) (fits : move.Fits s)
    (elsewhere : ¬move.AtNull s) (matched : ∀ i, move ≠ .unmatched i) : Counted (s.act move) :=
  counted_iff.mpr ((counted_iff.mp counted).act sound backed fits elsewhere matched)

theorem Boot.counted (boot : Boot s) : Counted s := by
  have none : s.inUse = ∅ := by
    refine Finset.eq_empty_of_forall_notMem fun i member => ?_
    obtain ⟨bound, used⟩ := mem_inUse.mp member
    rw [boot.frame i bound] at used
    exact used rfl
  unfold Counted
  rw [none, boot.occupancy]
  rfl

/-! ## The clock finds a victim -/

def State.accessedFrames (s : State) : Finset Nat :=
  (Finset.Ico firstEvictable totalPages).filter fun i =>
    (s.pte (s.frameTable i).pagedir (s.frameTable i).upage).accessed = true

theorem setAccessed_false (s : State) {pd : Nat} (vpage : Nat) (directory : pd ≠ 0) :
    ∃ after, pagedirSetAccessed pd vpage false s = .returned () after ∧ after.frameTable = s.frameTable ∧
      after.clockPointer = s.clockPointer ∧
      ∀ other va, (after.pte other va).accessed =
        if other = pd ∧ pgNo va = pgNo vpage then false else (s.pte other va).accessed := by
  unfold pagedirSetAccessed lookupPage
  simp only [bind_apply, bne_iff_ne.mpr directory, assert_true, modify_apply]
  refine ⟨_, rfl, ?_⟩
  split <;> rename_i table
  · refine ⟨rfl, rfl, fun other va => ?_⟩
    rw [State.pte_setPte]
    split <;> rfl
  · refine ⟨rfl, rfl, fun other va => ?_⟩
    split <;> rename_i here
    · -- Without a page table the entry reads as zero.
      obtain ⟨rfl, sameNo⟩ := here
      have entry : s.pte other va = s.pte other vpage := Pagedir.pte_eq_of_pgNo _ sameNo
      have missing : (s.pagedirs other).table (pdNo vpage) = none := by simpa using table
      rw [entry, State.pte, Pagedir.pte, missing]
      rfl
    · rfl

/-- With a directory in every evictable entry, each look stops or leaves fewer accessed frames. -/
theorem evictSelect_stops {fuel : Nat} (range : firstEvictable ≤ s.clockPointer ∧ s.clockPointer < totalPages)
    (given : ∀ i, firstEvictable ≤ i → i < totalPages → (s.frameTable i).pagedir ≠ 0)
    (enough : s.accessedFrames.card < fuel) : ∃ stop, evictSelect fuel s = .returned () stop := by
  induction fuel generalizing s with
  | zero => exact absurd enough (Nat.not_lt_zero _)
  | succ fuel ih =>
    have directory := given _ range.1 range.2
    have looked : pagedirIsAccessed (s.frameTable s.clockPointer).pagedir (s.frameTable s.clockPointer).upage s =
        .returned (s.pte (s.frameTable s.clockPointer).pagedir (s.frameTable s.clockPointer).upage).accessed s := by
      rw [pagedirIsAccessed_apply, if_neg directory]
    rw [evictSelect, bind_get, bind_of_returned looked]
    cases accessed : (s.pte (s.frameTable s.clockPointer).pagedir (s.frameTable s.clockPointer).upage).accessed with
    | false => exact ⟨s, rfl⟩
    | true =>
      obtain ⟨after, cleared, frameTable, clock, bits⟩ :=
        setAccessed_false s (s.frameTable s.clockPointer).upage directory
      rw [if_pos rfl, bind_of_returned cleared, bind_modify]
      have table : after.advanceClock.frameTable = s.frameTable := frameTable
      refine ih (advanceClock_range (clock.symm ▸ range)) ?_ ?_
      · rw [table]
        exact given
      · have here : s.clockPointer ∈ s.accessedFrames := by
          simp [State.accessedFrames, range, accessed]
        have fewer : after.advanceClock.accessedFrames ⊆ s.accessedFrames.erase s.clockPointer := by
          intro i member
          simp only [State.accessedFrames, Finset.mem_filter, Finset.mem_Ico, table] at member
          obtain ⟨inside, bit⟩ := member
          have bit' := bits (s.frameTable i).pagedir (s.frameTable i).upage
          rw [show (after.pte _ _).accessed = true from bit] at bit'
          split at bit' <;> rename_i same
          · cases bit'
          · refine Finset.mem_erase.mpr ⟨fun equal => same ?_, ?_⟩
            · rw [equal]
              exact ⟨rfl, rfl⟩
            · simp [State.accessedFrames, inside, ← bit']
        have smaller := Finset.card_le_card fewer
        rw [Finset.card_erase_of_mem here] at smaller
        have positive := Finset.card_pos.mpr ⟨_, here⟩
        omega

theorem accessedFrames_card (s : State) : s.accessedFrames.card < evictFuel := by
  have bound := Finset.card_filter_le (Finset.Ico firstEvictable totalPages) fun i =>
    (s.pte (s.frameTable i).pagedir (s.frameTable i).upage).accessed = true
  rw [Nat.card_Ico] at bound
  exact Nat.lt_of_le_of_lt bound (by decide)

/-- With every frame in use, `frame_evict` gives the frame of its victim, or finds no slot for its page. -/
theorem frameEvict_full (sound : Sound s) (full : ∀ i < totalPages, (s.frameTable i).upage ≠ 0) :
    ∃ i < totalPages, ∃ final, frameEvict s =
      if s.freeSlot.isSome = true then .returned (s.frameTable i).kpage final else .stopped .panic final := by
  have given : ∀ i, firstEvictable ≤ i → i < totalPages → (s.frameTable i).pagedir ≠ 0 :=
    fun i _ bound none => full i bound (sound.resident.unused i bound none)
  obtain ⟨stop, selected⟩ := evictSelect_stops sound.frames.clock given (accessedFrames_card s)
  obtain ⟨glanced, range, directory⟩ := evictSelect_returned sound.frames.clock selected
  have table := glanced.frameTable
  have sameSlot : stop.freeSlot = s.freeSlot := by
    unfold State.freeSlot
    rw [glanced.slots, glanced.freeBitmap]
  rw [table] at directory
  obtain ⟨owner, victim⟩ := sound.resident.entry _ range.2 directory
  have valid : pgOfs (stop.frameTable stop.clockPointer).upage = 0 ∧
      (stop.frameTable stop.clockPointer).upage < physBase ∧ (stop.frameTable stop.clockPointer).pagedir ≠ 0 := by
    rw [table, ← victim.upage]
    exact ⟨sound.tables.aligned victim.owned, sound.tables.user victim.owned, directory⟩
  refine ⟨stop.clockPointer, range.2, ?_⟩
  rw [frameEvict_of_select selected, if_pos valid, sameSlot, table]
  cases s.freeSlot with
  | some slot => exact ⟨stop.pageOut slot, rfl⟩
  | none => exact ⟨_, rfl⟩

/-- As long as the counter says so, a free frame is looked for and found. -/
theorem finds_free (below : s.occupancy < totalPages) (vacant : s.Vacant i) :
    ∃ j < totalPages, (s.frameTable j).upage = 0 ∧ frameFindEmpty s = .returned (s.frameTable j).kpage s := by
  unfold frameFindEmpty
  rw [bind_get, if_pos below]
  cases found : s.firstFree with
  | none => exact absurd vacant.2 (firstFree_none found i vacant.1)
  | some j =>
    obtain ⟨bound, isFree, _⟩ := firstFree_spec found
    exact ⟨j, bound, isFree, rfl⟩

/-! ## Every run without failed page-ins -/

def Event.Counts (s : State) (event : Event) : Prop := event.Regular s ∧ ¬event.Fails s

instance (s : State) (event : Event) : Decidable (event.Counts s) := inferInstanceAs (Decidable (_ ∧ ¬_))

theorem Owing.path {failing : Prop} (owing : Owing debt m) (sound : Sound m) (backed : Backed m)
    (elsewhere : ¬event.MapsNull s) (matched : ¬failing) (path : Path s event failing m final) : Owing debt final := by
  refine (path.keeps (fun here => Sound here ∧ Backed here ∧ Owing debt here) (fun here next before allowed => ?_)
    ⟨sound, backed, owing⟩).2.2
  obtain ⟨soundHere, backedHere, owingHere⟩ := before
  have notNull : ¬next.AtNull here := fun null => elsewhere (allowed.null null)
  exact ⟨soundHere.act allowed.fits, backedHere.act soundHere allowed.fits notNull,
    owingHere.act soundHere backedHere allowed.fits notNull fun i is => matched (allowed.unmatched i is)⟩

theorem counted_of_step (sound : Sound s) (backed : Backed s) (counted : Counted s) (counts : event.Counts s)
    (taken : step s event = some final) : Counted final :=
  counted_iff.mpr ((counted_iff.mp counted).path sound backed counts.1.2 counts.2 (step_path sound counts.1.1 taken))

theorem counted_run {events : List Event} (boot : Boot s) (along : Along step Event.Counts s events)
    (reached : run step s events = some final) : Sound final ∧ Counted final := by
  have kept := invariant_of_run step (fun state => Sound state ∧ Backed state ∧ Counted state)
    (fun state event next before counts taken => ?_) ⟨boot.sound, boot.backed, boot.counted⟩ along reached
  · exact ⟨kept.1, kept.2.2⟩
  · obtain ⟨sound, backed, counted⟩ := before
    exact ⟨sound.step counts.1.1 taken, backed_of_step sound backed counts.1 taken,
      counted_of_step sound backed counted counts taken⟩

theorem Owing.below_total (owing : Owing debt s) (vacant : s.Vacant i) : s.occupancy < totalPages := by
  have subset : s.inUse ⊂ Finset.range totalPages := by
    refine Finset.ssubset_iff_subset_ne.mpr ⟨Finset.filter_subset _ _, fun same => ?_⟩
    have member : i ∈ s.inUse := by
      rw [same]
      exact Finset.mem_range.mpr vacant.1
    exact (mem_inUse.mp member).2 vacant.2
  have less := Finset.card_lt_card subset
  rw [Finset.card_range] at less
  unfold Owing at owing
  omega

theorem Counted.total (counted : Counted s) (full : ∀ i < totalPages, (s.frameTable i).upage ≠ 0) :
    ¬s.occupancy < totalPages := by
  have all : s.inUse = Finset.range totalPages := by
    refine Finset.filter_true_of_mem fun i inside => ?_
    exact full i (Finset.mem_range.mp inside)
  unfold Counted at counted
  rw [all, Finset.card_range] at counted
  omega

/-- What `frame_find_empty` does in a state whose counter is exact. -/
structure FindsFrame (s : State) : Prop where
  never_null : ∀ kpage after, frameFindEmpty s = .returned kpage after → kpage ≠ 0
  free : (∃ i < totalPages, (s.frameTable i).upage = 0) →
    ∃ i < totalPages, (s.frameTable i).upage = 0 ∧ frameFindEmpty s = .returned (s.frameTable i).kpage s
  evicts : (∀ i < totalPages, (s.frameTable i).upage ≠ 0) → frameFindEmpty s = frameEvict s ∧
    (s.freeSlot.isSome = true → ∃ i < totalPages, ∃ after, frameEvict s = .returned (s.frameTable i).kpage after)

theorem Counted.findsFrame (counted : Counted s) (sound : Sound s) : FindsFrame s := by
  have evicts : (∀ i < totalPages, (s.frameTable i).upage ≠ 0) → frameFindEmpty s = frameEvict s := by
    intro full
    unfold frameFindEmpty
    rw [bind_get, if_neg (counted.total full)]
  constructor
  case free =>
    rintro ⟨i, bound, isFree⟩
    exact finds_free ((counted_iff.mp counted).below_total ⟨bound, isFree⟩) ⟨bound, isFree⟩
  case evicts =>
    intro full
    refine ⟨evicts full, fun available => ?_⟩
    obtain ⟨i, bound, after, evicted⟩ := frameEvict_full sound full
    rw [if_pos available] at evicted
    exact ⟨i, bound, after, evicted⟩
  case never_null =>
    intro kpage after done
    cases frameFindEmpty_returned sound.frames done with
    | nothing full =>
      -- With no vacant entry the counter sends it to `frame_evict`, whose frame is real.
      rw [evicts full] at done
      obtain ⟨stop, slot, evicted⟩ := frameEvict_returned sound.frames done
      have zero := evicted.kpage
      rw [evicted.glanced.frameTable] at zero
      exact absurd zero.symm (sound.frames.kpage_pos _ evicted.range.2)
    | free i bound _ => exact sound.frames.kpage_pos i bound
    | evicted evicted =>
      rw [evicted.kpage, evicted.glanced.frameTable]
      exact sound.frames.kpage_pos _ evicted.range.2

/-- In every run without a failed page-in and without a page at address 0, `occupancy` is the
number of entries in use and `frame_find_empty` finds a frame. -/
theorem occupancy_exact {events : List Event} (boot : Boot s) (along : Along step Event.Counts s events)
    (reached : run step s events = some final) :
    final.occupancy = ((Finset.range totalPages).filter fun i => (final.frameTable i).upage ≠ 0).card ∧
      FindsFrame final := by
  obtain ⟨sound, counted⟩ := counted_run boot along reached
  exact ⟨counted, counted.findsFrame sound⟩

theorem occupancy_exact_demoRun :
    ∃ final, run step (bootState 4096) demoRun = some final ∧
      final.occupancy = ((Finset.range totalPages).filter fun i => (final.frameTable i).upage ≠ 0).card := by
  have enabled : (run step (bootState 4096) demoRun).isSome = true := by decide +kernel
  obtain ⟨final, reached⟩ := Option.isSome_iff_exists.mp enabled
  exact ⟨final, reached, (occupancy_exact (bootState_boot 4096) (by decide +kernel) reached).1⟩

/-- One page-in from an executable that is too short frees a frame that was never installed. -/
theorem short_read_miscounts :
    ∃ final, run step (bootState 100) [.load 1 demoImage {}, .fault 1 0x08048000 (physBase - 16) true false {}] =
        some final ∧
      final.occupancy ≠ ((Finset.range totalPages).filter fun i => (final.frameTable i).upage ≠ 0).card := by
  have checked : (run step (bootState 100) [.load 1 demoImage {},
      .fault 1 0x08048000 (physBase - 16) true false {}]).any (fun final =>
        final.occupancy = 0 ∧ (final.frameTable 0).upage ≠ 0) = true := by
    decide +kernel
  obtain ⟨final, reached, facts⟩ := (Option.any_eq_true _ _).mp checked
  obtain ⟨zero, used⟩ := of_decide_eq_true facts
  refine ⟨final, reached, fun exact' => ?_⟩
  have member : 0 ∈ (Finset.range totalPages).filter fun i => (final.frameTable i).upage ≠ 0 :=
    Finset.mem_filter.mpr ⟨Finset.mem_range.mpr (by decide), used⟩
  have positive := Finset.card_pos.mpr ⟨0, member⟩
  omega

end Pintos.Vm
