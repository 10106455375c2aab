import Mathlib.Data.Set.Card
import Pintos.Vm.Progress

/-! `free_bitmap` and the swapped-out pages of live processes.

A slot is used exactly while a page of a live process is in it, as long as no
process exits with pages in swap: `page_clear_all` frees frames, not slots.
-/

set_option autoImplicit false

namespace Pintos.Vm
open Semantics Computation

variable {s m final : State} {move : Move} {event : Event}

def Accounted (s : State) : Prop := ∀ slot, s.freeBitmap slot = true → ∃ t p, HasSlot s t p slot

/-! ## Used slots over every move -/

variable {after : State} {t p slot : Nat}

theorem Accounted.of_kept (accounted : Accounted s)
    (bits : ∀ slot, after.freeBitmap slot = true → s.freeBitmap slot = true)
    (kept : ∀ {t p slot}, HasSlot s t p slot → after.freeBitmap slot = true → HasSlot after t p slot) :
    Accounted after := by
  intro slot used
  obtain ⟨t, p, has⟩ := accounted slot (bits slot used)
  exact ⟨t, p, kept has used⟩

theorem HasSlot.of_same (has : HasSlot s t p slot) (owned : after.Owns t p) (page : after.pages p = s.pages p) :
    HasSlot after t p slot :=
  ⟨owned, by rw [page]; exact has.located, by rw [page]; exact has.sector⟩

section
variable (accounted : Accounted s)
include accounted

theorem Accounted.of_eq (spt : ∀ t, (after.threads t).spt = (s.threads t).spt)
    (pages : after.pages = s.pages) (bits : after.freeBitmap = s.freeBitmap) : Accounted after := by
  refine accounted.of_kept (fun slot used => bits ▸ used) (fun {t p slot} has _ => has.of_same ?_ (by rw [pages]))
  unfold State.Owns
  rw [spt]
  exact has.owned

theorem Accounted.pageOut (sound : Sound s)
    (given : (s.frameTable s.clockPointer).pagedir ≠ 0) : Accounted (s.pageOut slot) := by
  obtain ⟨owner, victim⟩ := sound.resident.entry _ sound.frames.clock.2 given
  intro other used
  rw [pageOut_freeBitmap] at used
  by_cases isNew : other = slot
  · subst isNew
    refine ⟨owner, _, owns_pageOut.mpr victim.owned, ?_, ?_⟩ <;> rw [pageOut_page_self]
  · rw [Function.update_of_ne isNew] at used
    obtain ⟨t, p, has⟩ := accounted other used
    have different : p ≠ (s.frameTable s.clockPointer).pagePointer := by
      rintro rfl
      exact absurd (victim.located.symm.trans has.located) (by decide)
    exact ⟨t, p, has.of_same (owns_pageOut.mpr has.owned) (pageOut_page_other different)⟩

theorem Accounted.slotFreed (has : HasSlot s t p slot) (location : Location) : Accounted (s.slotFreed p location) := by
  refine accounted.of_kept (fun other used => ?_) (fun {u q other} hasOther used => ?_)
  · rw [has.slotFreed_bits] at used
    by_cases same : other = slot
    · subst same
      simp at used
    · rw [Function.update_of_ne same] at used
      exact used
  · have different : q ≠ p := by
      rintro rfl
      have same : other = slot := by
        have sectors := hasOther.sector.symm.trans has.sector
        omega
      rw [has.slotFreed_bits, same, Function.update_self] at used
      cases used
    exact hasOther.of_same ((SameTables.slotFreed s p location).owns.mpr hasOther.owned)
      (slotFreed_page_other s p location different)

theorem Accounted.installed {i : Nat} (outside : (s.pages p).location ≠ .inSwap) : Accounted (s.installed t p i) := by
  refine accounted.of_kept (fun _ used => used) (fun {u q slot} has _ => ?_)
  have different : q ≠ p := fun same => outside (same ▸ has.located)
  exact has.of_same ((SameTables.installed s t p i).owns.mpr has.owned) (installed_page_other s t p i different)

theorem Accounted.built (tables : Tables s) (t : Nat) (page : Page) : Accounted (s.built t page) := by
  have bits : (s.built t page).freeBitmap = s.freeBitmap := by rw [built_eq]
  refine accounted.of_kept (fun slot used => bits ▸ used) (fun {u q slot} has _ => ?_)
  exact has.of_same ((owns_built tables t page u q).mpr (Or.inl has.owned)) (built_old tables t page has.owned)

theorem Accounted.clear (p : Nat) : Accounted (s.clearPage p) := by
  rw [clearPage_eq]
  split <;> rename_i located
  · refine accounted.of_kept (fun _ used => used) (fun {t q slot} has _ => has.of_same has.owned ?_)
    have different : q ≠ p := by
      rintro rfl
      exact absurd (located.symm.trans has.located) (by decide)
    exact Function.update_of_ne different _ _
  · exact accounted

end

theorem Replaced.accounted {value : Thread} (replaced : Replaced s after t value) (accounted : Accounted s)
    (bits : after.freeBitmap = s.freeBitmap) (none : ∀ p slot, ¬HasSlot s t p slot) :
    Accounted after := by
  refine accounted.of_kept (fun slot used => bits ▸ used) (fun {u q slot} has _ => ?_)
  have different : u ≠ t := by
    rintro rfl
    exact none q slot has
  exact has.of_same (replaced.owns.mpr ⟨different, has.owned⟩) (by rw [replaced.pages])

/-- Every move but the last one of a process's exit keeps used slots accounted for; that
one does when the process has no page in swap. -/
theorem Accounted.act (accounted : Accounted s) (sound : Sound s) (fits : move.Fits s)
    (leaves : ∀ t, move = .leave t → ∀ p slot, ¬HasSlot s t p slot) : Accounted (s.act move) := by
  cases move with
  | glance | fill | store | unmatched => exact accounted.of_eq (fun _ => rfl) rfl rfl
  | pageOut slot => exact accounted.pageOut sound fits.2.1
  | fileIn t p i bytes =>
    have filled : Accounted (s.setRam (s.frameTable i).kpage bytes) := accounted.of_eq (fun _ => rfl) rfl rfl
    refine filled.installed ?_
    rw [State.setRam_pages, fits.2.1]
    decide
  | swapIn t p i =>
    obtain ⟨slot, has⟩ := sound.slots.hasSlot fits.1.running fits.1.owned fits.2
    have filled : ∀ bytes, Accounted (s.setRam (s.frameTable i).kpage bytes) :=
      fun _ => accounted.of_eq (fun _ => rfl) rfl rfl
    have fetched : Accounted (s.fetched p i .cleared) := (filled _).slotFreed has.filled .cleared
    refine fetched.installed ?_
    rw [State.fetched, slotFreed_page_self]
    simp
  | growIn t upage i =>
    refine (accounted.built sound.tables t _).installed ?_
    rw [built_new]
    exact fits.1.slot
  | ending t status => exact accounted.of_eq (SameTables.ending fits status).spt rfl rfl
  | drop p =>
    obtain ⟨t, _, owned, located, given⟩ := fits
    rcases sound.slots.placed owned located with ⟨slot, has⟩ | ⟨none, _⟩
    · exact accounted.slotFreed has .inSwap
    · exact absurd none given
  | build t page => exact accounted.built sound.tables t page
  | clear p => exact accounted.clear p
  | leave t => exact (replaced_left s t).accounted accounted (by rw [left_eq]) (leaves t rfl)
  | spawn t pagedir =>
    exact (replaced_spawn s t fits.2.1).accounted accounted (by rw [spawn_eq s t fits.2.1])
      fun p slot has => sound.tables.not_unborn has.owned fits.1
  | stillborn t =>
    exact (replaced_stillborn s t).accounted accounted (by rw [stillborn_eq])
      fun p slot has => sound.tables.not_unborn has.owned fits
  | enter t esp =>
    have same : SameTables s (s.setThread t { s.threads t with esp := esp }) :=
      .setThread rfl rfl Iff.rfl fun run => run
    exact accounted.of_eq same.spt rfl rfl

/-! ## Exits -/

theorem hasSlot_of_clear {q : Nat} (has : HasSlot (s.clearPage p) t q slot) : HasSlot s t q slot := by
  rw [clearPage_eq] at has
  split at has <;> rename_i located
  · have different : q ≠ p := by
      rintro rfl
      have cleared := has.located
      simp at cleared
    have same : (s.setPage p { s.pages p with kpage := 0, location := .cleared }).pages q = s.pages q :=
      Function.update_of_ne different _ _
    exact ⟨has.owned, same ▸ has.located, same ▸ has.sector⟩
  · exact has

theorem hasSlot_of_clears {q : Nat} {list : List Nat} (has : HasSlot (list.foldl State.clearPage s) t q slot) :
    HasSlot s t q slot := by
  induction list generalizing s with
  | nil => exact has
  | cons p rest ih => exact hasSlot_of_clear (ih has)

theorem Accounted.clears (accounted : Accounted s) (list : List Nat) :
    Accounted (list.foldl State.clearPage s) := by
  induction list generalizing s with
  | nil => exact accounted
  | cons p rest ih => exact ih (accounted.clear p)

theorem Accounted.exit (accounted : Accounted s) (live : (s.threads t).live) (none : ∀ p slot, ¬HasSlot s t p slot) :
    Accounted (s.threadExit t) := by
  have same := SameTables.ending live (s.threads t).exitStatus
  have ended : Accounted (s.ending t (s.threads t).exitStatus) := accounted.of_eq same.spt rfl rfl
  rw [← threadExit_ending]
  refine (replaced_left _ t).accounted (ended.clears _) (by rw [left_eq]) fun p slot has => ?_
  have before := hasSlot_of_clears has
  exact none p slot ⟨same.owns.mp before.owned, before.located, before.sector⟩

/-! ## Every run -/

/-- A process that exits has no page in swap. -/
def Event.KeepsSlots (s : State) (event : Event) : Prop :=
  event.ClearOfStack ∧ match event with
    | .exit t => ∀ p ∈ (s.threads t).spt, (s.pages p).location = .inSwap → (s.pages p).swapLocation = noSlot
    | _ => True

instance (s : State) (event : Event) : Decidable (event.KeepsSlots s) :=
  match event with
  | .exit t => inferInstanceAs (Decidable (_ ∧ ∀ p ∈ (s.threads t).spt, _ → _))
  | .load .. | .enter .. | .fault .. | .read .. | .write .. => inferInstanceAs (Decidable (_ ∧ True))

theorem accounted_of_step (sound : Sound s) (accounted : Accounted s) (keeps : event.KeepsSlots s)
    (taken : step s event = some final) : Accounted final := by
  by_cases exits : ∃ t, event = .exit t
  · obtain ⟨t, rfl⟩ := exits
    simp only [step] at taken
    split at taken <;> rename_i live
    · cases taken
      refine accounted.exit live fun p slot has => noSlot_ne slot ?_
      rw [← has.sector]
      exact keeps.2 p has.owned has.located
    · cases taken
  · have path := step_path sound keeps.1 taken
    refine (path.keeps (fun here => Sound here ∧ Accounted here) (fun here next before allowed => ?_)
      ⟨sound, accounted⟩).2
    refine ⟨before.1.act allowed.fits, before.2.act before.1 allowed.fits fun t leaves => ?_⟩
    exact absurd ⟨t, allowed.leave t leaves⟩ exits

theorem accounted_run {events : List Event} (boot : Boot s) (along : Along step Event.KeepsSlots s events)
    (reached : run step s events = some final) : Sound final ∧ Accounted final := by
  have start : Accounted s := fun slot used => by rw [boot.slots] at used; cases used
  refine invariant_of_run step (fun state => Sound state ∧ Accounted state) ?_ ⟨boot.sound, start⟩ along reached
  intro state event next before keeps taken
  exact ⟨before.1.step keeps.1 taken, accounted_of_step before.1 before.2 keeps taken⟩

/-- The page of a live process that is in the slot. -/
def State.inSlot (s : State) (slot p : Nat) : Prop :=
  ∃ t, (s.threads t).live ∧ s.Owns t p ∧ (s.pages p).location = .inSwap ∧ (s.pages p).swapLocation = slot * 8

def State.swappedOut (s : State) : Set Nat := { p | ∃ slot, s.inSlot slot p }

def State.usedSlots (s : State) : Set Nat := { slot | slot < s.slots ∧ s.freeBitmap slot = true }

theorem inSlot_iff (tables : Tables s) : s.inSlot slot p ↔ ∃ t, HasSlot s t p slot := by
  constructor
  · rintro ⟨t, _, owned, located, sector⟩
    exact ⟨t, owned, located, sector⟩
  · rintro ⟨t, has⟩
    exact ⟨t, tables.live has.owned, has.owned, has.located, has.sector⟩

structure SlotsExact (s : State) : Prop where
  bits : ∀ slot < s.slots, s.freeBitmap slot = true ↔ ∃! p, s.inSlot slot p
  count : s.usedSlots.ncard = s.swappedOut.ncard
  distinct : ∀ p q slot, s.inSlot slot p → s.inSlot slot q → p = q
  free : s.swappedOut.ncard < s.slots → ∃ slot < s.slots, s.freeBitmap slot = false ∧
    swapGetFree s = .returned (slot * 8) (s.setSlot slot true)

theorem Accounted.exact (accounted : Accounted s) (sound : Sound s) : SlotsExact s := by
  have distinct : ∀ p q slot, s.inSlot slot p → s.inSlot slot q → p = q := by
    intro p q slot first second
    obtain ⟨t, hasP⟩ := (inSlot_iff sound.tables).mp first
    obtain ⟨u, hasQ⟩ := (inSlot_iff sound.tables).mp second
    exact sound.slots.exclusive hasP hasQ
  have bits : ∀ slot < s.slots, s.freeBitmap slot = true ↔ ∃! p, s.inSlot slot p := by
    intro slot bound
    constructor
    · intro used
      obtain ⟨t, p, has⟩ := accounted slot used
      have there := (inSlot_iff sound.tables).mpr ⟨t, has⟩
      exact ⟨p, there, fun q other => distinct q p slot other there⟩
    · rintro ⟨p, there, _⟩
      obtain ⟨t, has⟩ := (inSlot_iff sound.tables).mp there
      exact (sound.slots.used has).2
  have count : s.usedSlots.ncard = s.swappedOut.ncard := by
    -- The slot of a page determines the page.
    have sector : ∀ {slot p}, s.inSlot slot p → (s.pages p).swapLocation / 8 = slot := by
      rintro slot p ⟨_, _, _, _, isSector⟩
      omega
    have image : (fun p => (s.pages p).swapLocation / 8) '' s.swappedOut = s.usedSlots := by
      ext slot
      constructor
      · rintro ⟨p, ⟨other, there⟩, rfl⟩
        obtain ⟨t, has⟩ := (inSlot_iff sound.tables).mp there
        simp only [sector there]
        exact sound.slots.used has
      · rintro ⟨bound, used⟩
        obtain ⟨p, there, _⟩ := (bits slot bound).mp used
        exact ⟨p, ⟨slot, there⟩, sector there⟩
    rw [← image]
    apply Set.InjOn.ncard_image
    rintro p ⟨slot, thereP⟩ q ⟨other, thereQ⟩ same
    simp only [sector thereP, sector thereQ] at same
    subst same
    exact distinct p q slot thereP thereQ
  refine ⟨bits, count, distinct, fun fewer => ?_⟩
  cases found : s.freeSlot with
  | none =>
    have all : s.usedSlots = (Finset.range s.slots : Set Nat) := by
      ext slot
      rw [Finset.mem_coe, Finset.mem_range]
      refine ⟨fun used => used.1, fun bound => ⟨bound, ?_⟩⟩
      have taken := List.find?_eq_none.mp found slot (List.mem_range.mpr bound)
      simpa using taken
    rw [← count, all, Set.ncard_coe_finset, Finset.card_range] at fewer
    exact absurd fewer (Nat.lt_irrefl _)
  | some slot =>
    obtain ⟨bound, free⟩ := freeSlot_some found
    refine ⟨slot, bound, free, ?_⟩
    simp [swapGetFree, bind_apply, found]

/-- In every run in which no process exits with a page in swap, used slots and swapped-out pages correspond. -/
theorem swap_slots_exact {events : List Event} (boot : Boot s) (along : Along step Event.KeepsSlots s events)
    (reached : run step s events = some final) : SlotsExact final := by
  obtain ⟨sound, accounted⟩ := accounted_run boot along reached
  exact accounted.exact sound

theorem swap_slots_exact_demoRun :
    ∃ final, run step (bootState 4096) (demoRun ++ [.exit 1]) = some final ∧ SlotsExact final := by
  have enabled : (run step (bootState 4096) (demoRun ++ [.exit 1])).isSome = true := by decide +kernel
  obtain ⟨final, reached⟩ := Option.isSome_iff_exists.mp enabled
  exact ⟨final, reached, swap_slots_exact (bootState_boot 4096) (by decide +kernel) reached⟩

/-! ## A process that exits with a page in swap

The run below fills every frame with pages of one process, so that its next page
evicts one of them, and then lets the process exit.
-/

/-- Process 1 has the machine to itself and `count` frames in use, none of its pages in swap. -/
structure Alone (count : Nat) (s : State) : Prop where
  sound : Sound s
  backed : Backed s
  counted : Counted s
  kernel : KernelFrames s
  running : (s.threads 1).phase = .running
  others : ∀ t, t ≠ 1 → (s.threads t).spt = []
  occupancy : s.occupancy = count
  upage : ∀ p, s.Owns 1 p → (s.pages p).upage = stackPage ∨ (s.pages p).upage ≤ pgSize * count
  free : ∀ slot, s.freeBitmap slot = false
  slots : 0 < s.slots

theorem growIn_rest (tables : Tables s) (t upage i : Nat) :
    (s.act (.growIn t upage i)).freeBitmap = s.freeBitmap ∧ (s.act (.growIn t upage i)).slots = s.slots ∧
      (∀ u, ((s.act (.growIn t upage i)).threads u).phase = (s.threads u).phase) ∧
      ∀ u, u ≠ t → ((s.act (.growIn t upage i)).threads u).spt = (s.threads u).spt := by
  refine ⟨?_, ?_, fun u => ?_, fun u other => ?_⟩
  · simp only [State.act, State.installed, State.occupied]
    rw [built_eq]
    rfl
  · simp only [State.act, State.installed, State.occupied]
    rw [built_eq]
    rfl
  · exact (built_thread tables t _ u).1
  · have spt := (SameTables.installed (s.built t (stackEntry upage (s.threads t).pagedir .cleared)) t s.nextPage i).spt u
    refine spt.trans ?_
    rw [built_threads tables]
    split
    · rw [Function.update_of_ne other]
    · rfl

theorem Sound.of_eq (sound : Sound s) (frameTable : after.frameTable = s.frameTable)
    (clock : after.clockPointer = s.clockPointer) (threads : after.threads = s.threads)
    (pages : after.pages = s.pages) (nextPage : after.nextPage = s.nextPage)
    (directories : after.directories = s.directories) (pagedirs : after.pagedirs = s.pagedirs)
    (bits : after.freeBitmap = s.freeBitmap) (size : after.slots = s.slots) :
    Sound after := by
  have same : SameTables s after := .of_eq threads pages nextPage directories
  exact ⟨sound.frames.of_same (fun i => by rw [frameTable]) (clock ▸ sound.frames.clock), sound.tables.of_same same,
    sound.resident.of_eq_pte frameTable pages threads pagedirs,
    sound.slots.of_same same (fun p located => pages ▸ located) (fun p => by rw [pages]) bits size⟩

/-- The state with the counter raised by the page-ins that failed. -/
def State.credited (s : State) (debt : Nat) : State := { s with occupancy := s.occupancy + debt }

@[simp] theorem credited_zero (s : State) : s.credited 0 = s := by
  simp [State.credited]

theorem sound_credited {debt : Nat} : Sound (s.credited debt) ↔ Sound s :=
  ⟨fun sound => sound.of_eq rfl rfl rfl rfl rfl rfl rfl rfl rfl,
    fun sound => sound.of_eq rfl rfl rfl rfl rfl rfl rfl rfl rfl⟩

theorem fits_credited {debt t upage i : Nat} (fits : Move.Fits s (.growIn t upage i)) :
    Move.Fits (s.credited debt) (.growIn t upage i) := by
  obtain ⟨⟨live, directory, pagedir, aligned, user, kpage, slot, frame, whole⟩, rest⟩ := fits
  exact ⟨⟨live, directory, pagedir, aligned, user, kpage, slot, frame, whole⟩, rest⟩

theorem credited_growIn (s : State) (debt t upage i : Nat) :
    (s.credited debt).act (.growIn t upage i) = (s.act (.growIn t upage i)).credited debt := by
  have built : ∀ page, (s.credited debt).built t page = (s.built t page).credited debt := by
    intro page
    unfold State.built State.pageAdd
    split <;> rename_i found
    · split <;> rename_i other
      · rfl
      · cases found.symm.trans other
    · split <;> rename_i other
      · cases found.symm.trans other
      · rfl
  simp only [State.act]
  rw [built]
  simp only [State.credited, State.installed, State.occupied, State.setPage, State.setPte, State.setFrame]
  congr 1
  omega

namespace Alone
variable {count debt : Nat}

theorem setRam (alone : Alone count s) (kpage : Nat) (bytes : Nat → UInt8) : Alone count (s.setRam kpage bytes) := by
  have sound : Sound (s.setRam kpage bytes) := alone.sound.of_eq rfl rfl rfl rfl rfl rfl rfl rfl rfl
  exact ⟨sound, alone.backed.of_eq (fun _ => rfl) rfl rfl, alone.counted.of_eq rfl rfl, alone.kernel, alone.running,
    alone.others, alone.occupancy, alone.upage, alone.free, alone.slots⟩

theorem growIn (alone : Alone count s) {upage i : Nat} (fits : Move.Fits s (.growIn 1 upage i)) (nonzero : upage ≠ 0)
    (low : upage = stackPage ∨ upage ≤ pgSize * (count + 1)) :
    Alone (count + 1) (s.act (.growIn 1 upage i)) := by
  have tables := alone.sound.tables
  have entry := built_new s 1 (stackEntry upage (s.threads 1).pagedir .cleared)
  have same := SameTables.installed (s.built 1 (stackEntry upage (s.threads 1).pagedir .cleared)) 1 s.nextPage i
  obtain ⟨bits, size, phases, spts⟩ := growIn_rest tables 1 upage i
  refine ⟨alone.sound.act fits, alone.backed.act alone.sound fits nonzero,
    alone.counted.act alone.sound alone.backed fits nonzero (by simp), fun j bound => ?_, ?_, fun t other => ?_, ?_,
    fun p owned => ?_, fun slot => ?_, ?_⟩
  · rw [act_kpage]
    exact alone.kernel j bound
  · exact (phases 1).trans alone.running
  · exact (spts t other).trans (alone.others t other)
  · have occupancy := alone.occupancy
    simp only [State.act, State.installed, State.occupied]
    rw [built_eq]
    simp only [State.setPage_occupancy, State.setPte_occupancy]
    omega
  · have kept : ((s.act (.growIn 1 upage i)).pages p).upage = _ := same.upage p
    rw [kept]
    rcases (owns_built tables 1 _ 1 p).mp (same.owns.mp owned) with older | ⟨_, rfl, _⟩
    · rw [built_old tables 1 _ older]
      have before := alone.upage p older
      simp only [pgSize] at before ⊢
      omega
    · rw [entry]
      exact low
  · rw [bits]
    exact alone.free slot
  · rw [size]
    exact alone.slots

theorem page_absent (alone : Alone count s) (room : count ≤ totalPages) :
    pgRoundDown (pgSize * (count + 1)) = pgSize * (count + 1) ∧ pgSize * (count + 1) < physBase ∧
      s.hashFind 1 (pgRoundDown (pgSize * (count + 1))) = none := by
  have round : pgRoundDown (pgSize * (count + 1)) = pgSize * (count + 1) :=
    pgRoundDown_aligned (Nat.mul_mod_right _ _)
  refine ⟨round, ?_, hashFind_of_none fun p owned => ?_⟩
  · simp only [physBase, pgSize, totalPages] at *
    omega
  · rw [round]
    have upage := alone.upage p owned
    simp only [stackPage, physBase, pgSize, totalPages] at *
    omega

theorem finds (alone : Alone count s) (room : count < totalPages) :
    ∃ i < totalPages, (s.frameTable i).upage = 0 ∧ frameFindEmpty s = .returned (s.frameTable i).kpage s := by
  have below : s.occupancy < totalPages := by
    have occupancy := alone.occupancy
    omega
  refine (alone.counted.findsFrame alone.sound).free ?_
  by_contra none
  exact alone.counted.total (fun i bound zero => none ⟨i, bound, zero⟩) below

/-- As long as frames are free, the process can have one more page. -/
theorem next_page (alone : Alone count (s.credited debt)) (room : count < totalPages) :
    ∃ event after, step s event = some after ∧ Alone (count + 1) (after.credited debt) := by
  have sound := sound_credited.mp alone.sound
  obtain ⟨i, bound, free, _⟩ := alone.finds room
  have below : s.occupancy < totalPages := by
    have occupancy : s.occupancy + debt = count := alone.occupancy
    omega
  obtain ⟨j, boundJ, _, found⟩ := finds_free below ⟨bound, free⟩
  obtain ⟨round, user, absent⟩ := alone.page_absent room.le
  obtain ⟨k, _, _, fits, taken⟩ := grow_step sound alone.kernel alone.running
    (by simp only [pgSize]; omega) user absent found (sound.frames.kpage_pos j boundJ)
  refine ⟨_, _, taken, ?_⟩
  rw [← credited_growIn]
  refine alone.growIn (fits_credited fits) ?_ (Or.inr round.le)
  rw [round]
  simp [pgSize]

theorem fill (start : Alone count (s.credited debt)) (more : Nat) (room : count + more ≤ totalPages) :
    ∃ events after, run step s events = some after ∧ Alone (count + more) (after.credited debt) := by
  induction more with
  | zero => exact ⟨[], s, rfl, start⟩
  | succ more ih =>
    obtain ⟨events, middle, reached, alone⟩ := ih (by omega)
    obtain ⟨event, after, taken, grown⟩ := alone.next_page (by omega)
    refine ⟨events ++ [event], after, ?_, grown⟩
    rw [run_append]
    exact ⟨middle, reached, by rw [run_cons_some]; exact ⟨after, taken, rfl⟩⟩

theorem full (alone : Alone totalPages s) : ∀ i < totalPages, (s.frameTable i).upage ≠ 0 := by
  have size : s.inUse.card = totalPages := by
    have counted : s.occupancy = s.inUse.card := alone.counted
    have occupancy := alone.occupancy
    omega
  have all : s.inUse = Finset.range totalPages := by
    refine Finset.eq_of_subset_of_card_le (Finset.filter_subset _ _) ?_
    rw [Finset.card_range, size]
  intro i bound
  have member : i ∈ s.inUse := by
    rw [all]
    exact Finset.mem_range.mpr bound
  exact (mem_inUse.mp member).2

/-- With every frame in use, the next page sends one of the process's pages to swap. -/
theorem evicts (alone : Alone totalPages s) :
    ∃ event after slot, step s event = some after ∧ slot < after.slots ∧ after.freeBitmap slot = true ∧
      (after.threads 1).live ∧ ∀ t, t ≠ 1 → (after.threads t).spt = [] := by
  have available : s.freeSlot.isSome = true := by
    cases found : s.freeSlot with
    | none =>
      have taken := List.find?_eq_none.mp found 0 (List.mem_range.mpr alone.slots)
      simp [alone.free] at taken
    | some slot => rfl
  obtain ⟨same, returns⟩ := (alone.counted.findsFrame alone.sound).evicts alone.full
  obtain ⟨i, bound, m, evicted⟩ := returns available
  obtain ⟨round, user, absent⟩ := alone.page_absent le_rfl
  obtain ⟨j, _, _, fits, taken⟩ := grow_step alone.sound alone.kernel alone.running
    (by simp only [pgSize]; omega) user absent (same.trans evicted) (alone.sound.frames.kpage_pos i bound)
  obtain ⟨stop, slot, did⟩ := frameEvict_returned alone.sound.frames evicted
  have threads : m.threads = s.threads := by
    rw [did.final, pageOut_threads, did.glanced.threads]
  have tables : Tables m := by
    have path : Path s (.fault 1 0 0 true true {}) False s m ∧ _ := find_leads alone.sound (same.trans evicted)
    exact (path.1.sound alone.sound).tables
  obtain ⟨bits, size, phases, spts⟩ := growIn_rest tables 1 (pgRoundDown (pgSize * (totalPages + 1))) j
  refine ⟨_, _, slot, taken, ?_, ?_, ?_, fun t other => ?_⟩
  · rw [size, did.final, pageOut_eq]
    exact (freeSlot_some did.available).1
  · rw [bits, did.final, pageOut_freeBitmap, Function.update_self]
  · exact Or.inl ((phases 1).trans (threads ▸ alone.running))
  · rw [spts t other, threads]
    exact alone.others t other

end Alone

theorem alone_spawned : Alone 0 ((bootState 0).spawn 1 5) := by
  have boot := bootState_boot 0
  have fits : Move.Fits (bootState 0) (.spawn 1 5) := ⟨rfl, by decide, List.not_mem_nil⟩
  have given : (5 : Nat) ≠ 0 := by decide
  have replaced := replaced_spawn (bootState 0) 1 given
  refine ⟨boot.sound.act fits, boot.backed.act boot.sound fits id, boot.counted.act boot.sound boot.backed fits id (by simp),
    fun i bound => ?_, by rw [replaced.self], fun t other => ?_, rfl, fun p owned => ?_, fun slot => rfl, by decide⟩
  · simp only [State.spawn, bootState, pgOfs, pgSize, physBase]
    simp
  · rw [replaced.other other]
    rfl
  · exact absurd rfl (replaced.owns.mp owned).1

theorem Alone.loaded {debt : Nat} (unborn : (s.threads 1).phase = .unborn) (fresh : 5 ∉ s.directories)
    (alone : Alone 0 ((s.spawn 1 5).credited debt)) :
    ∃ event after, step s event = some after ∧ Alone 1 (after.credited debt) := by
  have sound := sound_credited.mp alone.sound
  obtain ⟨i, bound, free, _⟩ := alone.finds (by decide)
  have below : (s.spawn 1 5).occupancy < totalPages := by
    have occupancy : (s.spawn 1 5).occupancy + debt = 0 := alone.occupancy
    simp only [totalPages]
    omega
  obtain ⟨j, boundJ, freeJ, found⟩ := finds_free below ⟨bound, free⟩
  have absent : (s.spawn 1 5).hashFind 1 stackPage = none :=
    hashFind_of_none fun p owned => absurd rfl ((replaced_spawn s 1 (by decide)).owns.mp owned).1
  have started := setupStack_ok sound alone.kernel alone.running absent ⟨boundJ, freeJ⟩ found
    (rfl : (Image.copyPage { demoImage with phdrs := [] }) = true)
  obtain ⟨k, bytes, loaded⟩ : ∃ k bytes, load 1 { demoImage with phdrs := [] } {} (s.spawn 1 5) =
      .returned true (((s.spawn 1 5).act (.growIn 1 stackPage j)).setRam k bytes) := by
    rw [load_of_no_segments 1 {} (by decide) rfl rfl, started]
    exact ⟨_, _, rfl⟩
  have fits := stack_fits sound alone.running (by decide : pgOfs stackPage = 0) (by decide) absent ⟨boundJ, freeJ⟩
  refine ⟨.load 1 { demoImage with phdrs := [] } {}, _, step_load unborn fresh loaded, ?_⟩
  have grown := (alone.growIn (fits_credited fits) (by decide) (Or.inl rfl)).setRam k bytes
  rw [credited_growIn] at grown
  exact grown

theorem threadExit_leaves (s : State) (t : Nat) :
    (s.threadExit t).freeBitmap = s.freeBitmap ∧ (s.threadExit t).slots = s.slots ∧
      ((s.threadExit t).threads t).spt = [] ∧ ∀ u, u ≠ t → (s.threadExit t).threads u = s.threads u := by
  have unfolded : s.threadExit t = ((s.threads t).spt.foldl State.clearPage s).left t := rfl
  have rest : ∀ (list : List Nat) (m : State), (list.foldl State.clearPage m).freeBitmap = m.freeBitmap ∧
      (list.foldl State.clearPage m).slots = m.slots := by
    intro list
    induction list with
    | nil => exact fun _ => ⟨rfl, rfl⟩
    | cons p rest ih =>
      intro m
      obtain ⟨bits, size⟩ := ih (m.clearPage p)
      rw [List.foldl_cons, bits, size, clearPage_eq]
      split <;> exact ⟨rfl, rfl⟩
  have replaced := replaced_left ((s.threads t).spt.foldl State.clearPage s) t
  rw [unfolded]
  refine ⟨?_, ?_, by rw [replaced.self], fun u other => ?_⟩
  · rw [left_eq]
    exact (rest _ s).1
  · rw [left_eq]
    exact (rest _ s).2
  · rw [replaced.other other, foldl_clearPage_threads]

/-- After a process has exited with a page in swap, the slot stays used and no page is in it. -/
theorem exit_leaks_slot : ∃ events final, run step (bootState 0) events = some final ∧ ¬SlotsExact final := by
  have start : Alone 0 (((bootState 0).spawn 1 5).credited 0) := by
    rw [credited_zero]
    exact alone_spawned
  obtain ⟨load, loaded, took, alone⟩ := start.loaded rfl List.not_mem_nil
  obtain ⟨faults, full, reached, alone⟩ := alone.fill (totalPages - 1) (by decide)
  rw [credited_zero] at alone
  obtain ⟨last, swapped, slot, taken, bound, used, live, others⟩ := alone.evicts
  obtain ⟨bits, size, own, rest⟩ := threadExit_leaves swapped 1
  have exits : step swapped (.exit 1) = some (swapped.threadExit 1) := if_pos live
  refine ⟨load :: (faults ++ [last, .exit 1]), swapped.threadExit 1, ?_, fun slots => ?_⟩
  · rw [run_cons_some]
    refine ⟨loaded, took, (run_append step).mpr ⟨full, reached, ?_⟩⟩
    exact (run_cons_some step).mpr ⟨swapped, taken, (run_cons_some step).mpr ⟨_, exits, rfl⟩⟩
  · rw [← size] at bound
    rw [← bits] at used
    obtain ⟨p, ⟨t, _, owned, _⟩, _⟩ := (slots.bits slot bound).mp used
    unfold State.Owns at owned
    by_cases self : t = 1
    · rw [self, own] at owned
      cases owned
    · rw [rest t self, others t self] at owned
      cases owned

end Pintos.Vm
