import Pintos.Vm.Agreement

/-! What a page contains, wherever it currently is.

A page of a running process has its bytes in a frame, in a swap slot or still in
the executable. No move but a store changes them: a page that is moved takes
them along, and the frames and slots the code writes into are nobody's.
-/

set_option autoImplicit false

namespace Pintos.Vm
open Semantics

variable {s m final : State} {move : Move} {event : Event}

def State.pageByte (s : State) (p o : Nat) : UInt8 :=
  match (s.pages p).location with
  | .inFrame => s.ram (s.pages p).kpage o
  | .inSwap => s.slotByte (s.pages p).swapLocation o
  | .inFilesys => s.segmentByte (s.pages p) o
  | .cleared => 0

structure Unmoved (s after : State) (t p : Nat) : Prop where
  owned : after.Owns t p
  upage : (after.pages p).upage = (s.pages p).upage
  bytes : ∀ o < pgSize, after.pageByte p o = s.pageByte p o

variable {after : State} {t p i u q o : Nat}

theorem Unmoved.trans (first : Unmoved s m t p) (second : Unmoved m after t p) :
    Unmoved s after t p :=
  ⟨second.owned, second.upage.trans first.upage, fun o bound => (second.bytes o bound).trans (first.bytes o bound)⟩

theorem Unmoved.of_page (owned : after.Owns t p) (page : after.pages p = s.pages p) (files : after.files = s.files)
    (ram : (s.pages p).location = .inFrame → after.ram (s.pages p).kpage = s.ram (s.pages p).kpage)
    (swap : (s.pages p).location = .inSwap → ∀ o < pgSize, after.slotByte (s.pages p).swapLocation o = s.slotByte (s.pages p).swapLocation o) :
    Unmoved s after t p := by
  refine ⟨owned, by rw [page], fun o bound => ?_⟩
  unfold State.pageByte
  rw [page]
  cases located : (s.pages p).location with
  | cleared => rfl
  | inFrame => exact congrFun (ram located) o
  | inSwap => exact swap located o bound
  | inFilesys =>
    unfold State.segmentByte
    rw [files]

theorem Unmoved.of_eq (owned : after.Owns t p) (page : after.pages p = s.pages p) (ram : after.ram = s.ram)
    (swap : after.swap = s.swap) (files : after.files = s.files) : Unmoved s after t p := by
  refine .of_page owned page files (fun _ => by rw [ram]) fun _ o _ => ?_
  unfold State.slotByte
  rw [swap]

def Whole (s : State) : Prop :=
  ∀ t p, s.Owns t p → (s.pages p).location = .inFilesys → (s.pages p).pageReadBytes + (s.pages p).pageZeroBytes = pgSize

/-! ## Frames and slots that are nobody's -/

theorem Backed.kpage_ne (backed : Backed s) (sound : Sound s) (running : (s.threads t).phase = .running)
    (owned : s.Owns t p) (located : (s.pages p).location = .inFrame) (vacant : s.Vacant i) :
    (s.pages p).kpage ≠ (s.frameTable i).kpage := by
  intro same
  obtain ⟨given, _⟩ := sound.resident.resident running owned located
  obtain ⟨j, bound, entry⟩ := backed.back owned located given
  have isSame : i = j := sound.frames.kpage_inj i vacant.1 j bound (by rw [← same, entry])
  subst isSame
  have none := backed.vacant vacant
  rw [entry] at none
  exact sound.tables.directory owned (sound.tables.pagedir owned ▸ none)

theorem Backed.page_of_kpage (backed : Backed s) (sound : Sound s) (runningT : (s.threads t).phase = .running)
    (ownedP : s.Owns t p) (locatedP : (s.pages p).location = .inFrame) (runningU : (s.threads u).phase = .running)
    (ownedQ : s.Owns u q) (locatedQ : (s.pages q).location = .inFrame) (same : (s.pages p).kpage = (s.pages q).kpage) :
    p = q := by
  obtain ⟨i, boundI, entryI⟩ := backed.back ownedP locatedP (sound.resident.resident runningT ownedP locatedP).1
  obtain ⟨j, boundJ, entryJ⟩ := backed.back ownedQ locatedQ (sound.resident.resident runningU ownedQ locatedQ).1
  have isSame : i = j := sound.frames.kpage_inj i boundI j boundJ (by rw [entryI, entryJ]; exact same)
  subst isSame
  rw [entryI] at entryJ
  exact congrArg FrameTableElem.pagePointer entryJ

theorem Backed.ram_filled (backed : Backed s) (sound : Sound s) (running : (s.threads t).phase = .running)
    (owned : s.Owns t p) (vacant : s.Vacant i) (bytes : Nat → UInt8) (located : (s.pages p).location = .inFrame) :
    (s.setRam (s.frameTable i).kpage bytes).ram (s.pages p).kpage = s.ram (s.pages p).kpage :=
  Function.update_of_ne (backed.kpage_ne sound running owned located vacant) _ _

theorem sector_bound (bound : o < pgSize) : o / blockSectorSize < 8 := by
  simp only [pgSize, blockSectorSize] at *
  omega

/-! ## Moves of the page itself -/

theorem pageOut_slotByte (s : State) (slot : Nat) (bound : o < pgSize) :
    (s.pageOut slot).slotByte (slot * 8) o = s.ram (s.frameTable s.clockPointer).kpage o := by
  have inside : slot * 8 ≤ slot * 8 + o / blockSectorSize ∧ slot * 8 + o / blockSectorSize < slot * 8 + 8 :=
    ⟨Nat.le_add_right _ _, Nat.add_lt_add_left (sector_bound bound) _⟩
  unfold State.slotByte
  rw [pageOut_eq]
  dsimp only
  rw [if_pos inside, Nat.add_sub_cancel_left, Nat.div_add_mod]

theorem pageOut_slotByte_other (s : State) {slot other : Nat} (different : other ≠ slot) (bound : o < pgSize) :
    (s.pageOut slot).slotByte (other * 8) o = s.slotByte (other * 8) o := by
  have inside := sector_bound bound
  unfold State.slotByte
  generalize o / blockSectorSize = sector at *
  rw [pageOut_eq]
  dsimp only
  rw [if_neg (by omega)]

theorem Unmoved.pageOut (sound : Sound s) {slot : Nat} (fits : Move.Fits s (.pageOut slot))
    (running : (s.threads t).phase = .running) (owned : s.Owns t p) : Unmoved s (s.pageOut slot) t p := by
  obtain ⟨range, directory, available⟩ := fits
  by_cases victim : p = (s.frameTable s.clockPointer).pagePointer
  · subst victim
    obtain ⟨_, holds⟩ := sound.resident.entry s.clockPointer range.2 directory
    refine ⟨owns_pageOut.mpr owned, by rw [pageOut_page_self], fun o bound => ?_⟩
    unfold State.pageByte
    rw [pageOut_page_self, holds.located]
    dsimp only
    rw [pageOut_slotByte s slot bound, holds.kpage]
  · refine .of_page (owns_pageOut.mpr owned) (pageOut_page_other victim) (by rw [pageOut_eq]) (fun _ => by rw [pageOut_eq])
      fun located o bound => ?_
    -- The new slot was free, and this page's slot is marked as used.
    obtain ⟨other, has⟩ := sound.slots.hasSlot running owned located
    have different : other ≠ slot := by
      rintro rfl
      have used := (sound.slots.used has).2
      rw [(freeSlot_some available).2] at used
      cases used
    rw [has.sector]
    exact pageOut_slotByte_other s different bound

/-- A page brought in takes its bytes from where the frame got them. -/
theorem Unmoved.installed {filled : State} (owned : filled.Owns t p)
    (self : p = q → (filled.pages q).upage = (s.pages q).upage ∧ ∀ o < pgSize, filled.ram (filled.frameTable i).kpage o = s.pageByte q o)
    (other : p ≠ q → Unmoved s filled t p) : Unmoved s (filled.installed u q i) t p := by
  have same := SameTables.installed filled u q i
  by_cases here : p = q
  · obtain ⟨upage, bytes⟩ := self here
    subst here
    refine ⟨same.owns.mpr owned, by rw [installed_page_self]; exact upage, fun o bound => ?_⟩
    unfold State.pageByte
    rw [installed_page_self]
    exact bytes o bound
  · exact (other here).trans (.of_eq (same.owns.mpr owned) (installed_page_other filled u q i here) rfl rfl rfl)

theorem Unmoved.fileIn (sound : Sound s) (backed : Backed s) (whole : Whole s) {bytes : Nat → UInt8}
    (fits : Move.Fits s (.fileIn u q i bytes)) (running : (s.threads t).phase = .running) (owned : s.Owns t p) :
    Unmoved s (s.act (.fileIn u q i bytes)) t p := by
  obtain ⟨ready, located, content⟩ := fits
  refine .installed owned (fun _ => ⟨rfl, fun o bound => ?_⟩) fun _ => ?_
  · rw [State.setRam_ram, State.setRam_frameTable, Function.update_self]
    unfold State.pageByte
    rw [located]
    exact content o (by rw [whole u q ready.owned located]; exact bound)
  · exact .of_page owned rfl rfl (backed.ram_filled sound running owned ready.vacant bytes) fun _ _ _ => rfl

theorem Unmoved.swapIn (sound : Sound s) (backed : Backed s) (fits : Move.Fits s (.swapIn u q i))
    (running : (s.threads t).phase = .running) (owned : s.Owns t p) :
    Unmoved s (s.act (.swapIn u q i)) t p := by
  obtain ⟨ready, located⟩ := fits
  have same := SameTables.fetched s q i .cleared
  refine .installed (same.owns.mpr owned) (fun _ => ⟨same.upage q, fun o bound => ?_⟩) fun here => ?_
  · have filled : (s.fetched q i .cleared).ram ((s.fetched q i .cleared).frameTable i).kpage o =
        if o / blockSectorSize < 8 then s.slotByte (s.pages q).swapLocation o
        else s.ram (s.frameTable i).kpage o := by
      simp [State.fetched, State.slotFreed]
    rw [filled, if_pos (sector_bound bound)]
    unfold State.pageByte
    rw [located]
  · refine .of_page (same.owns.mpr owned) (slotFreed_page_other _ q .cleared here) rfl (fun there => ?_) fun _ _ _ => rfl
    exact backed.ram_filled sound running owned ready.vacant _ there

/-! ## Every move -/

theorem Unmoved.act (sound : Sound s) (backed : Backed s) (whole : Whole s) (fits : move.Fits s)
    (quiet : ∀ u q bytes, move ≠ .store u q bytes) (running : (s.threads t).phase = .running) (owned : s.Owns t p) :
    Unmoved s (s.act move) t p := by
  have notExiting : ∀ {u q}, (s.threads u).phase = .exiting → s.Owns u q → p ≠ q := by
    rintro u _ exiting other rfl
    have isSame := sound.tables.owner owned other
    subst isSame
    cases running.symm.trans exiting
  have notUnborn : ∀ {u}, (s.threads u).phase = .unborn → t ≠ u := by
    rintro u unborn rfl
    cases running.symm.trans unborn
  cases move with
  | glance | unmatched => exact .of_eq owned rfl rfl rfl rfl
  | pageOut slot => exact .pageOut sound fits running owned
  | fill i bytes => exact .of_page owned rfl rfl (backed.ram_filled sound running owned fits bytes) fun _ _ _ => rfl
  | store u q bytes => exact absurd rfl (quiet u q bytes)
  | fileIn u q i bytes => exact .fileIn sound backed whole fits running owned
  | swapIn u q i => exact .swapIn sound backed fits running owned
  | growIn u upage i =>
    have built := owns_built sound.tables u (stackEntry upage (s.threads u).pagedir .cleared) t p
    have older := built_old sound.tables u (stackEntry upage (s.threads u).pagedir .cleared) owned
    have different : p ≠ s.nextPage := (sound.tables.allocated owned).2.ne
    refine .installed (built.mpr (Or.inl owned)) (fun here => absurd here different) fun _ => ?_
    exact .of_eq (built.mpr (Or.inl owned)) older (by rw [built_eq]) (by rw [built_eq]) (by rw [built_eq])
  | ending u status => exact .of_eq ((SameTables.ending fits status).owns.mpr owned) rfl rfl rfl rfl
  | drop q =>
    obtain ⟨u, exiting, other, _⟩ := fits
    exact .of_eq owned (slotFreed_page_other s q .inSwap (notExiting exiting other)) rfl rfl rfl
  | build u page =>
    exact .of_eq ((owns_built sound.tables u page t p).mpr (Or.inl owned)) (built_old sound.tables u page owned)
      (by simp only [State.act]; rw [built_eq]) (by simp only [State.act]; rw [built_eq])
      (by simp only [State.act]; rw [built_eq])
  | clear q =>
    obtain ⟨u, exiting, other⟩ := fits
    refine .of_eq (owns_clearPage.mpr owned) (clearPage_pages s q (notExiting exiting other)) ?_ ?_ ?_ <;>
      · simp only [State.act]
        rw [clearPage_eq]
        split <;> rfl
  | leave u =>
    have different : t ≠ u := by
      rintro rfl
      cases running.symm.trans fits.1
    exact .of_eq ((replaced_left s u).owns.mpr ⟨different, owned⟩) (by simp only [State.act, left_eq])
      (by simp only [State.act, left_eq]) (by simp only [State.act, left_eq]) (by simp only [State.act, left_eq])
  | spawn u pagedir =>
    have equation := spawn_eq s u fits.2.1
    exact .of_eq ((replaced_spawn s u fits.2.1).owns.mpr ⟨notUnborn fits.1, owned⟩) (by simp only [State.act, equation])
      (by simp only [State.act, equation]) (by simp only [State.act, equation]) (by simp only [State.act, equation])
  | stillborn u =>
    exact .of_eq ((replaced_stillborn s u).owns.mpr ⟨notUnborn fits, owned⟩) (by simp only [State.act, stillborn_eq])
      (by simp only [State.act, stillborn_eq]) (by simp only [State.act, stillborn_eq])
      (by simp only [State.act, stillborn_eq])
  | enter u esp =>
    have same : SameTables s (s.setThread u { s.threads u with esp := esp }) :=
      .setThread rfl rfl Iff.rfl fun run => run
    exact .of_eq (same.owns.mpr owned) rfl rfl rfl rfl

/-! ## New processes and new pages -/

theorem Whole.of_kept (whole : Whole s)
    (kept : ∀ t p, after.Owns t p → (after.pages p).location = .inFilesys → s.Owns t p ∧ after.pages p = s.pages p) :
    Whole after := by
  intro t p owned located
  obtain ⟨older, same⟩ := kept t p owned located
  rw [same] at located ⊢
  exact whole t p older located

theorem Whole.of_eq (whole : Whole s) (same : SameTables s after) (pages : after.pages = s.pages) :
    Whole after :=
  whole.of_kept fun _ p owned _ => ⟨same.owns.mp owned, congrFun pages p⟩

theorem Whole.setPage (whole : Whole s) {value : Page} (outside : value.location ≠ .inFilesys) :
    Whole (s.setPage p value) := by
  refine whole.of_kept fun t q owned located => ⟨owned, ?_⟩
  by_cases same : q = p
  · subst same
    rw [State.setPage_pages, Function.update_self] at located
    exact absurd located outside
  · exact Function.update_of_ne same _ _

theorem Whole.installed (whole : Whole s) (t p i : Nat) : Whole (s.installed t p i) := by
  refine whole.of_kept fun u q owned located => ⟨(SameTables.installed s t p i).owns.mp owned, ?_⟩
  by_cases same : q = p
  · subst same
    rw [installed_page_self] at located
    cases located
  · exact installed_page_other s t p i same

theorem Whole.built (whole : Whole s) (tables : Tables s) {page : Page} (fits : Buildable s t page) :
    Whole (s.built t page) := by
  intro u q owned located
  rcases (owns_built tables t page u q).mp owned with older | ⟨_, rfl, _⟩
  · rw [built_old tables t page older] at located ⊢
    exact whole u q older located
  · rw [built_new] at located ⊢
    exact fits.whole located

theorem Replaced.whole {value : Thread} (replaced : Replaced s after t value) (whole : Whole s) : Whole after :=
  whole.of_kept fun _ p owned _ => ⟨(replaced.owns.mp owned).2, congrFun replaced.pages p⟩

theorem Whole.act (whole : Whole s) (tables : Tables s) (fits : move.Fits s) : Whole (s.act move) := by
  have filled : ∀ kpage bytes, Whole (s.setRam kpage bytes) := fun _ _ => whole.of_eq (.of_eq rfl rfl rfl rfl) rfl
  have unset : ∀ {here : State} slot, Whole here → Whole (here.setSlot slot false) :=
    fun _ before => before.of_eq (.of_eq rfl rfl rfl rfl) rfl
  cases move with
  | glance | fill | store | unmatched | ending | enter => exact whole.of_eq (.act fits trivial) rfl
  | pageOut slot =>
    refine whole.of_kept fun u q owned located => ⟨owns_pageOut.mp owned, ?_⟩
    by_cases victim : q = (s.frameTable s.clockPointer).pagePointer
    · subst victim
      rw [State.act, pageOut_page_self] at located
      cases located
    · exact pageOut_page_other victim
  | fileIn t p i bytes => exact (filled _ bytes).installed t p i
  | swapIn t p i =>
    have fetched : Whole (s.fetched p i .cleared) := (unset _ (filled _ _)).setPage (by simp)
    exact fetched.installed t p i
  | growIn t upage i => exact (whole.built tables fits.1).installed t s.nextPage i
  | drop p => exact (unset _ whole).setPage (by simp)
  | build t page => exact whole.built tables fits
  | clear p =>
    simp only [State.act, clearPage_eq]
    split
    · have cleared : Whole (s.setPage p { s.pages p with kpage := 0, location := .cleared }) := whole.setPage (by simp)
      exact cleared.of_eq (.of_eq rfl rfl rfl rfl) rfl
    · exact whole
  | leave t => exact (replaced_left s t).whole whole
  | spawn t pagedir => exact (replaced_spawn s t fits.2.1).whole whole
  | stillborn t => exact (replaced_stillborn s t).whole whole

/-- The process was running before, and each of its pages is an old one or at an address that had none. -/
structure Older (s after : State) (t : Nat) : Prop where
  running : (s.threads t).phase = .running
  page : ∀ q, after.Owns t q →
    (s.Owns t q ∧ (after.pages q).upage = (s.pages q).upage) ∨ s.hashFind t (after.pages q).upage = none

theorem SameTables.older (same : SameTables s after) (running : (after.threads t).phase = .running) : Older s after t :=
  ⟨same.running t running, fun q owned => Or.inl ⟨same.owns.mp owned, same.upage q⟩⟩

theorem Replaced.older {value : Thread} (replaced : Replaced s after u value) (ended : value.phase ≠ .running)
    (running : (after.threads t).phase = .running) : Older s after t := by
  have different : t ≠ u := by
    rintro rfl
    rw [replaced.self] at running
    exact ended running
  rw [replaced.other different] at running
  exact ⟨running, fun q owned => Or.inl ⟨(replaced.owns.mp owned).2, by rw [replaced.pages]⟩⟩

/-- Outside of a load, a running process gets pages from stack growth only. -/
theorem older_of_act (tables : Tables s) (fits : move.Fits s) (old : ¬move.Fresh s)
    (running : ((s.act move).threads t).phase = .running) : Older s (s.act move) t := by
  cases move with
  | growIn u upage i =>
    have kept := SameTables.installed (s.built u (stackEntry upage (s.threads u).pagedir .cleared)) u s.nextPage i
    refine ⟨?_, fun q owned => ?_⟩
    · rw [← (built_thread tables u (stackEntry upage (s.threads u).pagedir .cleared) t).1]
      exact kept.running t running
    rcases (owns_built tables u (stackEntry upage (s.threads u).pagedir .cleared) t q).mp (kept.owns.mp owned) with
      older | ⟨rfl, rfl, _⟩
    · exact Or.inl ⟨older, (kept.upage q).trans (by rw [built_old tables u _ older])⟩
    · right
      have address : ((s.act (.growIn t upage i)).pages s.nextPage).upage = upage := by
        refine (kept.upage _).trans ?_
        rw [built_new]
        rfl
      rw [address]
      exact fits.2.2.2.1
  | build u page =>
    have was : (s.threads t).phase = .running := by
      rw [← (built_thread tables u page t).1]
      exact running
    refine ⟨was, fun q owned => ?_⟩
    rcases (owns_built tables u page t q).mp owned with older | ⟨rfl, _⟩
    · exact Or.inl ⟨older, by rw [State.act, built_old tables u page older]⟩
    · exact absurd was old
  | leave u => exact (replaced_left s u).older (by simp) running
  | spawn u pagedir => exact absurd trivial old
  | stillborn u => exact (replaced_stillborn s u).older (by simp) running
  | _ => exact (SameTables.act fits trivial).older running

end Pintos.Vm
