import Pintos.Vm.Tables

/-! Frame table, page entries and page directories agree, over every move.

`Resident` holds in every run. It speaks of present entries only of processes
that have not begun to exit, since a page-in that fails leaves the entry of its
page behind for `thread_exit` to clear.
-/

set_option autoImplicit false

namespace Pintos.Vm
open Semantics

variable {s : State} {m : Move}

structure Maps (s : State) (t p : Nat) : Prop where
  present : (s.pte (s.threads t).pagedir (s.pages p).upage).present = true
  page : (s.pte (s.threads t).pagedir (s.pages p).upage).page = (s.pages p).kpage
  writable : (s.pte (s.threads t).pagedir (s.pages p).upage).writable = (s.pages p).writable

structure Holds (s : State) (i t p : Nat) : Prop where
  owned : s.Owns t p
  located : (s.pages p).location = .inFrame
  kpage : (s.pages p).kpage = (s.frameTable i).kpage
  upage : (s.pages p).upage = (s.frameTable i).upage
  pagedir : (s.pages p).pagedir = (s.frameTable i).pagedir

structure Resident (s : State) : Prop where
  entry : ∀ i < totalPages, (s.frameTable i).pagedir ≠ 0 → ∃ t, Holds s i t (s.frameTable i).pagePointer
  unused : ∀ i < totalPages, (s.frameTable i).pagedir = 0 → (s.frameTable i).upage = 0
  mapped : ∀ {t va}, (s.threads t).phase = .running → (s.pte (s.threads t).pagedir va).present = true →
    ∃ p, s.Owns t p ∧ (s.pages p).upage = pgRoundDown va ∧ (s.pages p).location = .inFrame
  resident : ∀ {t p}, (s.threads t).phase = .running → s.Owns t p → (s.pages p).location = .inFrame →
    (s.pages p).kpage ≠ 0 ∧ Maps s t p

/-! ## Page table entries after a move -/

theorem pte_installed (s : State) (t p i pd va : Nat) :
    (s.installed t p i).pte pd va =
      if pd = (s.threads t).pagedir ∧ pgNo va = pgNo (s.pages p).upage then
        { present := true, page := (s.frameTable i).kpage, writable := (s.pages p).writable }
      else s.pte pd va :=
  State.pte_setPte s _ _ _ _ _

theorem installed_page_self (s : State) (t p i : Nat) :
    (s.installed t p i).pages p = { s.pages p with location := .inFrame, kpage := (s.frameTable i).kpage } := by
  simp [State.installed, State.occupied]

variable {q j i t p : Nat} {after : State}

theorem installed_page_other (s : State) (t p i : Nat) (different : q ≠ p) :
    (s.installed t p i).pages q = s.pages q := by
  simp [State.installed, State.occupied, different]

theorem installed_frame_self (s : State) (t p i : Nat) :
    (s.installed t p i).frameTable i =
      { kpage := (s.frameTable i).kpage, upage := (s.pages p).upage, pagedir := (s.pages p).pagedir,
        pagePointer := p } := by
  simp [State.installed, State.occupied]

theorem installed_frame_other (s : State) (t p i : Nat) (different : j ≠ i) :
    (s.installed t p i).frameTable j = s.frameTable j := by
  simp [State.installed, State.occupied, different]

/-! ## Transfer between states -/

theorem Holds.of_same (holds : Holds s i t p) (owned : after.Owns t p) (page : after.pages p = s.pages p)
    (frame : after.frameTable j = s.frameTable i) : Holds after j t p := by
  refine ⟨owned, ?_, ?_, ?_, ?_⟩
  · rw [page]; exact holds.located
  · rw [page, frame]; exact holds.kpage
  · rw [page, frame]; exact holds.upage
  · rw [page, frame]; exact holds.pagedir

theorem Resident.of_eq (resident : Resident s) (frameTable : after.frameTable = s.frameTable)
    (pages : after.pages = s.pages) (spt : ∀ t, (after.threads t).spt = (s.threads t).spt)
    (directory : ∀ t, (after.threads t).pagedir = (s.threads t).pagedir)
    (running : ∀ t, (after.threads t).phase = .running → (s.threads t).phase = .running)
    (present : ∀ pd va, (after.pte pd va).present = (s.pte pd va).present)
    (page : ∀ pd va, (after.pte pd va).page = (s.pte pd va).page)
    (writable : ∀ pd va, (after.pte pd va).writable = (s.pte pd va).writable) : Resident after := by
  have owns : ∀ t p, after.Owns t p ↔ s.Owns t p := by
    intro t p
    unfold State.Owns
    rw [spt]
  constructor
  case entry =>
    intro i bound given
    rw [frameTable] at given ⊢
    obtain ⟨t, holds⟩ := resident.entry i bound given
    exact ⟨t, holds.of_same ((owns _ _).mpr holds.owned) (by rw [pages]) (by rw [frameTable])⟩
  case unused =>
    rw [frameTable]
    exact resident.unused
  case mapped =>
    intro t va run there
    rw [directory, present] at there
    obtain ⟨p, owned, upage, located⟩ := resident.mapped (running t run) there
    refine ⟨p, (owns t p).mpr owned, ?_, ?_⟩
    · rw [pages]; exact upage
    · rw [pages]; exact located
  case resident =>
    intro t p run owned located
    rw [pages] at located ⊢
    obtain ⟨given, maps⟩ := resident.resident (running t run) ((owns t p).mp owned) located
    refine ⟨given, ?_, ?_, ?_⟩
    · rw [directory, pages, present]; exact maps.present
    · rw [directory, pages, page]; exact maps.page
    · rw [directory, pages, writable]; exact maps.writable

theorem Resident.of_eq_pte (resident : Resident s) (frameTable : after.frameTable = s.frameTable)
    (pages : after.pages = s.pages) (threads : after.threads = s.threads) (pagedirs : after.pagedirs = s.pagedirs) :
    Resident after := by
  have same : ∀ pd va, after.pte pd va = s.pte pd va := by
    intro pd va
    unfold State.pte
    rw [pagedirs]
  refine resident.of_eq frameTable pages ?_ ?_ ?_ ?_ ?_ ?_ <;> simp [threads, same]

theorem Maps.of_same (maps : Maps s t p) (page : after.pages p = s.pages p)
    (entry : after.pte (after.threads t).pagedir (s.pages p).upage = s.pte (s.threads t).pagedir (s.pages p).upage) :
    Maps after t p := by
  refine ⟨?_, ?_, ?_⟩
  · rw [page, entry]; exact maps.present
  · rw [page, entry]; exact maps.page
  · rw [page, entry]; exact maps.writable

/-- Two owned pages of running processes that one directory entry could map are the same page. -/
theorem Tables.same_entry (tables : Tables s) {u : Nat} (ownedP : s.Owns t p) (ownedQ : s.Owns u q)
    (directory : (s.threads t).pagedir = (s.threads u).pagedir)
    (pageNo : pgNo (s.pages p).upage = pgNo (s.pages q).upage) : t = u ∧ p = q := by
  have same : t = u :=
    tables.exclusive (tables.live ownedP) (tables.live ownedQ) directory (tables.directory ownedP)
  subst same
  exact ⟨rfl, tables.upage_inj ownedP ownedQ (eq_of_pgNo (tables.aligned ownedP) (tables.aligned ownedQ) pageNo)⟩

/-! ## Eviction -/

section PageOut
variable {slot : Nat}

theorem pageOut_page_other {q : Nat} (different : q ≠ (s.frameTable s.clockPointer).pagePointer) :
    (s.pageOut slot).pages q = s.pages q := by
  rw [pageOut_eq]
  exact Function.update_of_ne different _ _

theorem pageOut_page_self :
    (s.pageOut slot).pages (s.frameTable s.clockPointer).pagePointer =
      { s.pages (s.frameTable s.clockPointer).pagePointer with
        swapLocation := slot * 8, location := .inSwap, kpage := 0 } := by
  rw [pageOut_eq]
  exact Function.update_self _ _ _

theorem ne_victim_of_inFrame {q : Nat} (located : ((s.pageOut slot).pages q).location = .inFrame) :
    q ≠ (s.frameTable s.clockPointer).pagePointer := by
  rintro rfl
  rw [pageOut_page_self] at located
  cases located

theorem pageOut_frame_other {j : Nat} (different : j ≠ s.clockPointer) :
    (s.pageOut slot).frameTable j = s.frameTable j := by
  rw [pageOut_eq]
  exact Function.update_of_ne different _ _

theorem pageOut_frame_self :
    (s.pageOut slot).frameTable s.clockPointer = { kpage := (s.frameTable s.clockPointer).kpage } := by
  rw [pageOut_eq]
  exact Function.update_self _ _ _

theorem pageOut_threads : (s.pageOut slot).threads = s.threads := by rw [pageOut_eq]

theorem owns_pageOut {t p : Nat} : (s.pageOut slot).Owns t p ↔ s.Owns t p := by
  unfold State.Owns
  rw [pageOut_threads]

theorem Resident.page_of_other (resident : Resident s) (frames : Frames s) {i j : Nat} (bi : i < totalPages)
    (bj : j < totalPages) (givenI : (s.frameTable i).pagedir ≠ 0) (givenJ : (s.frameTable j).pagedir ≠ 0)
    (same : (s.frameTable j).pagePointer = (s.frameTable i).pagePointer) : j = i := by
  obtain ⟨_, first⟩ := resident.entry i bi givenI
  obtain ⟨_, second⟩ := resident.entry j bj givenJ
  apply frames.kpage_inj j bj i bi
  rw [← first.kpage, ← second.kpage, same]

theorem Resident.pageOut (resident : Resident s) (frames : Frames s) (tables : Tables s)
    (given : (s.frameTable s.clockPointer).pagedir ≠ 0) : Resident (s.pageOut slot) := by
  obtain ⟨owner, victim⟩ := resident.entry _ frames.clock.2 given
  constructor
  case entry =>
    intro j bound hasDirectory
    by_cases here : j = s.clockPointer
    · subst here
      rw [pageOut_frame_self] at hasDirectory
      exact absurd rfl hasDirectory
    · rw [pageOut_frame_other here] at hasDirectory ⊢
      obtain ⟨t, holds⟩ := resident.entry j bound hasDirectory
      have other : (s.frameTable j).pagePointer ≠ (s.frameTable s.clockPointer).pagePointer :=
        fun same => here (resident.page_of_other frames frames.clock.2 bound given hasDirectory same)
      exact ⟨t, holds.of_same (owns_pageOut.mpr holds.owned) (pageOut_page_other other) (pageOut_frame_other here)⟩
  case unused =>
    intro j bound without
    by_cases here : j = s.clockPointer
    · subst here
      rw [pageOut_frame_self]
    · rw [pageOut_frame_other here] at without ⊢
      exact resident.unused j bound without
  case mapped =>
    intro t va run there
    rw [pageOut_threads] at run there
    rw [pte_pageOut] at there
    split at there
    · cases there
    · rename_i elsewhere
      obtain ⟨p, owned, upage, located⟩ := resident.mapped run there
      have other : p ≠ (s.frameTable s.clockPointer).pagePointer := by
        rintro rfl
        apply elsewhere
        rw [← victim.pagedir, ← victim.upage, tables.pagedir owned, upage, pgNo_roundDown]
        exact ⟨rfl, rfl⟩
      refine ⟨p, owns_pageOut.mpr owned, ?_⟩
      rw [pageOut_page_other other]
      exact ⟨upage, located⟩
  case resident =>
    intro t p run owned located
    have other := ne_victim_of_inFrame located
    rw [owns_pageOut] at owned
    rw [pageOut_threads] at run
    rw [pageOut_page_other other] at located ⊢
    obtain ⟨kpage, maps⟩ := resident.resident run owned located
    refine ⟨kpage, maps.of_same (pageOut_page_other other) ?_⟩
    rw [pageOut_threads, pte_pageOut, if_neg]
    rintro ⟨directory, pageNo⟩
    rw [← victim.pagedir, tables.pagedir victim.owned] at directory
    rw [← victim.upage] at pageNo
    exact other (tables.same_entry owned victim.owned directory pageNo).2

end PageOut

/-! ## Bringing a page in -/

theorem Resident.installed (resident : Resident s) (frames : Frames s) (tables : Tables s)
    (fits : Installable s t p i) : Resident (s.installed t p i) := by
  have same := SameTables.installed s t p i
  have directory := tables.running fits.running
  constructor
  case entry =>
    intro j bound given
    by_cases here : j = i
    · subst here
      rw [installed_frame_self]
      refine ⟨t, same.owns.mpr fits.owned, ?_, ?_, ?_, ?_⟩ <;>
        simp only [installed_page_self, installed_frame_self]
    · rw [installed_frame_other s t p i here] at given ⊢
      obtain ⟨u, holds⟩ := resident.entry j bound given
      have other : (s.frameTable j).pagePointer ≠ p := fun equal => fits.outside (equal ▸ holds.located)
      exact ⟨u, holds.of_same (same.owns.mpr holds.owned) (installed_page_other s t p i other)
        (installed_frame_other s t p i here)⟩
  case unused =>
    intro j bound without
    by_cases here : j = i
    · subst here
      rw [installed_frame_self] at without
      exact absurd without (tables.pagedir fits.owned ▸ directory)
    · rw [installed_frame_other s t p i here] at without ⊢
      exact resident.unused j bound without
  case mapped =>
    intro u va run there
    rw [same.directory, pte_installed] at there
    have wasRunning := same.running u run
    split at there
    · -- The new mapping: the directory is this process's and so is the page.
      rename_i hit
      have isSelf : u = t := tables.exclusive (Or.inl wasRunning) (Or.inl fits.running) hit.1 (hit.1 ▸ directory)
      subst isSelf
      refine ⟨p, same.owns.mpr fits.owned, ?_⟩
      rw [installed_page_self]
      refine ⟨eq_of_pgNo (tables.aligned fits.owned) (pgRoundDown_ofs va) ?_, rfl⟩
      rw [pgNo_roundDown]
      exact hit.2.symm
    · obtain ⟨q, owned, upage, located⟩ := resident.mapped wasRunning there
      have other : q ≠ p := fun equal => fits.outside (equal ▸ located)
      refine ⟨q, same.owns.mpr owned, ?_⟩
      rw [installed_page_other s t p i other]
      exact ⟨upage, located⟩
  case resident =>
    intro u q run owned located
    have wasRunning := same.running u run
    rw [same.owns] at owned
    by_cases isNew : q = p
    · subst isNew
      have isSelf := tables.owner owned fits.owned
      subst isSelf
      rw [installed_page_self]
      refine ⟨frames.kpage_pos i fits.vacant.1, ?_, ?_, ?_⟩ <;>
        rw [same.directory, same.upage, pte_installed, if_pos ⟨rfl, rfl⟩] <;> simp only [installed_page_self]
    · rw [installed_page_other s t p i isNew] at located ⊢
      obtain ⟨kpage, maps⟩ := resident.resident wasRunning owned located
      refine ⟨kpage, maps.of_same (installed_page_other s t p i isNew) ?_⟩
      rw [same.directory, pte_installed, if_neg]
      rintro ⟨equal, pageNo⟩
      exact isNew (tables.same_entry owned fits.owned equal pageNo).2

theorem Resident.setPage (resident : Resident s) {value : Page} (before : (s.pages p).location ≠ .inFrame)
    (after : value.location ≠ .inFrame) :
    Resident (s.setPage p value) := by
  have other : ∀ {q}, (s.pages q).location = .inFrame → (s.setPage p value).pages q = s.pages q := by
    intro q located
    have different : q ≠ p := fun equal => before (equal ▸ located)
    exact Function.update_of_ne different _ _
  constructor
  case entry =>
    intro i bound given
    obtain ⟨t, holds⟩ := resident.entry i bound given
    exact ⟨t, holds.of_same holds.owned (other holds.located) rfl⟩
  case unused => exact resident.unused
  case mapped =>
    intro t va run there
    obtain ⟨q, owned, upage, located⟩ := resident.mapped run there
    refine ⟨q, owned, ?_⟩
    rw [other located]
    exact ⟨upage, located⟩
  case resident =>
    intro t q run owned located
    have wasIn : (s.pages q).location = .inFrame := by
      by_cases same : q = p
      · subst same
        rw [State.setPage_pages, Function.update_self] at located
        exact absurd located after
      · rw [State.setPage_pages, Function.update_of_ne same] at located
        exact located
    rw [other wasIn]
    obtain ⟨kpage, maps⟩ := resident.resident run owned wasIn
    exact ⟨kpage, maps.of_same (other wasIn) rfl⟩

theorem Resident.slotFreed (resident : Resident s) {location : Location} (before : (s.pages p).location ≠ .inFrame)
    (after : location ≠ .inFrame) : Resident (s.slotFreed p location) := by
  have unset : Resident (s.setSlot ((s.pages p).swapLocation / 8) false) :=
    resident.of_eq_pte rfl rfl rfl rfl
  exact unset.setPage before after

theorem Resident.fetched (resident : Resident s) {location : Location} (before : (s.pages p).location ≠ .inFrame)
    (after : location ≠ .inFrame) :
    Resident (s.fetched p i location) := by
  have filled : ∀ bytes, Resident (s.setRam (s.frameTable i).kpage bytes) :=
    fun _ => resident.of_eq_pte rfl rfl rfl rfl
  exact (filled _).slotFreed before after

theorem Installable.filled (fits : Installable s t p i) {kpage : Nat} {bytes : Nat → UInt8} :
    Installable (s.setRam kpage bytes) t p i :=
  ⟨fits.running, fits.owned, fits.outside, fits.vacant, fits.absent⟩

theorem Installable.fetched (fits : Installable s t p i) :
    Installable (s.fetched p i .cleared) t p i := by
  have same := SameTables.fetched s p i .cleared
  refine ⟨fits.running, fits.owned, ?_, fits.vacant, ?_⟩
  · simp [State.fetched, State.slotFreed]
  · rw [same.upage]
    exact fits.absent

theorem pte_built (s : State) (t : Nat) (page : Page) (pd va : Nat) : (s.built t page).pte pd va = s.pte pd va := by
  rw [built_eq]
  rfl

theorem built_frameTable (s : State) (t : Nat) (page : Page) : (s.built t page).frameTable = s.frameTable := by
  rw [built_eq]

theorem Frames.built (frames : Frames s) (t : Nat) (page : Page) : Frames (s.built t page) := by
  rw [built_eq]
  exact frames.of_same (fun _ => rfl) frames.clock

theorem Buildable.installable {page : Page} (fits : Buildable s t page) (tables : Tables s)
    (running : (s.threads t).phase = .running) (vacant : s.Vacant i) (absent : s.hashFind t page.upage = none)
    (unmapped : (s.pte (s.threads t).pagedir page.upage).present = false) :
    Installable (s.built t page) t s.nextPage i := by
  obtain ⟨phase, directory⟩ := built_thread tables t page t
  refine ⟨phase.trans running, (owns_built tables t page t _).mpr (Or.inr ⟨rfl, rfl, absent⟩), ?_, ?_, ?_⟩
  · rw [built_new]
    exact fun located => fits.frame located running
  · unfold State.Vacant
    rw [built_frameTable]
    exact vacant
  · rw [directory, built_new, pte_built]
    exact unmapped

theorem Resident.built (resident : Resident s) (tables : Tables s) {page : Page} (fits : Buildable s t page) :
    Resident (s.built t page) := by
  have phase := fun u => (built_thread tables t page u).1
  have directory := fun u => (built_thread tables t page u).2
  have owns := fun u q older => (owns_built tables t page u q).mpr (Or.inl older)
  constructor
  case entry =>
    intro i bound given
    rw [built_frameTable] at given ⊢
    obtain ⟨u, holds⟩ := resident.entry i bound given
    exact ⟨u, holds.of_same (owns _ _ holds.owned) (built_old tables t page holds.owned)
      (by rw [built_frameTable])⟩
  case unused =>
    rw [built_frameTable]
    exact resident.unused
  case mapped =>
    intro u va run there
    rw [phase] at run
    rw [directory, pte_built] at there
    obtain ⟨q, owned, upage, located⟩ := resident.mapped run there
    refine ⟨q, owns _ _ owned, ?_⟩
    rw [built_old tables t page owned]
    exact ⟨upage, located⟩
  case resident =>
    intro u q run owned located
    rw [phase] at run
    rcases (owns_built tables t page u q).mp owned with older | ⟨rfl, rfl, _⟩
    · rw [built_old tables t page older] at located ⊢
      obtain ⟨kpage, maps⟩ := resident.resident run older located
      refine ⟨kpage, maps.of_same (built_old tables t page older) ?_⟩
      rw [directory, pte_built]
    · rw [built_new] at located
      exact absurd run (fits.frame located)

/-! ## Freeing frames and ending processes -/

theorem frameFree_frame (frames : Frames s) (kpage : Nat) (bound : j < totalPages) :
    (s.frameFree kpage).frameTable j =
      if (s.frameTable j).kpage = kpage then { kpage := (s.frameTable j).kpage } else s.frameTable j := by
  rcases frameFree_cases frames kpage with ⟨i, inside, rfl, freed⟩ | ⟨absent, idle⟩
  · rw [freed]
    by_cases here : j = i
    · subst here
      simp [State.released]
    · have apart : (s.frameTable j).kpage ≠ (s.frameTable i).kpage :=
        fun same => here (frames.kpage_inj j bound i inside same)
      simp [State.released, here, apart]
  · rw [idle, if_neg (absent j bound)]

theorem Resident.released (resident : Resident s) (i : Nat) : Resident (s.released i) := by
  have other : ∀ {j}, j ≠ i → (s.released i).frameTable j = s.frameTable j :=
    fun different => Function.update_of_ne different _ _
  have self : (s.released i).frameTable i = { kpage := (s.frameTable i).kpage } := Function.update_self _ _ _
  constructor
  case entry =>
    intro j bound given
    by_cases here : j = i
    · subst here
      rw [self] at given
      exact absurd rfl given
    · rw [other here] at given ⊢
      obtain ⟨t, holds⟩ := resident.entry j bound given
      exact ⟨t, holds.of_same holds.owned rfl (other here)⟩
  case unused =>
    intro j bound without
    by_cases here : j = i
    · subst here
      rw [self]
    · rw [other here] at without ⊢
      exact resident.unused j bound without
  case mapped => exact resident.mapped
  case resident =>
    intro t p run owned located
    obtain ⟨kpage, maps⟩ := resident.resident run owned located
    exact ⟨kpage, maps.of_same rfl rfl⟩

theorem clearPage_pages (s : State) (p : Nat) (different : q ≠ p) : (s.clearPage p).pages q = s.pages q := by
  rw [clearPage_eq]
  split
  · exact Function.update_of_ne different _ _
  · rfl

theorem clearPage_outside (s : State) (p : Nat) : ((s.clearPage p).pages p).location ≠ .inFrame := by
  rw [clearPage_eq]
  split
  · simp
  · assumption

theorem clearPage_threads (s : State) (p : Nat) : (s.clearPage p).threads = s.threads := by
  rw [clearPage_eq]
  split <;> rfl

theorem pte_clearPage (s : State) (p pd va : Nat) : (s.clearPage p).pte pd va = s.pte pd va := by
  unfold State.pte
  rw [clearPage_eq]
  split <;> rfl

theorem owns_clearPage : (s.clearPage p).Owns t q ↔ s.Owns t q := by
  unfold State.Owns
  rw [clearPage_threads]

theorem clearPage_frame (frames : Frames s) (located : (s.pages p).location = .inFrame) (bound : j < totalPages) :
    (s.clearPage p).frameTable j =
      if (s.frameTable j).kpage = (s.pages p).kpage then { kpage := (s.frameTable j).kpage } else s.frameTable j := by
  rw [clearPage_eq, if_pos located]
  dsimp only
  exact frameFree_frame frames _ bound

theorem Resident.clear (resident : Resident s) (frames : Frames s) (tables : Tables s)
    (exiting : (s.threads t).phase = .exiting) (owned : s.Owns t p) : Resident (s.clearPage p) := by
  by_cases located : (s.pages p).location = .inFrame
  swap
  · rw [clearPage_eq, if_neg located]
    exact resident
  -- A running process has other pages than the one being cleared.
  have other : ∀ {u q}, (s.threads u).phase = .running → s.Owns u q → q ≠ p := by
    rintro u q run ownedQ rfl
    have same := tables.owner ownedQ owned
    subst same
    rw [exiting] at run
    cases run
  constructor
  case entry =>
    intro j bound given
    rw [clearPage_frame frames located bound] at given ⊢
    split at given <;> rename_i frame
    · exact absurd rfl given
    · rw [if_neg frame]
      obtain ⟨u, holds⟩ := resident.entry j bound given
      have different : (s.frameTable j).pagePointer ≠ p := by
        intro same
        apply frame
        rw [← holds.kpage, same]
      refine ⟨u, holds.of_same (owns_clearPage.mpr holds.owned) (clearPage_pages s p different) ?_⟩
      rw [clearPage_frame frames located bound, if_neg frame]
  case unused =>
    intro j bound without
    rw [clearPage_frame frames located bound] at without ⊢
    split at without <;> rename_i frame
    · rw [if_pos frame]
    · rw [if_neg frame]
      exact resident.unused j bound without
  case mapped =>
    intro u va run there
    rw [clearPage_threads] at run there
    rw [pte_clearPage] at there
    obtain ⟨q, ownedQ, upage, inFrame⟩ := resident.mapped run there
    refine ⟨q, owns_clearPage.mpr ownedQ, ?_⟩
    rw [clearPage_pages s p (other run ownedQ)]
    exact ⟨upage, inFrame⟩
  case resident =>
    intro u q run ownedQ inFrame
    rw [clearPage_threads] at run
    rw [owns_clearPage] at ownedQ
    rw [clearPage_pages s p (other run ownedQ)] at inFrame ⊢
    obtain ⟨kpage, maps⟩ := resident.resident run ownedQ inFrame
    refine ⟨kpage, maps.of_same (clearPage_pages s p (other run ownedQ)) ?_⟩
    rw [clearPage_threads, pte_clearPage]

/-- A process without resident pages is replaced by one with an empty directory. -/
theorem Replaced.resident {value : Thread} (replaced : Replaced s after t value) (resident : Resident s)
    (frameTable : after.frameTable = s.frameTable) (outside : ∀ p, s.Owns t p → (s.pages p).location ≠ .inFrame)
    (kept : ∀ u va, u ≠ t → (s.threads u).phase = .running → after.pte (s.threads u).pagedir va = s.pte (s.threads u).pagedir va)
    (unmapped : value.phase = .running → ∀ va, (after.pte value.pagedir va).present = false) : Resident after := by
  constructor
  case entry =>
    intro i bound given
    rw [frameTable] at given ⊢
    obtain ⟨u, holds⟩ := resident.entry i bound given
    have different : u ≠ t := by
      rintro rfl
      exact outside _ holds.owned holds.located
    refine ⟨u, holds.of_same (replaced.owns.mpr ⟨different, holds.owned⟩) ?_ ?_⟩
    · rw [replaced.pages]
    · rw [frameTable]
  case unused =>
    rw [frameTable]
    exact resident.unused
  case mapped =>
    intro u va run there
    by_cases same : u = t
    · subst same
      rw [replaced.self] at run there
      rw [unmapped run] at there
      cases there
    · rw [replaced.other same] at run there
      rw [kept u va same run] at there
      obtain ⟨q, owned, upage, located⟩ := resident.mapped run there
      refine ⟨q, replaced.owns.mpr ⟨same, owned⟩, ?_⟩
      rw [replaced.pages]
      exact ⟨upage, located⟩
  case resident =>
    intro u q run owned located
    obtain ⟨different, older⟩ := replaced.owns.mp owned
    rw [replaced.other different] at run
    rw [replaced.pages] at located ⊢
    obtain ⟨kpage, maps⟩ := resident.resident run older located
    refine ⟨kpage, maps.of_same (by rw [replaced.pages]) ?_⟩
    rw [replaced.other different]
    exact kept u _ different run

theorem Tables.not_unborn (tables : Tables s) (owned : s.Owns t p) (unborn : (s.threads t).phase = .unborn) :
    False := by
  rcases tables.live owned with run | exit
  · rw [unborn] at run; cases run
  · rw [unborn] at exit; cases exit

theorem pte_fresh_directory (s after : State) {pagedir : Nat}
    (updated : after.pagedirs = Function.update s.pagedirs pagedir Pagedir.empty) (pd va : Nat) :
    after.pte pd va = if pd = pagedir then {} else s.pte pd va := by
  unfold State.pte
  rw [updated]
  by_cases same : pd = pagedir
  · subst same
    rw [Function.update_self, if_pos rfl, Pagedir.pte_empty]
  · rw [Function.update_of_ne same, if_neg same]

theorem Resident.left (resident : Resident s) (tables : Tables s) (exiting : (s.threads t).phase = .exiting)
    (outside : ∀ p, s.Owns t p → (s.pages p).location ≠ .inFrame) :
    Resident (s.left t) := by
  refine (replaced_left s t).resident resident (by rw [left_eq]) outside (fun u va different run => ?_)
    (fun run => by cases run)
  have apart : (s.threads u).pagedir ≠ (s.threads t).pagedir := fun same =>
    different (tables.exclusive (Or.inl run) (Or.inr exiting) same (tables.running run))
  by_cases none : (s.threads t).pagedir = 0
  · unfold State.pte
    rw [left_eq]
    simp only [if_pos none]
  · have updated : (s.left t).pagedirs = Function.update s.pagedirs (s.threads t).pagedir Pagedir.empty := by
      rw [left_eq]
      simp only [if_neg none]
    rw [pte_fresh_directory s _ updated, if_neg apart]

theorem Resident.spawn (resident : Resident s) (tables : Tables s) {pagedir : Nat}
    (unborn : (s.threads t).phase = .unborn) (given : pagedir ≠ 0) (fresh : pagedir ∉ s.directories) :
    Resident (s.spawn t pagedir) := by
  have updated : (s.spawn t pagedir).pagedirs = Function.update s.pagedirs pagedir Pagedir.empty := by
    rw [spawn_eq s t given]
  refine (replaced_spawn s t given).resident resident (by rw [spawn_eq s t given]) (fun p owned => ?_)
    (fun u va _ run => ?_) (fun _ va => ?_)
  · exact (tables.not_unborn owned unborn).elim
  · rw [pte_fresh_directory s _ updated, if_neg]
    rintro same
    exact fresh (same ▸ tables.registered (Or.inl run) (tables.running run))
  · rw [pte_fresh_directory s _ updated, if_pos rfl]

theorem Resident.act (resident : Resident s) (frames : Frames s) (tables : Tables s) (fits : m.Fits s) :
    Resident (s.act m) := by
  cases m with
  | glance pagedirs clock =>
    obtain ⟨glanced, _⟩ := fits
    exact resident.of_eq rfl rfl (fun _ => rfl) (fun _ => rfl) (fun _ run => run) glanced.present glanced.page
      glanced.writable
  | pageOut slot => exact resident.pageOut frames tables fits.2.1
  | fill | store => exact resident.of_eq_pte rfl rfl rfl rfl
  | fileIn t p i bytes =>
    have filled : Resident (s.setRam (s.frameTable i).kpage bytes) := resident.of_eq_pte rfl rfl rfl rfl
    exact filled.installed (frames.of_same (fun _ => rfl) frames.clock) (tables.of_same (.of_eq rfl rfl rfl rfl))
      fits.1.filled
  | swapIn t p i =>
    exact (resident.fetched fits.1.outside (by decide)).installed (frames.of_same (fun _ => rfl) frames.clock)
      (tables.of_same (.fetched s p i .cleared)) fits.1.fetched
  | growIn t upage i =>
    obtain ⟨buildable, running, vacant, absent, unmapped⟩ := fits
    refine (resident.built tables buildable).installed (frames.built t _) (tables.built buildable) ?_
    exact buildable.installable tables running vacant absent unmapped
  | unmatched i => exact resident.released i
  | ending t status =>
    have same := SameTables.ending fits status
    exact resident.of_eq rfl rfl same.spt same.directory same.running (fun _ _ => rfl) (fun _ _ => rfl) (fun _ _ => rfl)
  | drop p =>
    obtain ⟨t, _, _, located, _⟩ := fits
    exact resident.slotFreed (by rw [located]; decide) (by decide)
  | build t page => exact resident.built tables fits
  | clear p =>
    obtain ⟨t, exiting, owned⟩ := fits
    exact resident.clear frames tables exiting owned
  | leave t => exact resident.left tables fits.1 fits.2
  | spawn t pagedir => exact resident.spawn tables fits.1 fits.2.1 fits.2.2
  | stillborn t =>
    refine (replaced_stillborn s t).resident resident (by rw [stillborn_eq]) (fun p owned => ?_)
      (fun u va _ _ => ?_) (fun run => by cases run)
    · exact (tables.not_unborn owned fits).elim
    · rw [stillborn_eq]
      rfl
  | enter t esp =>
    have same : SameTables s (s.setThread t { s.threads t with esp := esp }) :=
      .setThread rfl rfl Iff.rfl fun run => run
    exact resident.of_eq rfl rfl same.spt same.directory same.running (fun _ _ => rfl) (fun _ _ => rfl) (fun _ _ => rfl)

end Pintos.Vm
