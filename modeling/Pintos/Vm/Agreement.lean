import Pintos.Vm.Events

/-! The three views of residency agree.

The frame table, the supplemental page tables and the page directories say the
same of every process that has not begun to exit, as long as no page at address
0 is brought in: `frame_install` records such a page under the null address that
marks a free entry, and hands its frame out again.
-/

set_option autoImplicit false

namespace Pintos.Vm
open Semantics

variable {s m final : State} {move : Move} {event : Event}

structure Backed (s : State) : Prop where
  back : ∀ {t p}, s.Owns t p → (s.pages p).location = .inFrame → (s.pages p).kpage ≠ 0 →
    ∃ i < totalPages, s.frameTable i =
      { kpage := (s.pages p).kpage, upage := (s.pages p).upage, pagedir := (s.pages p).pagedir, pagePointer := p }
  pos : ∀ i < totalPages, (s.frameTable i).pagedir ≠ 0 → (s.frameTable i).upage ≠ 0

variable {i p t : Nat} {after : State}

section
variable (backed : Backed s)
include backed

theorem Backed.vacant (vacant : s.Vacant i) : (s.frameTable i).pagedir = 0 := by
  by_contra given
  exact backed.pos i vacant.1 given vacant.2

theorem Backed.of_kept
    (owned : ∀ {t p}, after.Owns t p → (after.pages p).location = .inFrame → (after.pages p).kpage ≠ 0 → s.Owns t p ∧ after.pages p = s.pages p)
    (kept : ∀ {t p i}, s.Owns t p → i < totalPages → after.pages p = s.pages p → (s.pages p).location = .inFrame → s.frameTable i = { kpage := (s.pages p).kpage, upage := (s.pages p).upage, pagedir := (s.pages p).pagedir, pagePointer := p } → after.Owns t p → after.frameTable i = s.frameTable i)
    (pos : ∀ i < totalPages, (after.frameTable i).pagedir ≠ 0 → (after.frameTable i).upage ≠ 0) : Backed after := by
  refine ⟨fun {t p} own located given => ?_, pos⟩
  obtain ⟨older, same⟩ := owned own located given
  rw [same] at located given ⊢
  obtain ⟨i, bound, entry⟩ := backed.back older located given
  exact ⟨i, bound, (kept older bound same located entry own).trans entry⟩

theorem Backed.of_eq (spt : ∀ t, (after.threads t).spt = (s.threads t).spt)
    (pages : after.pages = s.pages) (frameTable : after.frameTable = s.frameTable) : Backed after := by
  refine backed.of_kept (fun {t p} own _ _ => ?_) (fun _ _ _ _ _ _ => by rw [frameTable]) ?_
  · unfold State.Owns at own ⊢
    rw [spt] at own
    exact ⟨own, by rw [pages]⟩
  · rw [frameTable]
    exact backed.pos

theorem Backed.setPage {value : Page} (outside : value.location = .inFrame → value.kpage = 0) :
    Backed (s.setPage p value) := by
  refine backed.of_kept (fun {t q} own located given => ⟨own, ?_⟩) (fun _ _ _ _ _ _ => rfl) backed.pos
  by_cases same : q = p
  · subst same
    simp only [State.setPage_pages, Function.update_self] at located given
    exact absurd (outside located) given
  · exact Function.update_of_ne same _ _

theorem Backed.pageOut {slot : Nat} : Backed (s.pageOut slot) := by
  refine backed.of_kept (fun {t q} own located _ => ?_) (fun {t q i} own bound same located entry _ => ?_)
    (fun i bound given => ?_)
  · exact ⟨owns_pageOut.mp own, pageOut_page_other (ne_victim_of_inFrame located)⟩
  · apply pageOut_frame_other
    rintro rfl
    have other := ne_victim_of_inFrame (same ▸ located)
    rw [entry] at other
    exact other rfl
  · by_cases here : i = s.clockPointer
    · subst here
      rw [pageOut_frame_self] at given
      exact absurd rfl given
    · rw [pageOut_frame_other here] at given ⊢
      exact backed.pos i bound given

theorem Backed.installed (tables : Tables s) (fits : Installable s t p i)
    (nonzero : (s.pages p).upage ≠ 0) : Backed (s.installed t p i) := by
  have same := SameTables.installed s t p i
  constructor
  · intro u q own located given
    by_cases here : q = p
    · subst here
      refine ⟨i, fits.vacant.1, ?_⟩
      rw [installed_frame_self, installed_page_self]
    · rw [installed_page_other s t p i here] at located given ⊢
      obtain ⟨j, bound, entry⟩ := backed.back (same.owns.mp own) located given
      refine ⟨j, bound, (installed_frame_other s t p i ?_).trans entry⟩
      -- The vacant entry is nobody's.
      rintro rfl
      have none := backed.vacant fits.vacant
      rw [entry] at none
      exact tables.directory (same.owns.mp own) (tables.pagedir (same.owns.mp own) ▸ none)
  · intro j bound given
    by_cases here : j = i
    · subst here
      rw [installed_frame_self]
      exact nonzero
    · rw [installed_frame_other s t p i here] at given ⊢
      exact backed.pos j bound given

theorem Backed.built (tables : Tables s) {page : Page} (kpage : page.kpage = 0) : Backed (s.built t page) := by
  refine backed.of_kept (fun {u q} own located given => ?_) (fun _ _ _ _ _ _ => by rw [built_frameTable]) ?_
  · rcases (owns_built tables t page u q).mp own with older | ⟨_, rfl, _⟩
    · exact ⟨older, built_old tables t page older⟩
    · rw [built_new] at given
      exact absurd kpage given
  · rw [built_frameTable]
    exact backed.pos

theorem Backed.released (tables : Tables s) (vacant : s.Vacant i) : Backed (s.released i) := by
  have other : ∀ {j}, j ≠ i → (s.released i).frameTable j = s.frameTable j :=
    fun different => Function.update_of_ne different _ _
  refine backed.of_kept (fun own _ _ => ⟨own, rfl⟩) (fun {u q j} own bound _ _ entry _ => other ?_) (fun j bound given => ?_)
  · rintro rfl
    have none := backed.vacant vacant
    rw [entry] at none
    exact tables.directory own (tables.pagedir own ▸ none)
  · by_cases here : j = i
    · subst here
      have self : (s.released j).frameTable j = { kpage := (s.frameTable j).kpage } := Function.update_self _ _ _
      rw [self] at given
      exact absurd rfl given
    · rw [other here] at given ⊢
      exact backed.pos j bound given

theorem Backed.clear (frames : Frames s) (owned : s.Owns t p) : Backed (s.clearPage p) := by
  by_cases located : (s.pages p).location = .inFrame
  swap
  · rw [clearPage_eq, if_neg located]
    exact backed
  refine backed.of_kept (fun {u q} own there _ => ⟨owns_clearPage.mp own, clearPage_pages s p ?_⟩)
    (fun {u q i} own bound same there entry _ => ?_) (fun i bound given => ?_)
  · rintro rfl
    exact clearPage_outside s q there
  · rw [clearPage_frame frames located bound, if_neg]
    -- The entry of the cleared page is another one.
    intro frame
    have nonzero : (s.pages p).kpage ≠ 0 := frame ▸ frames.kpage_pos i bound
    obtain ⟨j, bound', entry'⟩ := backed.back owned located nonzero
    have isSame : i = j := frames.kpage_inj i bound j bound' (by rw [frame, entry'])
    subst isSame
    rw [entry] at entry'
    have pointer := congrArg FrameTableElem.pagePointer entry'
    simp only at pointer
    subst pointer
    exact clearPage_outside s q (by rw [same]; exact located)
  · rw [clearPage_frame frames located bound] at given ⊢
    split at given <;> rename_i frame
    · exact absurd rfl given
    · rw [if_neg frame]
      exact backed.pos i bound given

end

theorem Replaced.backed {value : Thread} (replaced : Replaced s after t value) (backed : Backed s)
    (frameTable : after.frameTable = s.frameTable) : Backed after := by
  refine backed.of_kept (fun own _ _ => ⟨(replaced.owns.mp own).2, by rw [replaced.pages]⟩)
    (fun _ _ _ _ _ _ => by rw [frameTable]) ?_
  rw [frameTable]
  exact backed.pos

theorem Backed.act (backed : Backed s) (sound : Sound s) (fits : move.Fits s) (elsewhere : ¬move.AtNull s) :
    Backed (s.act move) := by
  cases move with
  | glance | fill | store => exact backed.of_eq (fun _ => rfl) rfl rfl
  | pageOut slot => exact backed.pageOut
  | fileIn t p i bytes =>
    have filled : Backed (s.setRam (s.frameTable i).kpage bytes) := backed.of_eq (fun _ => rfl) rfl rfl
    exact filled.installed (sound.tables.of_same (.of_eq rfl rfl rfl rfl)) fits.1.filled elsewhere
  | swapIn t p i =>
    have kept := SameTables.fetched s p i .cleared
    have fetched : Backed (s.fetched p i .cleared) := by
      have filled : ∀ bytes, Backed (s.setRam (s.frameTable i).kpage bytes) :=
        fun _ => backed.of_eq (fun _ => rfl) rfl rfl
      have unset : ∀ bytes, Backed ((s.setRam (s.frameTable i).kpage bytes).setSlot
          ((s.pages p).swapLocation / 8) false) := fun bytes => (filled bytes).of_eq (fun _ => rfl) rfl rfl
      exact (unset _).setPage nofun
    refine fetched.installed (sound.tables.of_same kept) fits.1.fetched ?_
    rw [kept.upage]
    exact elsewhere
  | growIn t upage i =>
    obtain ⟨buildable, running, vacant, absent, unmapped⟩ := fits
    refine (backed.built sound.tables buildable.kpage).installed (sound.tables.built buildable)
      (buildable.installable sound.tables running vacant absent unmapped) ?_
    rw [built_new]
    exact elsewhere
  | unmatched i => exact backed.released sound.tables fits
  | ending t status => exact backed.of_eq (SameTables.ending fits status).spt rfl rfl
  | drop p =>
    have unset : Backed (s.setSlot ((s.pages p).swapLocation / 8) false) := backed.of_eq (fun _ => rfl) rfl rfl
    exact unset.setPage nofun
  | build t page => exact backed.built sound.tables fits.kpage
  | clear p =>
    obtain ⟨t, _, owned⟩ := fits
    exact backed.clear sound.frames owned
  | leave t => exact (replaced_left s t).backed backed (by rw [left_eq])
  | spawn t pagedir => exact (replaced_spawn s t fits.2.1).backed backed (by rw [spawn_eq s t fits.2.1])
  | stillborn t => exact (replaced_stillborn s t).backed backed (by rw [stillborn_eq])
  | enter t esp =>
    have same : SameTables s (s.setThread t { s.threads t with esp := esp }) :=
      .setThread rfl rfl Iff.rfl fun run => run
    exact backed.of_eq same.spt rfl rfl

theorem Boot.backed (boot : Boot s) : Backed s := by
  refine ⟨fun {t p} owned => ?_, fun i bound given => ?_⟩
  · unfold State.Owns at owned
    rw [boot.unborn] at owned
    cases owned
  · rw [boot.frame i bound] at given
    exact absurd rfl given

/-- Loads stay clear of the stack page and no page at address 0 is brought in. -/
def Event.Regular (s : State) (event : Event) : Prop := event.ClearOfStack ∧ ¬event.MapsNull s

instance (s : State) (event : Event) : Decidable (event.Regular s) := inferInstanceAs (Decidable (_ ∧ ¬_))

theorem backed_of_step (sound : Sound s) (backed : Backed s) (regular : event.Regular s)
    (taken : step s event = some final) : Backed final := by
  have path := step_path sound regular.1 taken
  refine (path.keeps (fun here => Sound here ∧ Backed here) (fun here next before allowed => ?_) ⟨sound, backed⟩).2
  exact ⟨before.1.act allowed.fits, before.2.act before.1 allowed.fits fun null => regular.2 (allowed.null null)⟩

theorem regular_run {events : List Event} (boot : Boot s) (along : Along step Event.Regular s events)
    (reached : run step s events = some final) : Sound final ∧ Backed final := by
  refine invariant_of_run step (fun state => Sound state ∧ Backed state) ?_ ⟨boot.sound, boot.backed⟩ along reached
  intro state event next before regular taken
  exact ⟨before.1.step regular.1 taken, backed_of_step before.1 before.2 regular taken⟩

/-- What the frame table, the page entries and the page directories say of processes that have not begun to exit. -/
structure Agrees (s : State) : Prop where
  views : ∀ t, (s.threads t).phase = .running → ∀ i < totalPages, ∀ u p,
    ((s.frameTable i).upage = u ∧ (s.frameTable i).pagedir = (s.threads t).pagedir ∧
        (s.frameTable i).pagePointer = p) ↔
      (s.Owns t p ∧ (s.pages p).location = .inFrame ∧ (s.pages p).upage = u ∧
        (s.pages p).pagedir = (s.threads t).pagedir ∧ (s.pages p).kpage = (s.frameTable i).kpage ∧
        (s.pte (s.threads t).pagedir u).present = true ∧
        (s.pte (s.threads t).pagedir u).page = (s.frameTable i).kpage ∧
        (s.pte (s.threads t).pagedir u).writable = (s.pages p).writable)
  one_mapping : ∀ t u va other, (s.threads t).phase = .running → (s.threads u).phase = .running →
    (s.translate t va).present = true → (s.translate u other).present = true →
    (s.translate t va).page = (s.translate u other).page → t = u ∧ pgNo va = pgNo other
  one_frame : ∀ i < totalPages, ∀ j < totalPages, (s.frameTable i).pagedir ≠ 0 → (s.frameTable j).pagedir ≠ 0 →
    (s.frameTable i).pagePointer = (s.frameTable j).pagePointer → i = j
  unmapped : ∀ t p, (s.threads t).phase = .running → s.Owns t p →
    (s.pages p).location = .inSwap ∨ (s.pages p).location = .inFilesys →
    (s.pte (s.threads t).pagedir (s.pages p).upage).present = false

theorem Backed.entry_of_mapping (backed : Backed s) (sound : Sound s) {va : Nat}
    (running : (s.threads t).phase = .running) (present : (s.translate t va).present = true) :
    ∃ p, s.Owns t p ∧ (s.pages p).upage = pgRoundDown va ∧ ∃ i < totalPages,
      (s.frameTable i).kpage = (s.translate t va).page ∧ (s.frameTable i).pagePointer = p := by
  obtain ⟨p, owned, upage, located⟩ := sound.resident.mapped running present
  obtain ⟨given, maps⟩ := sound.resident.resident running owned located
  obtain ⟨i, bound, entry⟩ := backed.back owned located given
  refine ⟨p, owned, upage, i, bound, ?_, by rw [entry]⟩
  have sameNo : pgNo va = pgNo (s.pages p).upage := by rw [upage, pgNo_roundDown]
  rw [entry]
  exact maps.page.symm.trans (congrArg Pte.page (Pagedir.pte_eq_of_pgNo _ sameNo)).symm

theorem Backed.null_unmapped (backed : Backed s) (sound : Sound s) (running : (s.threads t).phase = .running) :
    (s.translate t 0).present = false := by
  by_contra present
  obtain ⟨p, owned, upage, located⟩ := sound.resident.mapped running (Bool.eq_true_of_not_eq_false present)
  obtain ⟨given, _⟩ := sound.resident.resident running owned located
  obtain ⟨i, bound, entry⟩ := backed.back owned located given
  refine backed.pos i bound ?_ ?_
  · rw [entry, sound.tables.pagedir owned]
    exact sound.tables.directory owned
  · rw [entry]
    exact upage

theorem Backed.agrees (backed : Backed s) (sound : Sound s) : Agrees s := by
  constructor
  case views =>
    intro t running i bound u p
    have directory := sound.tables.running running
    constructor
    · rintro ⟨rfl, pagedir, rfl⟩
      obtain ⟨owner, holds⟩ := sound.resident.entry i bound (pagedir ▸ directory)
      have ownDirectory : (s.threads owner).pagedir = (s.threads t).pagedir := by
        rw [← sound.tables.pagedir holds.owned, holds.pagedir, pagedir]
      have isOwner := sound.tables.exclusive (sound.tables.live holds.owned) (Or.inl running) ownDirectory
        (sound.tables.directory holds.owned)
      subst isOwner
      obtain ⟨_, maps⟩ := sound.resident.resident running holds.owned holds.located
      rw [← holds.upage, ← holds.kpage]
      exact ⟨holds.owned, holds.located, rfl, sound.tables.pagedir holds.owned, rfl, maps.present, maps.page,
        maps.writable⟩
    · rintro ⟨owned, located, rfl, pagedir, kpage, _⟩
      have given : (s.pages p).kpage ≠ 0 := kpage ▸ sound.frames.kpage_pos i bound
      obtain ⟨j, bound', entry⟩ := backed.back owned located given
      have same : i = j := sound.frames.kpage_inj i bound j bound' (by rw [entry]; exact kpage.symm)
      subst same
      rw [entry]
      exact ⟨rfl, pagedir, rfl⟩
  case one_mapping =>
    intro t u va other runningT runningU presentT presentU same
    obtain ⟨p, ownedP, upageP, i, boundI, kpageI, pointerI⟩ := backed.entry_of_mapping sound runningT presentT
    obtain ⟨q, ownedQ, upageQ, j, boundJ, kpageJ, pointerJ⟩ := backed.entry_of_mapping sound runningU presentU
    have isSame : i = j := sound.frames.kpage_inj i boundI j boundJ (by rw [kpageI, kpageJ, same])
    subst isSame
    have pages : p = q := pointerI.symm.trans pointerJ
    subst pages
    refine ⟨sound.tables.owner ownedP ownedQ, ?_⟩
    rw [← pgNo_roundDown va, ← pgNo_roundDown other, ← upageP, ← upageQ]
  case one_frame =>
    intro i boundI j boundJ givenI givenJ same
    exact sound.resident.page_of_other sound.frames boundJ boundI givenJ givenI same
  case unmapped =>
    intro t p running owned outside
    refine sound.unmapped running owned fun located => ?_
    rcases outside with swapped | filed
    · cases located.symm.trans swapped
    · cases located.symm.trans filed

/-- The three views agree in every state of a run in which no page at address 0 is brought in. -/
theorem residency_agrees {events : List Event} (boot : Boot s) (along : Along step Event.Regular s events)
    (reached : run step s events = some final) : Agrees final := by
  obtain ⟨sound, backed⟩ := regular_run boot along reached
  exact backed.agrees sound

def demoRun : List Event :=
  [.load 1 demoImage {}, .fault 1 0x08048000 (physBase - 16) true false {}, .write 1 0x08048010 9,
    .fault 1 0x08049004 (physBase - 16) true true {}, .fault 1 (physBase - 4100) (physBase - 4096) true true {},
    .read 1 0x08048010]

theorem residency_agrees_demoRun :
    ∃ final, run step (bootState 4096) demoRun = some final ∧ Agrees final := by
  have enabled : (run step (bootState 4096) demoRun).isSome = true := by decide +kernel
  obtain ⟨final, reached⟩ := Option.isSome_iff_exists.mp enabled
  exact ⟨final, reached, residency_agrees (bootState_boot 4096) (by decide +kernel) reached⟩

/-- Growing the stack into page 0 gives a frame that the next page-in is given again: two
pages of the process are then mapped to one frame. -/
theorem null_page_shares_frame :
    ∃ final, run step (bootState 4096) [.load 1 demoImage {}, .fault 1 4 36 true true {},
        .fault 1 0x08048000 36 true false {}] = some final ∧ ¬Agrees final := by
  have shared : (run step (bootState 4096) [.load 1 demoImage {}, .fault 1 4 36 true true {},
      .fault 1 0x08048000 36 true false {}]).any (fun final =>
        (final.threads 1).phase = .running ∧ (final.translate 1 4).present = true ∧
          (final.translate 1 0x08048000).present = true ∧
          (final.translate 1 4).page = (final.translate 1 0x08048000).page) = true := by
    decide +kernel
  obtain ⟨final, reached, facts⟩ := (Option.any_eq_true _ _).mp shared
  obtain ⟨running, low, high, same⟩ := of_decide_eq_true facts
  refine ⟨final, reached, fun agrees => ?_⟩
  have pages := (agrees.one_mapping 1 1 4 0x08048000 running running low high same).2
  exact absurd pages (by decide)

end Pintos.Vm
