import Pintos.Vm.Placement
import Pintos.Vm.SwapSlots

/-! How `page_fault` answers a fault on a page that is not present.

The process is ended, or the page is in a frame when the handler returns, as
long as `frame_find_empty` can give the page a frame. Page-ins that failed
before make `occupancy` too small; with every frame in use it then gives none,
and the growth of a stack returns as if nothing had been asked for.
-/

set_option autoImplicit false

namespace Pintos.Vm
open Semantics Computation

variable {s m final : State} {event : Event} {debt : Nat}

/-- The page of the address is mapped to the frame that its entry is in. -/
def Resolved (t addr : Nat) (s : State) : Prop :=
  ∃ p, s.hashFind t (pgRoundDown addr) = some p ∧ (s.pages p).location = .inFrame ∧
    (s.translate t addr).present = true ∧ (s.translate t addr).page = (s.pages p).kpage

def Answered (t addr : Nat) : Execution State Halt Unit → Prop
  | .returned _ after => Resolved t addr after
  | .stopped (.exit _) _ => True
  | .stopped .panic _ | .stopped .diverge _ => False

variable {t cur upage kpage target pagedir i : Nat}

theorem resolved_of_owned (sound : Sound s) {p addr : Nat} (running : (s.threads t).phase = .running)
    (owned : s.Owns t p) (upage : (s.pages p).upage = pgRoundDown addr) (located : (s.pages p).location = .inFrame) :
    Resolved t addr s := by
  obtain ⟨_, maps⟩ := sound.resident.resident running owned located
  have sameNo : pgNo addr = pgNo (s.pages p).upage := by rw [upage, pgNo_roundDown]
  have entry : s.translate t addr = s.pte (s.threads t).pagedir (s.pages p).upage := Pagedir.pte_eq_of_pgNo _ sameNo
  refine ⟨p, ?_, located, ?_, ?_⟩
  · cases found : s.hashFind t (pgRoundDown addr) with
    | none => exact absurd upage (hashFind_none found owned)
    | some q =>
      obtain ⟨ownedQ, upageQ⟩ := hashFind_some found
      rw [sound.tables.upage_inj ownedQ owned (upageQ.trans upage.symm)]
  · rw [entry]
    exact maps.present
  · rw [entry]
    exact maps.page

/-! ## Finding a frame -/

/-- A page can have a frame: a free one, or one whose page can go to swap. -/
def State.FrameAvailable (s : State) : Prop :=
  (∃ i < totalPages, (s.frameTable i).upage = 0) ∨ (s.occupancy = totalPages ∧ s.freeSlot.isSome = true)

theorem frame_found (sound : Sound s) (owing : Owing debt s) (available : s.FrameAvailable) :
    ∃ kpage m, frameFindEmpty s = .returned kpage m ∧ kpage ≠ 0 := by
  by_cases vacant : ∃ i < totalPages, (s.frameTable i).upage = 0
  · obtain ⟨i, bound, free⟩ := vacant
    obtain ⟨j, boundJ, _, found⟩ := finds_free (owing.below_total ⟨bound, free⟩) ⟨bound, free⟩
    exact ⟨_, _, found, sound.frames.kpage_pos j boundJ⟩
  · obtain ⟨counts, slot⟩ := available.resolve_left vacant
    obtain ⟨i, bound, after, evicted⟩ := frameEvict_full sound fun i bound free => vacant ⟨i, bound, free⟩
    rw [if_pos slot] at evicted
    refine ⟨_, after, ?_, sound.frames.kpage_pos i bound⟩
    unfold frameFindEmpty
    rw [bind_get, if_neg (by omega)]
    exact evicted

/-- Without one, the counter is too small and the answer is null, or there is no slot and an assertion fails. -/
theorem frame_missed (sound : Sound s) (owing : Owing debt s) (unavailable : ¬s.FrameAvailable) :
    (s.occupancy < totalPages ∧ frameFindEmpty s = .returned 0 s) ∨
      (¬s.occupancy < totalPages ∧ ∃ m, frameFindEmpty s = .stopped .panic m) := by
  have full : ∀ i < totalPages, (s.frameTable i).upage ≠ 0 :=
    fun i bound free => unavailable (Or.inl ⟨i, bound, free⟩)
  unfold frameFindEmpty
  rw [bind_get]
  by_cases below : s.occupancy < totalPages
  · refine Or.inl ⟨below, ?_⟩
    rw [if_pos below]
    cases found : s.firstFree with
    | none => rfl
    | some i => exact absurd (firstFree_spec found).2.1 (full i (firstFree_spec found).1)
  · refine Or.inr ⟨below, ?_⟩
    rw [if_neg below]
    obtain ⟨i, bound, after, evicted⟩ := frameEvict_full sound full
    have atMost : s.inUse.card ≤ totalPages := by
      have subset := Finset.card_filter_le (Finset.range totalPages) fun i => (s.frameTable i).upage ≠ 0
      rw [Finset.card_range] at subset
      exact subset
    have counts : s.occupancy = totalPages := by
      unfold Owing at owing
      omega
    rw [if_neg fun slot => unavailable (Or.inr ⟨counts, slot⟩)] at evicted
    exact ⟨after, evicted⟩

/-! ## Installing the page -/

theorem install_answered (kernel : KernelFrames m) (frames : Frames m) {addr : Nat} {env : Env}
    (sound : ∀ after, (do let _ ← pageInstallToFrame cur target upage kpage pagedir env : Kernel Unit) m = .returned () after → Sound after)
    (vacant : m.Vacant i) (isUpage : upage = (m.pages target).upage) (isKpage : kpage = (m.frameTable i).kpage)
    (isPagedir : pagedir = (m.pages target).pagedir) (running : (m.threads cur).phase = .running)
    (owned : m.Owns cur target) (isPage : upage = pgRoundDown addr) (user : upage < physBase)
    (directory : (m.threads cur).pagedir ≠ 0) (absent : (m.pte (m.threads cur).pagedir upage).present = false) :
    Answered cur addr ((do let _ ← pageInstallToFrame cur target upage kpage pagedir env : Kernel Unit) m) := by
  have aligned : pgOfs upage = 0 := isPage ▸ pgRoundDown_ofs addr
  have done := pageInstallToFrame_eq frames kernel env vacant isUpage isKpage isPagedir aligned user directory absent
  split at done
  · have returned : (do let _ ← pageInstallToFrame cur target upage kpage pagedir env : Kernel Unit) m =
        .returned () (m.installed cur target i) := bind_of_returned done
    have kept := SameTables.installed m cur target i
    rw [returned]
    refine resolved_of_owned (sound _ returned) running (kept.owns.mpr owned) ?_ ?_
    · rw [kept.upage, ← isUpage]
      exact isPage
    · rw [installed_page_self]
  · rw [bind_of_stopped done]
    trivial

/-! ## The cases of the handler -/

section Cases
variable {t addr : Nat} (env : Env)

variable {kpage target : Nat}

theorem frame_given (env : Env) (sound : Sound s) (kernel : KernelFrames s) (running : (s.threads t).phase = .running)
    (found : frameFindEmpty s = .returned kpage m) (given : kpage ≠ 0) :
    ∃ i, m.Vacant i ∧ kpage = (m.frameTable i).kpage ∧ Handed s m ∧ Sound m ∧ KernelFrames m ∧
      (m.threads t).phase = .running := by
  obtain ⟨path, handed, result⟩ : Path s (.fault t 0 0 true true env) False s m ∧ _ := find_leads sound found
  obtain ⟨i, vacant, isKpage⟩ := result.resolve_left fun none => given none.1
  exact ⟨i, vacant, isKpage, handed, path.sound sound, kernelFrames_of_path kernel path, handed.threads ▸ running⟩

theorem grow_answered (sound : Sound s) (kernel : KernelFrames s) (running : (s.threads t).phase = .running)
    (user : addr < physBase) (absent : s.hashFind t (pgRoundDown addr) = none)
    (found : frameFindEmpty s = .returned kpage m) (given : kpage ≠ 0) :
    Answered t addr (pageGrowStack t (pgRoundDown addr) env s) := by
  obtain ⟨i, vacant, rfl, handed, sound', before, running'⟩ := frame_given env sound kernel running found given
  have below : pgRoundDown addr < physBase := Nat.lt_of_le_of_lt (pgRoundDown_le addr) user
  have absent' : m.hashFind t (pgRoundDown addr) = none := by
    rw [handed.hashFind]
    exact absent
  have fits := stack_fits sound' running' (pgRoundDown_ofs addr) below absent' vacant
  have done := stack_eq sound' running' (pgRoundDown_ofs addr) below absent' vacant before env
  rw [pageGrowStack_found env found given]
  split at done
  · rw [bind_of_returned done]
    have same := SameTables.installed (m.built t (stackEntry (pgRoundDown addr) (m.threads t).pagedir .cleared)) t m.nextPage i
    have thread := built_thread sound'.tables t (stackEntry (pgRoundDown addr) (m.threads t).pagedir .cleared) t
    have owned := (owns_built sound'.tables t (stackEntry (pgRoundDown addr) (m.threads t).pagedir .cleared) t m.nextPage).mpr
      (Or.inr ⟨rfl, rfl, absent'⟩)
    refine resolved_of_owned (sound'.act fits) (thread.1.trans running') (same.owns.mpr owned) ((same.upage _).trans ?_) ?_
    · rw [built_new]
      rfl
    · exact congrArg Page.location (installed_page_self ..)
  · rw [bind_of_stopped done]
    trivial

theorem swap_answered (sound : Sound s) (kernel : KernelFrames s) (running : (s.threads t).phase = .running)
    (owned : s.Owns t target) (upage : (s.pages target).upage = pgRoundDown addr)
    (located : (s.pages target).location = .inSwap) (found : frameFindEmpty s = .returned kpage m) (given : kpage ≠ 0)
    (keeps : ∀ after, pageSwapInstall t target env s = .returned () after → Sound after) :
    Answered t addr (pageSwapInstall t target env s) := by
  obtain ⟨i, vacant, rfl, handed, sound', before, running'⟩ := frame_given env sound kernel running found given
  have owned' := handed.owns.mpr owned
  have same := handed.outside target (by rw [located]; decide)
  have located' : (m.pages target).location = .inSwap := by rw [same]; exact located
  obtain ⟨slot, has⟩ := sound'.slots.hasSlot running' owned' located'
  have inside : (m.pages target).swapLocation / 8 < m.slots := by
    rw [has.sector, Nat.mul_div_cancel _ (by decide)]
    exact (sound'.slots.used has).1
  have kept := SameTables.fetched m target i .inSwap
  have installs : pageSwapInstall t target env s =
      (do let _ ← pageInstallToFrame t target ((m.fetched target i .inSwap).pages target).upage (m.frameTable i).kpage
            ((m.fetched target i .inSwap).pages target).pagedir env : Kernel Unit) (m.fetched target i .inSwap) := by
    have read := swapRead_apply m target i
    rw [if_pos inside, located'] at read
    have nonzero : ((m.frameTable i).kpage != 0) = true := bne_iff_ne.mpr given
    unfold pageSwapInstall
    rw [bind_of_returned found, nonzero, bind_of_returned (assert_true m), bind_of_returned read]
    rfl
  have isPage : ((m.fetched target i .inSwap).pages target).upage = pgRoundDown addr := by
    rw [kept.upage, same, upage]
  have kernel' : KernelFrames (m.fetched target i .inSwap) := fun j bound => before j bound
  have frames : Frames (m.fetched target i .inSwap) := sound'.frames.of_same (fun _ => rfl) sound'.frames.clock
  have below : ((m.fetched target i .inSwap).pages target).upage < physBase := by
    rw [kept.upage]
    exact sound'.tables.user owned'
  have absent : ((m.fetched target i .inSwap).pte ((m.fetched target i .inSwap).threads t).pagedir
      ((m.fetched target i .inSwap).pages target).upage).present = false := by
    rw [kept.upage]
    exact sound'.unmapped running' owned' (by rw [located']; decide)
  rw [installs]
  rw [installs] at keeps
  exact install_answered kernel' frames keeps vacant rfl rfl rfl running' (kept.owns.mpr owned') isPage below
    (sound'.tables.running running') absent

theorem file_answered (sound : Sound s) (kernel : KernelFrames s) (running : (s.threads t).phase = .running)
    (owned : s.Owns t target) (upage : (s.pages target).upage = pgRoundDown addr)
    (located : (s.pages target).location = .inFilesys) (found : frameFindEmpty s = .returned kpage m)
    (given : kpage ≠ 0) (valid : (s.pages target).ofs < 2 ^ 31)
    (keeps : ∀ after, pageReadInstall t target env s = .returned () after → Sound after) :
    Answered t addr (pageReadInstall t target env s) := by
  obtain ⟨i, vacant, rfl, handed, sound', before, running'⟩ := frame_given env sound kernel running found given
  have owned' := handed.owns.mpr owned
  have same := handed.outside target (by rw [located]; decide)
  have split : pageReadInstall t target env s = readInstall t target (m.frameTable i).kpage env m :=
    bind_of_returned found
  rw [← same] at valid upage located
  rw [split] at keeps ⊢
  unfold readInstall at keeps ⊢
  rw [bind_get, bind_apply, fileReadAt_frame m _ _ _ _ given] at keeps ⊢
  simp only [if_pos valid] at keeps ⊢
  by_cases short : readAmount (m.files (m.pages target).file).length (m.pages target).ofs
    (m.pages target).pageReadBytes env.bounce = (m.pages target).pageReadBytes
  swap
  · rw [if_pos short, bind_modify]
    trivial
  rw [if_neg (not_not.mpr short), bind_of_returned (storeBytes_frame _ _ _ _ given _), setRam_setRam] at keeps ⊢
  generalize (fun o => if (m.pages target).pageReadBytes ≤ o ∧
    o < (m.pages target).pageReadBytes + (m.pages target).pageZeroBytes then _ else _) = bytes at keeps ⊢
  have kernel' : KernelFrames (m.setRam (m.frameTable i).kpage bytes) := fun j bound => before j bound
  have frames : Frames (m.setRam (m.frameTable i).kpage bytes) :=
    sound'.frames.of_same (fun _ => rfl) sound'.frames.clock
  exact install_answered kernel' frames keeps vacant rfl rfl rfl running' owned' upage (sound'.tables.user owned')
    (sound'.tables.running running') (sound'.unmapped running' owned' (by rw [located]; decide))

theorem storeBytes_unmapped (absent : (s.translate t 0).present = false) (start count : Nat) (bytes : Nat → UInt8) :
    storeBytes t 0 start count bytes s =
      if count = 0 then .returned () s else .stopped (.exit (-1)) (s.ending t (-1)) := by
  unfold storeBytes
  by_cases none : count = 0
  · rw [if_neg (not_not.mpr none), if_pos none]
    rfl
  · have ended := storeFrame_null s t
    rw [absent, if_neg Bool.false_ne_true] at ended
    rw [if_pos none, if_neg none]
    exact bind_of_stopped ended

/-- Without a frame, reading a page of the executable ends the process: there is at least one byte to store. -/
theorem file_unframed (absent : (s.translate t 0).present = false)
    (whole : (s.pages target).pageReadBytes + (s.pages target).pageZeroBytes = pgSize)
    (found : frameFindEmpty s = .returned 0 s) (valid : (s.pages target).ofs < 2 ^ 31) :
    Answered t addr (pageReadInstall t target env s) := by
  have split : pageReadInstall t target env s = readInstall t target 0 env s := bind_of_returned found
  rw [split]
  unfold readInstall fileReadAt
  rw [bind_get, decide_eq_true valid]
  simp only [bind_apply, assert_true, get_apply, storeBytes_unmapped absent]
  by_cases nothing : readAmount (s.files (s.pages target).file).length (s.pages target).ofs
    (s.pages target).pageReadBytes env.bounce = 0
  swap
  · rw [if_neg nothing]
    trivial
  rw [if_pos nothing, nothing]
  by_cases short : 0 = (s.pages target).pageReadBytes
  swap
  · simp only [pure_apply, if_pos short]
    trivial
  · have zeros : (s.pages target).pageZeroBytes ≠ 0 := by
      simp only [pgSize] at whole
      omega
    simp only [pure_apply, if_neg (not_not.mpr short), bind_apply, storeBytes_unmapped absent, if_neg zeros]
    trivial

end Cases

/-! ## What every run keeps -/

structure Steady (s : State) : Prop where
  sound : Sound s
  backed : Backed s
  whole : Whole s
  placed : Placed s
  kernel : KernelFrames s
  owing : ∃ debt, Owing debt s

theorem owing_of_step (sound : Sound s) (backed : Backed s) (owing : ∃ debt, Owing debt s) (regular : event.Regular s)
    (taken : step s event = some final) : ∃ debt, Owing debt final := by
  have path := step_path sound regular.1 taken
  refine (path.keeps (fun here => Sound here ∧ Backed here ∧ ∃ debt, Owing debt here)
    (fun here next before allowed => ?_) ⟨sound, backed, owing⟩).2.2
  obtain ⟨soundHere, backedHere, debt, owingHere⟩ := before
  have elsewhere : ¬next.AtNull here := fun null => regular.2 (allowed.null null)
  refine ⟨soundHere.act allowed.fits, backedHere.act soundHere allowed.fits elsewhere, ?_⟩
  by_cases matched : ∀ i, next ≠ .unmatched i
  · exact ⟨debt, owingHere.act soundHere backedHere allowed.fits elsewhere matched⟩
  · -- One more frame freed that was never installed.
    push Not at matched
    obtain ⟨i, rfl⟩ := matched
    exact ⟨debt + 1, owingHere.released allowed.fits⟩

theorem Steady.step (steady : Steady s) (regular : event.Regular s) (taken : step s event = some final) :
    Steady final := by
  have path := step_path steady.sound regular.1 taken
  refine ⟨steady.sound.step regular.1 taken, backed_of_step steady.sound steady.backed regular taken, ?_,
    placed_of_step steady.placed steady.sound regular.1 taken, kernelFrames_of_path steady.kernel path,
    owing_of_step steady.sound steady.backed steady.owing regular taken⟩
  refine (path.keeps (fun here => Sound here ∧ Whole here) (fun here next before allowed => ?_)
    ⟨steady.sound, steady.whole⟩).2
  exact ⟨before.1.act allowed.fits, before.2.act before.1.tables allowed.fits⟩

theorem Boot.steady (boot : Boot s) (kernel : KernelFrames s) : Steady s := by
  have none : ∀ t p, ¬s.Owns t p := by
    intro t p owned
    unfold State.Owns at owned
    rw [boot.unborn] at owned
    cases owned
  exact ⟨boot.sound, boot.backed, fun t p owned => absurd owned (none t p), fun t p _ owned => absurd owned (none t p),
    kernel, 0, counted_iff.mp boot.counted⟩

theorem steady_run {events : List Event} (boot : Boot s) (kernel : KernelFrames s)
    (along : Along step Event.Regular s events) (reached : run step s events = some final) : Steady final :=
  invariant_of_run Vm.step Steady (fun _ _ _ before regular taken => before.step regular taken) (boot.steady kernel)
    along reached

/-! ## The answer to a fault -/

/-- The handler kills the process, or can do what the place of the page asks for. A page of the executable that gets
no frame because the counter is too small ends the process as well. -/
def State.Servable (s : State) (t addr esp : Nat) (user : Bool) : Prop :=
  addr = 0 ∨ match s.hashFind t (pgRoundDown addr) with
    | none => s.growsStack t addr esp user → s.FrameAvailable
    | some p => ((s.pages p).location = .inSwap → s.FrameAvailable) ∧
        ((s.pages p).location = .inFilesys →
          (s.pages p).ofs < 2 ^ 31 ∧ (s.FrameAvailable ∨ s.occupancy < totalPages))

namespace Steady
variable (steady : Steady s) {t addr : Nat} (running : (s.threads t).phase = .running) (env : Env)
include steady running

theorem grow_iff (low : addr < physBase) (absent : s.hashFind t (pgRoundDown addr) = none) :
    Answered t addr (pageGrowStack t (pgRoundDown addr) env s) ↔ s.FrameAvailable := by
  obtain ⟨debt, owing⟩ := steady.owing
  constructor
  · intro answered
    by_contra unavailable
    rcases frame_missed steady.sound owing unavailable with ⟨_, found⟩ | ⟨_, last, found⟩
    · -- The handler returns with nothing done.
      have silent : pageGrowStack t (pgRoundDown addr) env s = .returned () s := bind_of_returned found
      rw [silent] at answered
      obtain ⟨p, there, _⟩ := answered
      cases absent.symm.trans there
    · have stopped : pageGrowStack t (pgRoundDown addr) env s = .stopped .panic last := bind_of_stopped found
      rw [stopped] at answered
      exact answered
  · intro available
    obtain ⟨kpage, last, found, given⟩ := frame_found steady.sound owing available
    exact grow_answered env steady.sound steady.kernel running low absent found given

theorem swap_iff {target : Nat} (owned : s.Owns t target) (upage : (s.pages target).upage = pgRoundDown addr)
    (located : (s.pages target).location = .inSwap)
    (keeps : ∀ after, pageSwapInstall t target env s = .returned () after → Sound after) :
    Answered t addr (pageSwapInstall t target env s) ↔ s.FrameAvailable := by
  obtain ⟨debt, owing⟩ := steady.owing
  constructor
  · intro answered
    by_contra unavailable
    unfold pageSwapInstall at answered
    rcases frame_missed steady.sound owing unavailable with ⟨_, found⟩ | ⟨_, last, found⟩
    · rw [bind_of_returned found] at answered
      exact answered
    · rw [bind_of_stopped found] at answered
      exact answered
  · intro available
    obtain ⟨kpage, last, found, given⟩ := frame_found steady.sound owing available
    exact swap_answered env steady.sound steady.kernel running owned upage located found given keeps

theorem file_iff {target : Nat} (owned : s.Owns t target) (upage : (s.pages target).upage = pgRoundDown addr)
    (located : (s.pages target).location = .inFilesys)
    (keeps : ∀ after, pageReadInstall t target env s = .returned () after → Sound after) :
    Answered t addr (pageReadInstall t target env s) ↔
      (s.pages target).ofs < 2 ^ 31 ∧ (s.FrameAvailable ∨ s.occupancy < totalPages) := by
  obtain ⟨debt, owing⟩ := steady.owing
  have split : pageReadInstall t target env = frameFindEmpty >>= fun kpage => readInstall t target kpage env := rfl
  constructor
  · intro answered
    rw [split] at answered
    constructor
    · by_contra invalid
      cases found : frameFindEmpty s with
      | stopped why last =>
        rw [bind_of_stopped found] at answered
        rcases frameFindEmpty_stopped found with rfl | rfl <;> exact answered
      | returned kpage last =>
        -- `file_seek` asserts that the position is not negative.
        obtain ⟨_, handed, _⟩ : Path s (.fault t addr 0 true true env) False s last ∧ _ := find_leads steady.sound found
        rw [← handed.outside target (by rw [located]; decide)] at invalid
        rw [bind_of_returned found] at answered
        unfold readInstall fileReadAt at answered
        rw [bind_get, decide_eq_false invalid] at answered
        exact answered
    · by_contra neither
      push Not at neither
      rcases frame_missed steady.sound owing neither.1 with ⟨below, _⟩ | ⟨_, last, found⟩
      · omega
      · rw [bind_of_stopped found] at answered
        exact answered
  · rintro ⟨valid, ways⟩
    by_cases available : s.FrameAvailable
    · obtain ⟨kpage, last, found, given⟩ := frame_found steady.sound owing available
      exact file_answered env steady.sound steady.kernel running owned upage located found given valid keeps
    · rcases frame_missed steady.sound owing available with ⟨_, found⟩ | ⟨counts, _⟩
      · exact file_unframed env (steady.backed.null_unmapped steady.sound running) (steady.whole t target owned located) found valid
      · exact absurd (ways.resolve_left available) counts

theorem answered_iff (low : addr < physBase) (absent : (s.translate t addr).present = false) (esp : Nat)
    (user : Bool) :
    Answered t addr (pageFault t addr esp true user env s) ↔ s.Servable t addr esp user := by
  have keeps : ∀ after, pageFault t addr esp true user env s = .returned () after → Sound after := by
    intro after returned
    have leads := fault_leads steady.sound running addr esp true user true env
    rw [returned] at leads
    exact leads.sound steady.sound
  unfold State.Servable
  by_cases null : addr = 0
  · have ended : pageFault t addr esp true user env s = .stopped (.exit (-1)) (s.ending t (-1)) := by
      unfold pageFault
      rw [if_pos (Or.inl null)]
      rfl
    rw [ended]
    exact ⟨fun _ => Or.inl null, fun _ => trivial⟩
  simp only [pageFault_user null low] at keeps ⊢
  rw [pageFaultIdentifier, bind_get] at keeps ⊢
  rw [or_iff_right null]
  cases lookup : s.hashFind t (pgRoundDown addr) with
  | none =>
    by_cases grows : s.growsStack t addr esp user
    · simp only [if_pos grows]
      rw [steady.grow_iff running env low lookup]
      exact ⟨fun available _ => available, fun available => available grows⟩
    · simp only [if_neg grows]
      exact ⟨fun _ asked => absurd asked grows, fun _ => trivial⟩
  | some target =>
    obtain ⟨owned, upage⟩ := hashFind_some lookup
    cases located : (s.pages target).location with
    | inSwap =>
      simp only [lookup, located] at keeps ⊢
      rw [steady.swap_iff running env owned upage located keeps]
      simp
    | inFilesys =>
      simp only [lookup, located] at keeps ⊢
      rw [steady.file_iff running env owned upage located keeps]
      simp
    | cleared => exact absurd located (steady.placed t target running owned)
    | inFrame =>
      -- Its page would be present.
      obtain ⟨_, _, _, present, _⟩ := resolved_of_owned steady.sound running owned upage located
      cases absent.symm.trans present

end Steady

theorem bootState_kernel (bytes : Nat) : KernelFrames (bootState bytes) := by
  intro i bound
  simp only [bootState, pgOfs, pgSize, physBase]
  simp

def State.refusedLoad (s : State) (t pagedir i : Nat) : State :=
  (((s.spawn t pagedir).built t (stackEntry stackPage pagedir .inFrame)).released i).ending t (-532)

theorem step_refusedLoad (sound : Sound s) (kernel : KernelFrames s) (unborn : (s.threads t).phase = .unborn)
    (given : pagedir ≠ 0) (fresh : pagedir ∉ s.directories) (below : s.occupancy < totalPages) (vacant : s.Vacant i) :
    ∃ j, s.Vacant j ∧
      step s (.load t { demoImage with phdrs := [], pagedir := pagedir } { pageTable := false }) =
        some (s.refusedLoad t pagedir j) := by
  have fits : Move.Fits s (.spawn t pagedir) := ⟨unborn, given, fresh⟩
  have spawned : Sound (s.spawn t pagedir) := sound.act fits
  have replaced := replaced_spawn s t given
  have equation := spawn_eq s t given
  have absent : (s.spawn t pagedir).hashFind t stackPage = none :=
    hashFind_of_none fun p owned => absurd rfl (replaced.owns.mp owned).1
  have below' : (s.spawn t pagedir).occupancy < totalPages := by rw [equation]; exact below
  have vacant' : (s.spawn t pagedir).Vacant i := by rw [equation]; exact vacant
  obtain ⟨j, bound, free, found⟩ := finds_free below' vacant'
  have thread : ((s.spawn t pagedir).threads t).pagedir = pagedir := by rw [replaced.self]
  have running : ((s.spawn t pagedir).threads t).phase = .running := by rw [replaced.self]
  have kernel' : KernelFrames (s.spawn t pagedir) := by rw [equation]; exact kernel
  have failed := stack_eq spawned running (by decide) (by decide) absent ⟨bound, free⟩ kernel' { pageTable := false }
  have missing : ((s.spawn t pagedir).pagedirs pagedir).table (pdNo stackPage) = none := by
    rw [equation]
    simp [Pagedir.empty]
  rw [thread, missing, if_neg (by simp)] at failed
  refine ⟨j, by rw [equation] at free; exact ⟨bound, free⟩, ?_⟩
  have stopped : startProcess t { demoImage with phdrs := [], pagedir := pagedir } { pageTable := false }
      (s.spawn t pagedir) = .stopped (.exit (-532)) (s.refusedLoad t pagedir j) := by
    unfold startProcess
    refine bind_of_stopped ?_
    rw [load_of_no_segments t _ given rfl rfl, setupStack_found _ rfl found (spawned.frames.kpage_pos j bound), thread]
    exact bind_of_stopped failed
  simp only [step]
  rw [if_pos ⟨unborn, fresh⟩, stopped]
  rfl

theorem Owing.refusedLoad (owing : Owing debt s) (sound : Sound s) (backed : Backed s)
    (unborn : (s.threads t).phase = .unborn) (given : pagedir ≠ 0) (fresh : pagedir ∉ s.directories)
    (vacant : s.Vacant i) : Owing (debt + 1) (s.refusedLoad t pagedir i) := by
  have fits : Move.Fits s (.spawn t pagedir) := ⟨unborn, given, fresh⟩
  have spawned : Owing debt (s.spawn t pagedir) := owing.act sound backed fits id (by simp)
  have built : Owing debt ((s.spawn t pagedir).built t (stackEntry stackPage pagedir .inFrame)) :=
    spawned.of_eq (built_frameTable _ _ _) (by rw [built_eq])
  refine (built.released ?_).of_eq rfl rfl
  unfold State.Vacant
  rw [built_frameTable, spawn_eq s t given]
  exact vacant

theorem refusedLoad_rest (sound : Sound s) (i : Nat) (unborn : (s.threads t).phase = .unborn) (given : pagedir ≠ 0)
    (fresh : pagedir ∉ s.directories) :
    ((s.refusedLoad t pagedir i).threads t).phase = .exiting ∧
      (∀ u, u ≠ t → (s.refusedLoad t pagedir i).threads u = s.threads u) ∧
      (s.refusedLoad t pagedir i).directories = pagedir :: s.directories ∧
      (s.refusedLoad t pagedir i).freeBitmap = s.freeBitmap ∧ (s.refusedLoad t pagedir i).slots = s.slots := by
  have fits : Move.Fits s (.spawn t pagedir) := ⟨unborn, given, fresh⟩
  have spawned : Sound (s.spawn t pagedir) := sound.act fits
  have equation := spawn_eq s t given
  have others : ∀ u, u ≠ t → ((s.spawn t pagedir).built t (stackEntry stackPage pagedir .inFrame)).threads u =
      s.threads u := by
    intro u other
    rw [built_threads spawned.tables]
    split
    · rw [Function.update_of_ne other, (replaced_spawn s t given).other other]
    · exact (replaced_spawn s t given).other other
  refine ⟨by simp [State.refusedLoad, State.ending], fun u other => ?_, ?_, ?_, ?_⟩
  · rw [← others u other]
    exact Function.update_of_ne other _ _
  all_goals
    unfold State.refusedLoad State.ending State.released
    rw [built_eq, equation]
    rfl

theorem threadExit_directories (s : State) (t : Nat) : (s.threadExit t).directories ⊆ s.directories := by
  have unfolded : s.threadExit t = ((s.threads t).spt.foldl State.clearPage s).left t := rfl
  have rest : ∀ (list : List Nat) (m : State), (list.foldl State.clearPage m).directories = m.directories := by
    intro list
    induction list with
    | nil => exact fun _ => rfl
    | cons p rest ih =>
      intro m
      rw [List.foldl_cons, ih, clearPage_eq]
      split <;> rfl
  rw [unfolded, left_eq]
  dsimp only
  rw [rest]
  split
  · exact List.Subset.refl _
  · exact List.erase_subset

theorem Sound.inUse_of_no_pages (sound : Sound s) (none : ∀ t p, ¬s.Owns t p) : s.inUse = ∅ := by
  refine Finset.eq_empty_of_forall_notMem fun i member => ?_
  obtain ⟨bound, used⟩ := mem_inUse.mp member
  have given : (s.frameTable i).pagedir ≠ 0 := fun zero => used (sound.resident.unused i bound zero)
  obtain ⟨t, holds⟩ := sound.resident.entry i bound given
  exact none t _ holds.owned

/-- What is left once that process has exited: the counter is too small by one, and no process has a page. -/
theorem alone_behind :
    ∃ events after, run step (bootState 0) events = some after ∧ (after.threads 1).phase = .unborn ∧
      5 ∉ after.directories ∧ Alone 0 ((after.spawn 1 5).credited 1) := by
  have boot := bootState_boot 0
  have kernel := bootState_kernel 0
  have vacant : (bootState 0).Vacant 0 := ⟨by decide, rfl⟩
  have given : (6 : Nat) ≠ 0 := by decide
  have free : 6 ∉ (bootState 0).directories := List.not_mem_nil
  have idle : ((bootState 0).threads 2).phase = .unborn := rfl
  obtain ⟨j, vacantJ, loads⟩ := step_refusedLoad boot.sound kernel idle given free
    (by decide : (0 : Int) < totalPages) vacant
  obtain ⟨exiting, others, directories, bits, slots⟩ := refusedLoad_rest boot.sound j idle given free
  have owing := (counted_iff.mp boot.counted).refusedLoad boot.sound boot.backed idle given free vacantJ
  have regular : Event.Regular (bootState 0) (.load 2 { demoImage with phdrs := [], pagedir := 6 }
      { pageTable := false }) := ⟨fun _ listed => absurd listed List.not_mem_nil, id⟩
  have steady := (boot.steady kernel).step regular loads
  generalize (bootState 0).refusedLoad 2 6 j = loaded at *
  have live : (loaded.threads 2).live := Or.inr exiting
  have exits : step loaded (.exit 2) = some (loaded.threadExit 2) := if_pos live
  have steady' := steady.step (⟨trivial, id⟩ : Event.Regular loaded (.exit 2)) exits
  have owing' : Owing 1 (loaded.threadExit 2) :=
    owing.path steady.sound steady.backed (id : ¬Event.MapsNull loaded (.exit 2)) id (exit_path live)
  obtain ⟨bits', slots', own, rest⟩ := threadExit_leaves loaded 2
  have smaller := threadExit_directories loaded 2
  rw [directories] at smaller
  refine ⟨[_, _], _, (run_cons_some step).mpr ⟨loaded, loads, (run_cons_some step).mpr ⟨_, exits, rfl⟩⟩, ?_⟩
  generalize loaded.threadExit 2 = left at *
  have thread : ∀ u, u ≠ 2 → left.threads u = {} := fun u other => (rest u other).trans (others u other)
  have bare : ∀ u, (left.threads u).spt = [] := by
    intro u
    by_cases self : u = 2
    · rw [self, own]
    · rw [thread u self]
  have unborn : (left.threads 1).phase = .unborn := by rw [thread 1 (by decide)]
  have fresh : 5 ∉ left.directories := fun listed => by simpa [bootState] using smaller listed
  refine ⟨unborn, fresh, ?_⟩
  have fits : Move.Fits left (.spawn 1 5) := ⟨unborn, by decide, fresh⟩
  have replaced := replaced_spawn left 1 (by decide : (5 : Nat) ≠ 0)
  have equation := spawn_eq left 1 (by decide : (5 : Nat) ≠ 0)
  have sound : Sound (left.spawn 1 5) := steady'.sound.act fits
  have owed : Owing 1 (left.spawn 1 5) := owing'.act steady'.sound steady'.backed fits id (by simp)
  have none : ∀ t p, ¬(left.spawn 1 5).Owns t p := by
    intro t p owned
    have before := (replaced.owns.mp owned).2
    unfold State.Owns at before
    rw [bare t] at before
    cases before
  have counter : (left.spawn 1 5).occupancy + (1 : Nat) = (0 : Nat) := by
    unfold Owing at owed
    rw [sound.inUse_of_no_pages none] at owed
    exact owed
  refine ⟨sound_credited.mpr sound, (steady'.backed.act steady'.sound fits id).of_eq (fun _ => rfl) rfl rfl, owed, ?_,
    by rw [State.credited, replaced.self], fun t other => ?_, counter, fun p owned => absurd owned (none 1 p), ?_, ?_⟩
  · rw [equation]
    exact steady'.kernel
  · rw [State.credited, replaced.other other]
    exact bare t
  · intro slot
    rw [equation]
    exact (congrFun (bits'.trans bits) slot).trans rfl
  · rw [equation]
    change 0 < left.slots
    rw [slots', slots]
    decide

end Pintos.Vm
