import Pintos.Vm.Occupancy

/-! Page-ins that succeed.

A fault just below the stack pointer of a process gets its page as long as a
frame can be found: the system then takes the step that brings the page in.
-/

set_option autoImplicit false

namespace Pintos.Vm
open Semantics Computation

variable {s m final : State}

/-- The frames are pages of the kernel's address range. -/
def KernelFrames (s : State) : Prop := ∀ i < totalPages, pgOfs (s.frameTable i).kpage = 0 ∧ physBase ≤ (s.frameTable i).kpage

variable {cur upage kpage i : Nat} {image : Image}

/-- `install_page` of a page that is not mapped needs a page table, an old one or a new one. -/
theorem installPage_eq (writable allocated : Bool) (alignedUpage : pgOfs upage = 0) (alignedKpage : pgOfs kpage = 0)
    (user : upage < physBase) (kernel : physBase ≤ kpage) (directory : (s.threads cur).pagedir ≠ 0)
    (absent : (s.pte (s.threads cur).pagedir upage).present = false) :
    installPage cur upage kpage writable allocated s =
      if ((s.pagedirs (s.threads cur).pagedir).table (pdNo upage)).isSome || allocated then
        .returned true (s.setPte (s.threads cur).pagedir upage { present := true, page := kpage, writable := writable })
      else .returned false s := by
  unfold installPage pagedirGetPage pagedirSetPage lookupPage isUserVaddr isKernelVaddr
  rw [bind_get, decide_eq_true user, decide_eq_true kernel, bne_iff_ne.mpr directory, beq_iff_eq.mpr alignedUpage,
    beq_iff_eq.mpr alignedKpage]
  simp only [bind_apply, assert_true, get_apply, pure_apply, absent, Bool.false_eq_true, if_false, if_true, Bool.not_false]
  split
  · simp only [bind_apply, assert_true, modify_apply, pure_apply]
  · rfl

/-- `page_install_to_frame` of a page that is not mapped: installed, or the process is ended for want of a page table. -/
theorem pageInstallToFrame_eq (frames : Frames s) (kernel : KernelFrames s) {target pagedir : Nat} (env : Env)
    (vacant : s.Vacant i) (isUpage : upage = (s.pages target).upage) (isKpage : kpage = (s.frameTable i).kpage)
    (isPagedir : pagedir = (s.pages target).pagedir) (aligned : pgOfs upage = 0) (user : upage < physBase)
    (directory : (s.threads cur).pagedir ≠ 0) (absent : (s.pte (s.threads cur).pagedir upage).present = false) :
    pageInstallToFrame cur target upage kpage pagedir env s =
      if ((s.pagedirs (s.threads cur).pagedir).table (pdNo upage)).isSome || env.pageTable then
        .returned true (s.installed cur target i)
      else .stopped (.exit (-532)) ((s.released i).ending cur (-532)) := by
  subst isUpage isKpage isPagedir
  have mapped := installPage_eq (s.pages target).writable env.pageTable aligned (kernel i vacant.1).1 user
    (kernel i vacant.1).2 directory absent
  unfold pageInstallToFrame
  rw [bind_get]
  split at mapped <;> rename_i table
  · have filled := frameInstall_of_mapped frames cur (s.pages target).upage (s.pages target).pagedir target
      (s.pages target).writable env.pageTable vacant.1 vacant.2 mapped
    rw [if_pos table, bind_of_returned filled]
    rfl
  · have refused : frameInstall cur (s.pages target).upage (s.frameTable i).kpage (s.pages target).pagedir
        (s.pages target).writable target env.pageTable s = .returned false s := bind_of_returned mapped
    rw [if_neg table, bind_of_returned refused]
    simp only [Bool.not_false, if_true, bind_modify, frameFree_of_frame frames vacant.1]
    rfl

section Stack
variable (sound : Sound m) (running : (m.threads cur).phase = .running) (aligned : pgOfs upage = 0)
  (user : upage < physBase) (absent : m.hashFind cur upage = none) (vacant : m.Vacant i)
include sound running aligned user absent vacant

theorem stack_fits : Move.Fits m (.growIn cur upage i) :=
  ⟨buildable_stack (Or.inl running) (sound.tables.running running) aligned user (by decide) (by simp) (by decide), running,
    vacant, absent, sound.pte_absent running aligned absent⟩

theorem stack_eq (kernel : KernelFrames m) (env : Env) :
    pageInstallToFrame cur m.nextPage upage (m.frameTable i).kpage (m.threads cur).pagedir env
        (m.built cur (stackEntry upage (m.threads cur).pagedir .inFrame)) =
      if ((m.pagedirs (m.threads cur).pagedir).table (pdNo upage)).isSome || env.pageTable then
        .returned true (m.act (.growIn cur upage i))
      else .stopped (.exit (-532))
        (((m.built cur (stackEntry upage (m.threads cur).pagedir .inFrame)).released i).ending cur (-532)) := by
  have entry := built_new m cur (stackEntry upage (m.threads cur).pagedir .inFrame)
  have frame := built_frameTable m cur (stackEntry upage (m.threads cur).pagedir .inFrame)
  have pagedir := (built_thread sound.tables cur (stackEntry upage (m.threads cur).pagedir .inFrame) cur).2
  have directories : (m.built cur (stackEntry upage (m.threads cur).pagedir .inFrame)).pagedirs = m.pagedirs := by
    rw [built_eq]
  have vacant' : (m.built cur (stackEntry upage (m.threads cur).pagedir .inFrame)).Vacant i := by
    unfold State.Vacant
    rw [frame]
    exact vacant
  have kernel' : KernelFrames (m.built cur (stackEntry upage (m.threads cur).pagedir .inFrame)) := by
    unfold KernelFrames
    rw [frame]
    exact kernel
  have installs := pageInstallToFrame_eq (sound.frames.built cur _) kernel' env vacant' (congrArg Page.upage entry).symm
    (by rw [frame]) (congrArg Page.pagedir entry).symm aligned user (by rw [pagedir]; exact sound.tables.running running)
    (by rw [pagedir, pte_built]; exact sound.pte_absent running aligned absent)
  rw [directories, pagedir, installed_built sound.tables cur i upage (m.threads cur).pagedir .inFrame] at installs
  exact installs

theorem stack_ok (kernel : KernelFrames m) :
    pageInstallToFrame cur m.nextPage upage (m.frameTable i).kpage (m.threads cur).pagedir {}
        (m.built cur (stackEntry upage (m.threads cur).pagedir .inFrame)) =
      .returned true (m.act (.growIn cur upage i)) := by
  rw [stack_eq sound running aligned user absent vacant kernel, if_pos (by simp)]

end Stack

theorem kernelFrames_of_path {event : Event} {failing : Prop} (kernel : KernelFrames s)
    (path : Path m event failing s final) : KernelFrames final := by
  refine path.keeps KernelFrames (fun here next before _ i bound => ?_) kernel
  rw [act_kpage]
  exact before i bound

theorem pageFault_grows {t addr : Nat} (nonzero : 32 ≤ addr) (user : addr < physBase)
    (absent : s.hashFind t (pgRoundDown addr) = none) (env : Env) :
    pageFault t addr addr true true env s = pageGrowStack t (pgRoundDown addr) env s := by
  have grows : s.growsStack t addr addr true := by
    unfold State.growsStack ptrSub
    have small : addr < 2 ^ 32 := Nat.lt_trans user (by decide)
    simp only [if_true]
    omega
  rw [pageFault_user (by omega) user, pageFaultIdentifier, bind_get, absent]
  dsimp only
  rw [if_pos grows]

/-- A fault at the stack pointer brings a new page in when `frame_find_empty` gives a frame. -/
theorem grow_step (sound : Sound s) (kernel : KernelFrames s) {t addr : Nat}
    (running : (s.threads t).phase = .running) (nonzero : 32 ≤ addr) (user : addr < physBase)
    (absent : s.hashFind t (pgRoundDown addr) = none) (found : frameFindEmpty s = .returned kpage m)
    (given : kpage ≠ 0) :
    ∃ i, m.Vacant i ∧ kpage = (m.frameTable i).kpage ∧ Move.Fits m (.growIn t (pgRoundDown addr) i) ∧
      step s (.fault t addr addr true true {}) = some (m.act (.growIn t (pgRoundDown addr) i)) := by
  obtain ⟨path, handed, result⟩ : Path s (.fault t addr addr true true {}) False s m ∧ _ := find_leads sound found
  obtain ⟨i, vacant, isKpage⟩ : ∃ i, m.Vacant i ∧ kpage = (m.frameTable i).kpage :=
    result.resolve_left fun none => given none.1
  subst isKpage
  have kept : m.hashFind t (pgRoundDown addr) = none := by
    rw [handed.hashFind]
    exact absent
  have here : (m.threads t).phase = .running := handed.threads ▸ running
  have below := Nat.lt_of_le_of_lt (pgRoundDown_le addr) user
  refine ⟨i, vacant, rfl, stack_fits (path.sound sound) here (pgRoundDown_ofs addr) below kept vacant, ?_⟩
  have unmapped := sound.translate_absent running absent
  have inaccessible : s.accessible t addr true = false := by
    simp [State.accessible, unmapped]
  simp only [step, running, inaccessible, and_self, if_true]
  rw [unmapped, Bool.not_false, pageFault_grows nonzero user absent, pageGrowStack_found {} found given,
    bind_of_returned (stack_ok (path.sound sound) here (pgRoundDown_ofs addr) below kept vacant
      (kernelFrames_of_path kernel path))]
  rfl

theorem setupStack_ok (sound : Sound m) (kernel : KernelFrames m) (running : (m.threads cur).phase = .running)
    (absent : m.hashFind cur stackPage = none) (vacant : m.Vacant i)
    (found : frameFindEmpty m = .returned (m.frameTable i).kpage m) (copied : image.copyPage = true) :
    setupStack cur image {} m =
      .returned image.argsFit ((m.act (.growIn cur stackPage i)).setRam (m.frameTable i).kpage fun o =>
        (image.args o).getD ((m.act (.growIn cur stackPage i)).ram (m.frameTable i).kpage o)) := by
  have done := stack_ok sound running (by decide : pgOfs stackPage = 0) (by decide) absent vacant kernel
  rw [setupStack_found {} copied found (sound.frames.kpage_pos i vacant.1), bind_of_returned done]
  rfl

theorem load_of_no_segments (cur : Nat) (env : Env) (given : image.pagedir ≠ 0) (accepted : image.accepted = true)
    (none : image.phdrs = []) : load cur image env = setupStack cur image env := by
  unfold load
  rw [if_neg (by simp [given, accepted]), none]
  rfl

theorem step_load {s final : State} {env : Env} (unborn : (s.threads cur).phase = .unborn)
    (fresh : image.pagedir ∉ s.directories)
    (loaded : load cur image env (s.spawn cur image.pagedir) = .returned true final) :
    step s (.load cur image env) = some final := by
  have success : startProcess cur image env (s.spawn cur image.pagedir) = .returned () final := by
    unfold startProcess
    rw [bind_of_returned loaded]
    rfl
  simp only [step]
  rw [if_pos ⟨unborn, fresh⟩, success]
  rfl

end Pintos.Vm
