import Pintos.Vm.Steps

/-! Each event of the system as a chain of moves, and the invariants of every run.

A load is a chain only when no segment of the executable reaches into the stack
page: `setup_stack` would otherwise install an entry that `page_add` refused.
-/

set_option autoImplicit false

namespace Pintos.Vm
open Semantics Computation

variable {s m final : State} {event : Event}

/-! ## Faults and accesses -/

theorem pgRoundDown_user {va : Nat} (user : isKernelVaddr va ≠ true) : pgRoundDown va < physBase := by
  have below := pgRoundDown_le va
  have inside : ¬physBase ≤ va := fun high => user (decide_eq_true high)
  omega

variable {t upage cur readBytes zeroBytes : Nat} {image : Image}

theorem pageFault_user {addr : Nat} (nonzero : addr ≠ 0) (low : addr < physBase) (esp : Nat) (user : Bool) (env : Env) :
    pageFault t addr esp true user env s = pageFaultIdentifier t addr esp user env s := by
  unfold pageFault isKernelVaddr
  rw [if_neg]
  simp only [decide_eq_true_eq, Bool.not_true, Bool.false_eq_true, or_false]
  omega

theorem fault_leads (sound : Sound s) (running : (s.threads t).phase = .running) (addr esp : Nat)
    (notPresent user write : Bool) (env : Env) :
    Leads s (.fault t addr esp user write env) s (pageFault t addr esp notPresent user env s) := by
  unfold pageFault
  by_cases bad : addr = 0 ∨ isKernelVaddr addr = true ∨ (!notPresent) = true
  · rw [if_pos bad]
    exact leads_ending s (Or.inl running) (-1)
  rw [if_neg bad]
  have nonzero : addr ≠ 0 := fun zero => bad (Or.inl zero)
  have kernel : isKernelVaddr addr ≠ true := fun inside => bad (Or.inr (Or.inl inside))
  unfold pageFaultIdentifier
  rw [bind_get]
  cases lookup : s.hashFind t (pgRoundDown addr) with
  | none =>
    by_cases grows : s.growsStack t addr esp user
    · dsimp only
      rw [if_pos grows]
      exact pageGrowStack_leads sound env running (pgRoundDown_ofs addr) (pgRoundDown_user kernel) lookup
        (fun null => ⟨nonzero, null, Or.inr grows⟩) ⟨rfl, rfl⟩
    · dsimp only
      rw [if_neg grows]
      exact leads_ending s (Or.inl running) (-1)
  | some target =>
    obtain ⟨owned, upage⟩ := hashFind_some lookup
    have null : (s.pages target).upage = 0 → Event.MapsNull s (.fault t addr esp user write env) := by
      intro zero
      have isNull : pgRoundDown addr = 0 := upage ▸ zero
      rw [isNull] at lookup
      exact ⟨nonzero, isNull, Or.inl (by rw [lookup]; rfl)⟩
    cases located : (s.pages target).location with
    | inSwap =>
      simp only [located]
      exact pageSwapInstall_leads sound env running owned located null
    | inFilesys =>
      simp only [located]
      exact pageReadInstall_leads sound env running owned located null fun mapped => mapped
    | cleared | inFrame =>
      simp only [located]
      exact .stay _

theorem touch_path {failing : Prop} (clock : firstEvictable ≤ s.clockPointer ∧ s.clockPointer < totalPages)
    (t addr : Nat) : Path s event failing s (s.touch t addr) := by
  have looks : Move.Fits s (.glance (s.touch t addr).pagedirs s.clockPointer) :=
    ⟨glanced_setAccessed s _ _ true, clock⟩
  exact Chain.single (Move.glance _ _) (.plain looks trivial)

theorem Sound.accessed (sound : Sound s) {addr : Nat} {write : Bool} (running : (s.threads t).phase = .running)
    (accessible : s.accessible t addr write = true) :
    ∃ p, s.Owns t p ∧ (s.pages p).upage = pgRoundDown addr ∧ (s.pages p).location = .inFrame ∧
      (s.translate t addr).page = (s.pages p).kpage := by
  have present : (s.translate t addr).present = true := by
    unfold State.accessible at accessible
    simp only [Bool.and_eq_true] at accessible
    exact accessible.1.2
  obtain ⟨p, owned, upage, located⟩ := sound.resident.mapped running present
  obtain ⟨_, maps⟩ := sound.resident.resident running owned located
  refine ⟨p, owned, upage, located, ?_⟩
  have page := maps.page
  rw [upage] at page
  rw [← page]
  have sameNo : pgNo addr = pgNo (pgRoundDown addr) := (pgNo_roundDown addr).symm
  exact congrArg Pte.page (Pagedir.pte_eq_of_pgNo _ sameNo)

theorem Sound.translate_absent (sound : Sound s) {addr : Nat} (running : (s.threads t).phase = .running)
    (absent : s.hashFind t (pgRoundDown addr) = none) : (s.translate t addr).present = false := by
  by_contra present
  obtain ⟨p, owned, isUpage, _⟩ := sound.resident.mapped running (Bool.eq_true_of_not_eq_false present)
  exact hashFind_none absent owned isUpage

theorem Sound.pte_absent (sound : Sound s) (running : (s.threads t).phase = .running) (aligned : pgOfs upage = 0)
    (absent : s.hashFind t upage = none) :
    (s.pte (s.threads t).pagedir upage).present = false := by
  rw [← pgRoundDown_aligned aligned] at absent
  exact sound.translate_absent running absent

theorem Sound.unmapped (sound : Sound s) {p : Nat} (running : (s.threads t).phase = .running) (owned : s.Owns t p)
    (outside : (s.pages p).location ≠ .inFrame) :
    (s.pte (s.threads t).pagedir (s.pages p).upage).present = false := by
  by_contra present
  obtain ⟨q, ownedQ, upage, located⟩ := sound.resident.mapped running (Bool.eq_true_of_not_eq_false present)
  rw [pgRoundDown_aligned (sound.tables.aligned owned)] at upage
  rw [sound.tables.upage_inj ownedQ owned upage] at located
  exact outside located

/-! ## Loading -/

def Image.ClearOfStack (image : Image) : Prop :=
  ∀ phdr ∈ image.phdrs, phdr.pType = ptLoad → phdr.vaddr + phdr.memsz ≤ stackPage

instance (image : Image) : Decidable image.ClearOfStack :=
  inferInstanceAs (Decidable (∀ phdr ∈ image.phdrs, _ → _))

/-- Where the code before `setup_stack` leaves the state of a load. -/
def Loads {A : Type} (s : State) (event : Event) (cur : Nat) (m : State) : Execution State Halt A → Prop
  | .returned _ final => Path s event False m final ∧ (final.threads cur).phase = .running ∧
      final.hashFind cur stackPage = none
  | .stopped why _ => why = .panic ∨ why = .diverge

theorem Loads.bind {A B : Type} {first : Kernel A} {next : A → Kernel B} (loads : Loads s event cur m (first m))
    (rest : ∀ value after, first m = .returned value after → Path s event False m after → (after.threads cur).phase = .running → after.hashFind cur stackPage = none → Loads s event cur after (next value after)) :
    Loads s event cur m ((first >>= next) m) := by
  cases done : first m with
  | stopped why after =>
    rw [bind_of_stopped done]
    rw [done] at loads
    exact loads
  | returned value after =>
    rw [bind_of_returned done]
    rw [done] at loads
    obtain ⟨path, running, absent⟩ := loads
    have further := rest value after done path running absent
    cases finished : next value after with
    | stopped why last =>
      rw [finished] at further
      exact further
    | returned result last =>
      rw [finished] at further
      exact ⟨path.trans further.1, further.2⟩

/-- The bytes of a segment end where they should, whatever the split into read and zero bytes. -/
theorem Phdr.bytes_bound {phdr : Phdr} (valid : phdr.filesz ≤ phdr.memsz) (clear : phdr.vaddr + phdr.memsz ≤ stackPage) :
    pgRoundDown phdr.vaddr + (phdr.readBytes + phdr.zeroBytes) ≤ stackPage := by
  unfold Phdr.zeroBytes Phdr.readBytes roundUp ptrAdd ptrSub pgOfs pgRoundDown
  simp only [stackPage, physBase, pgSize] at *
  split <;> omega

theorem hashFind_of_none (absent : ∀ p, s.Owns t p → (s.pages p).upage ≠ upage) :
    s.hashFind t upage = none := by
  refine List.find?_eq_none.mpr fun p owned => ?_
  simpa using absent p owned

def segmentEntry (upage file pagedir ofs pageReadBytes pageZeroBytes : Nat) (writable : Bool) : Page :=
  { upage := upage, file := file, writable := writable, pageReadBytes := pageReadBytes, pageZeroBytes := pageZeroBytes,
    location := .inFilesys, swapLocation := noSlot, ofs := ofs, pagedir := pagedir }

theorem segment_built (loading : event.Loads) (sound : Sound m) (running : (m.threads cur).phase = .running)
    (absent : m.hashFind cur stackPage = none) {page : Page} (fits : Buildable m cur page)
    (below : page.upage < stackPage) :
    Path s event False m (m.built cur page) ∧ ((m.built cur page).threads cur).phase = .running ∧
      (m.built cur page).hashFind cur stackPage = none := by
  have allowed : Allowed s event False m (.build cur page) := .building fits fun _ => loading
  refine ⟨.single _ allowed, (built_thread sound.tables cur page cur).1.trans running, hashFind_of_none fun p owned => ?_⟩
  rcases (owns_built sound.tables cur page cur p).mp owned with older | ⟨_, rfl, _⟩
  · rw [built_old sound.tables cur page older]
    exact hashFind_none absent older
  · rw [built_new]
    exact below.ne

theorem Loads.after {A : Type} {result : Execution State Halt A} (path : Path s event False m final)
    (loads : Loads s event cur final result) : Loads s event cur m result := by
  cases result with
  | returned value last => exact ⟨path.trans loads.1, loads.2⟩
  | stopped why last => exact loads

/-- One page further: nothing wraps, and the segment still ends below the stack page. -/
theorem loadLoop_next {pageReadBytes : Nat} (aligned : pgOfs upage = 0) (whole : (readBytes + zeroBytes) % pgSize = 0)
    (bound : upage + (readBytes + zeroBytes) ≤ stackPage) (more : 0 < readBytes ∨ 0 < zeroBytes)
    (count : (if readBytes < pgSize then readBytes else pgSize) = pageReadBytes) :
    upage < stackPage ∧ pgOfs (ptrAdd upage pgSize) = 0 ∧
      (readBytes - pageReadBytes + ptrSub zeroBytes (pgSize - pageReadBytes)) % pgSize = 0 ∧
      ptrAdd upage pgSize + (readBytes - pageReadBytes + ptrSub zeroBytes (pgSize - pageReadBytes)) ≤ stackPage := by
  unfold ptrAdd ptrSub
  by_cases last : readBytes < pgSize
  · rw [if_pos last] at count
    simp only [pgOfs, stackPage, physBase, pgSize] at *
    omega
  · rw [if_neg last] at count
    simp only [pgOfs, stackPage, physBase, pgSize] at *
    omega

theorem loadLoop_loads (loading : event.Loads) {file : Nat} {writable : Bool} (fuel : Nat) {ofs : Nat}
    (sound : Sound m) (running : (m.threads cur).phase = .running) (absent : m.hashFind cur stackPage = none)
    (aligned : pgOfs upage = 0) (whole : (readBytes + zeroBytes) % pgSize = 0)
    (bound : upage + (readBytes + zeroBytes) ≤ stackPage) :
    Loads s event cur m (loadLoop cur file writable fuel ofs upage readBytes zeroBytes m) := by
  induction fuel generalizing m ofs upage readBytes zeroBytes with
  | zero => exact Or.inr rfl
  | succ fuel ih =>
    unfold loadLoop
    by_cases more : 0 < readBytes ∨ 0 < zeroBytes
    swap
    · rw [if_neg more]
      exact ⟨.stay _, running, absent⟩
    rw [if_pos more, bind_get]
    generalize count : (if readBytes < pgSize then readBytes else pgSize) = pageReadBytes
    obtain ⟨below, aligned', whole', bound'⟩ := loadLoop_next aligned whole bound more count
    have user : upage < physBase := Nat.lt_of_lt_of_le below (Nat.sub_le _ _)
    have page : pageReadBytes + (pgSize - pageReadBytes) = pgSize := by
      rw [← count]
      split <;> omega
    have fits : Buildable m cur (segmentEntry upage file (m.threads cur).pagedir ofs pageReadBytes
        (pgSize - pageReadBytes) writable) :=
      ⟨Or.inl running, sound.tables.running running, rfl, aligned, user, rfl, by simp [segmentEntry], by simp [segmentEntry], fun _ => page⟩
    obtain ⟨path, running', absent'⟩ : Loads s event cur m (.returned () (m.built cur _) : Execution State Halt Unit) :=
      segment_built loading sound running absent fits below
    exact .after path (ih (path.sound sound) running' absent' aligned' whole' bound')

theorem assert_loads (condition : Bool) (running : (m.threads cur).phase = .running)
    (absent : m.hashFind cur stackPage = none) : Loads s event cur m (assert condition m) := by
  cases condition with
  | true => exact ⟨.stay _, running, absent⟩
  | false => exact Or.inl rfl

theorem loadSegment_loads (loading : event.Loads) (sound : Sound m) (running : (m.threads cur).phase = .running)
    (absent : m.hashFind cur stackPage = none) (file ofs : Nat) (writable : Bool)
    (bound : upage + (readBytes + zeroBytes) ≤ stackPage) :
    Loads s event cur m (loadSegment cur file ofs upage readBytes zeroBytes writable m) := by
  unfold loadSegment
  cases whole : ptrAdd readBytes zeroBytes % pgSize == 0 with
  | false => exact Or.inl rfl
  | true =>
    cases aligned : pgOfs upage == 0 with
    | false => exact Or.inl rfl
    | true =>
      rw [bind_of_returned (assert_true m), bind_of_returned (assert_true m)]
      refine .bind (assert_loads _ running absent) fun _ after done path running absent => ?_
      refine .bind (assert_loads _ running absent) fun _ last done' path' running absent => ?_
      refine loadLoop_loads loading _ (path'.sound (path.sound sound)) running absent (beq_iff_eq.mp aligned) ?_ bound
      have sum := beq_iff_eq.mp whole
      unfold ptrAdd at sum
      simp only [stackPage, physBase, pgSize] at *
      omega

theorem loadHeaders_loads (loading : event.Loads) (sound : Sound m) (running : (m.threads cur).phase = .running)
    (absent : m.hashFind cur stackPage = none) (file : Nat) {phdrs : List Phdr}
    (clear : ∀ phdr ∈ phdrs, phdr.pType = ptLoad → phdr.vaddr + phdr.memsz ≤ stackPage) :
    Loads s event cur m (loadHeaders cur file phdrs m) := by
  induction phdrs generalizing m with
  | nil => exact ⟨.stay _, running, absent⟩
  | cons phdr rest ih =>
    have clearRest : ∀ other ∈ rest, other.pType = ptLoad → other.vaddr + other.memsz ≤ stackPage :=
      fun other inside => clear other (List.mem_cons_of_mem _ inside)
    unfold loadHeaders
    rw [bind_get]
    by_cases refused : phdr.pType = ptDynamic ∨ phdr.pType = ptInterp ∨ phdr.pType = ptShlib
    · rw [if_pos refused]
      exact ⟨.stay _, running, absent⟩
    rw [if_neg refused]
    by_cases segment : phdr.pType = ptLoad
    swap
    · rw [if_neg segment]
      exact ih sound running absent clearRest
    rw [if_pos segment]
    cases valid : validateSegment phdr (m.files file).length with
    | false => exact ⟨.stay _, running, absent⟩
    | true =>
      rw [if_pos rfl]
      have sizes : phdr.filesz ≤ phdr.memsz := by
        simp only [validateSegment, Bool.and_eq_true, decide_eq_true_eq] at valid
        exact valid.1.1.1.1.1.2
      refine .bind (loadSegment_loads loading sound running absent file _ _
        (Phdr.bytes_bound sizes (clear phdr List.mem_cons_self segment))) fun _ after _ path running absent => ?_
      exact ih (path.sound sound) running absent clearRest

/-- A part of a load: where it leads, and that the process is still running if it returns. -/
def Starts {A : Type} (s : State) (event : Event) (cur : Nat) (m : State) (result : Execution State Halt A) : Prop :=
  Leads s event m result ∧ ∀ value final, result = .returned value final → (final.threads cur).phase = .running

theorem starts_returned {A : Type} {value : A} (path : Path s event False m final)
    (running : (final.threads cur).phase = .running) : Starts s event cur m (.returned value final) := by
  refine ⟨path, ?_⟩
  rintro _ _ ⟨⟩
  exact running

theorem starts_stopped {A : Type} {why : Halt} (leads : Leads s event m (.stopped why final : Execution State Halt A)) :
    Starts s event cur m (.stopped why final : Execution State Halt A) :=
  ⟨leads, nofun⟩

theorem setupStack_found {kpage : Nat} (env : Env) (copied : image.copyPage = true)
    (found : frameFindEmpty s = .returned kpage m) (given : kpage ≠ 0) :
    setupStack cur image env s =
      (pageInstallToFrame cur m.nextPage stackPage kpage (m.threads cur).pagedir env >>= fun _ => (do
        modify fun s => s.setRam kpage fun o => (image.args o).getD (s.ram kpage o)
        return image.argsFit)) (m.built cur (stackEntry stackPage (m.threads cur).pagedir .inFrame)) := by
  unfold setupStack
  rw [copied, if_neg (by decide), bind_of_returned found, if_pos given, bind_get]
  rfl

theorem setupStack_unframed (env : Env) (copied : image.copyPage = true) (found : frameFindEmpty s = .returned 0 m) :
    setupStack cur image env s = .stopped (.exit (-6)) (m.ending cur (-6)) := by
  unfold setupStack
  rw [copied, if_neg (by decide), bind_of_returned found]
  rfl

theorem setupStack_stopped (env : Env) (copied : image.copyPage = true) {why : Halt}
    (found : frameFindEmpty s = .stopped why m) : setupStack cur image env s = .stopped why m := by
  unfold setupStack
  rw [copied, if_neg (by decide)]
  exact bind_of_stopped found

theorem setupStack_starts (sound : Sound m) (running : (m.threads cur).phase = .running)
    (absent : m.hashFind cur stackPage = none) (image : Image) (env : Env) :
    Starts s (.load cur image env) cur m (setupStack cur image env m) := by
  cases copied : image.copyPage with
  | false =>
    unfold setupStack
    rw [copied]
    exact starts_returned (.stay _) running
  | true =>
    cases found : frameFindEmpty m with
    | stopped why middle =>
      rw [setupStack_stopped env copied found]
      refine starts_stopped ?_
      rcases frameFindEmpty_stopped found with rfl | rfl <;> trivial
    | returned kpage middle =>
      obtain ⟨path, handed, result⟩ : Path s (.load cur image env) False m middle ∧ _ := find_leads sound found
      have running' : (middle.threads cur).phase = .running := handed.threads ▸ running
      rcases result with ⟨rfl, rfl⟩ | ⟨i, vacant, rfl⟩
      · rw [setupStack_unframed env copied found]
        exact starts_stopped (leads_ending _ (Or.inl running) (-6))
      have sound' := path.sound sound
      rw [setupStack_found env copied found (sound'.frames.kpage_pos i vacant.1)]
      have aligned : pgOfs stackPage = 0 := by decide
      have user : stackPage < physBase := by decide
      have null : stackPage = 0 → Event.MapsNull s (.load cur image env) := fun zero => absurd zero (by decide)
      have grows : Event.Grows cur stackPage (.load cur image env) := ⟨rfl, rfl⟩
      rcases stack_cases sound' env running' aligned user (by rw [handed.hashFind]; exact absent) vacant null grows with
        ⟨done, allowed⟩ | ⟨final, failed, ends⟩ | ⟨final, stopped⟩
      · -- The page is in its frame; the arguments are stored into it.
        have grown : Sound (middle.act (.growIn cur stackPage i)) := sound'.act allowed.fits
        obtain ⟨buildable, _, _, missing, _⟩ := allowed.fits
        have ready := buildable.installable sound'.tables running' vacant missing allowed.fits.2.2.2.2
        have kept := SameTables.installed (middle.built cur (stackEntry stackPage (middle.threads cur).pagedir .cleared))
          cur middle.nextPage i
        have stillRunning : ((middle.act (.growIn cur stackPage i)).threads cur).phase = .running := ready.running
        have page : (middle.act (.growIn cur stackPage i)).pages middle.nextPage = _ := installed_page_self _ _ _ _
        have stores : Move.Fits (middle.act (.growIn cur stackPage i)) (.store cur middle.nextPage fun o =>
            (image.args o).getD ((middle.act (.growIn cur stackPage i)).ram (middle.frameTable i).kpage o)) :=
          ⟨stillRunning, kept.owns.mpr ready.owned, by rw [page]⟩
        have frame : ((middle.act (.growIn cur stackPage i)).pages middle.nextPage).kpage = (middle.frameTable i).kpage := by
          rw [page, built_frameTable]
        have stored : Path s (.load cur image env) False (middle.act (.growIn cur stackPage i)) _ :=
          .single _ (.storing stores trivial)
        rw [State.act, frame] at stored
        rw [bind_of_returned done]
        exact starts_returned (path.trans (.move _ allowed stored)) stillRunning
      · exact bind_of_stopped failed ▸ starts_stopped (path.weaken.trans ends)
      · exact bind_of_stopped stopped ▸ starts_stopped trivial

theorem load_starts (sound : Sound m) (running : (m.threads cur).phase = .running)
    (absent : m.hashFind cur stackPage = none) (clear : image.ClearOfStack) (env : Env) :
    Starts s (.load cur image env) cur m (load cur image env m) := by
  unfold load
  by_cases refused : image.pagedir = 0 ∨ (!image.accepted) = true
  · rw [if_pos refused]
    exact starts_returned (.stay _) running
  rw [if_neg refused]
  have loading : Event.Loads (.load cur image env) := trivial
  have loads : Loads s (.load cur image env) cur m (loadHeaders cur image.file image.phdrs m) :=
    loadHeaders_loads loading sound running absent image.file clear
  cases headers : loadHeaders cur image.file image.phdrs m with
  | stopped why middle =>
    rw [headers] at loads
    rw [bind_of_stopped headers]
    refine starts_stopped ?_
    rcases loads with rfl | rfl <;> trivial
  | returned ok middle =>
    rw [headers] at loads
    obtain ⟨path, running', absent'⟩ := loads
    rw [bind_of_returned headers]
    cases ok with
    | false => exact starts_returned path running'
    | true =>
      obtain ⟨leads, still⟩ := setupStack_starts (path.sound sound) running' absent' image env
      exact ⟨.after path leads, still⟩

theorem startProcess_leads (sound : Sound m) (running : (m.threads cur).phase = .running)
    (absent : m.hashFind cur stackPage = none) (clear : image.ClearOfStack) (env : Env) :
    Leads s (.load cur image env) m (startProcess cur image env m) := by
  unfold startProcess
  obtain ⟨leads, still⟩ : Starts s _ cur m _ := load_starts sound running absent clear env
  cases loaded : load cur image env m with
  | stopped why middle =>
    rw [loaded] at leads
    rw [bind_of_stopped loaded]
    cases why with
    | exit status => exact leads
    | panic | diverge => trivial
  | returned success middle =>
    rw [loaded] at leads
    rw [bind_of_returned loaded]
    cases success with
    | true => exact leads
    | false => exact .after leads (leads_ending middle (Or.inl (still _ _ loaded)) 0)

/-! ## Exits -/

theorem freeAt_setThread (s : State) (t : Nat) (value : Thread) (kpage i : Nat) :
    State.freeAt kpage (s.setThread t value) i = (State.freeAt kpage s i).setThread t value := by
  unfold State.freeAt
  by_cases here : (s.frameTable i).kpage = kpage
  · simp only [State.setThread_frameTable, if_pos here]
    rfl
  · simp only [State.setThread_frameTable, if_neg here]

theorem frameFree_setThread (s : State) (t : Nat) (value : Thread) (kpage : Nat) :
    (s.setThread t value).frameFree kpage = (s.frameFree kpage).setThread t value := by
  unfold State.frameFree
  induction List.range totalPages generalizing s with
  | nil => rfl
  | cons i rest ih => rw [List.foldl_cons, List.foldl_cons, ← ih, freeAt_setThread]

theorem clearPage_setThread (s : State) (t : Nat) (value : Thread) (p : Nat) :
    (s.setThread t value).clearPage p = (s.clearPage p).setThread t value := by
  rw [clearPage_eq, clearPage_eq]
  simp only [State.setThread_pages, frameFree_setThread]
  split <;> rfl

theorem foldl_clearPage_setThread (s : State) (t : Nat) (value : Thread) (list : List Nat) :
    list.foldl State.clearPage (s.setThread t value) = (list.foldl State.clearPage s).setThread t value := by
  induction list generalizing s with
  | nil => rfl
  | cons p rest ih => rw [List.foldl_cons, List.foldl_cons, clearPage_setThread, ih]

theorem foldl_clearPage_threads (s : State) (list : List Nat) :
    (list.foldl State.clearPage s).threads = s.threads := by
  induction list generalizing s with
  | nil => rfl
  | cons p rest ih => rw [List.foldl_cons, ih, clearPage_threads]

/-- Marking the process as ending first changes nothing in what its exit leaves. -/
theorem threadExit_ending (s : State) (t : Nat) :
    ((s.threads t).spt.foldl State.clearPage (s.ending t (s.threads t).exitStatus)).left t = s.threadExit t := by
  have unfolded : s.threadExit t = ((s.threads t).spt.foldl State.clearPage s).left t := rfl
  have same := foldl_clearPage_threads s (s.threads t).spt
  rw [unfolded, State.ending, foldl_clearPage_setThread, left_eq, left_eq]
  simp [State.setThread, same]

theorem clear_path {failing : Prop} {list : List Nat} (exiting : (m.threads t).phase = .exiting)
    (owned : ∀ p ∈ list, m.Owns t p) : Path s event failing m (list.foldl State.clearPage m) := by
  induction list generalizing m with
  | nil => exact .stay _
  | cons p rest ih =>
    have fits : Move.Fits m (.clear p) := ⟨t, exiting, owned p List.mem_cons_self⟩
    refine .move (.clear p) (.plain fits trivial) (ih ?_ fun q inside => ?_)
    · rw [State.act, clearPage_threads]
      exact exiting
    · exact owns_clearPage.mpr (owned q (List.mem_cons_of_mem _ inside))

theorem foldl_clearPage_outside {list : List Nat} {p : Nat} (inside : p ∈ list ∨ (m.pages p).location ≠ .inFrame) :
    ((list.foldl State.clearPage m).pages p).location ≠ .inFrame := by
  induction list generalizing m with
  | nil => exact inside.resolve_left nofun
  | cons q rest ih =>
    apply ih
    by_cases here : p = q
    · subst here
      exact Or.inr (clearPage_outside m p)
    · rw [clearPage_pages m q here]
      rcases inside with listed | outside
      · exact Or.inl ((List.mem_cons.mp listed).resolve_left here)
      · exact Or.inr outside

theorem exit_path (live : (s.threads t).live) : Path s (.exit t) False s (s.threadExit t) := by
  have ends : Move.Fits s (.ending t (s.threads t).exitStatus) := live
  have exiting : ((s.ending t (s.threads t).exitStatus).threads t).phase = .exiting := by simp [State.ending]
  have owned : ∀ p ∈ (s.threads t).spt, (s.ending t (s.threads t).exitStatus).Owns t p :=
    fun p inside => (SameTables.ending live _).owns.mpr inside
  have cleared : Path s (.exit t) False (s.ending t (s.threads t).exitStatus) _ := clear_path exiting owned
  refine .move _ (.plain ends trivial) (cleared.trans ?_)
  rw [← threadExit_ending]
  have leaves : Move.Fits ((s.threads t).spt.foldl State.clearPage (s.ending t (s.threads t).exitStatus)) (.leave t) := by
    refine ⟨by rw [foldl_clearPage_threads]; exact exiting, fun p stillOwned => foldl_clearPage_outside (Or.inl ?_)⟩
    unfold State.Owns at stillOwned
    rw [foldl_clearPage_threads] at stillOwned
    simpa [State.ending] using stillOwned
  have allowed : Allowed s (.exit t) False _ (.leave t) := .leaving leaves
  exact Chain.single _ allowed

/-! ## Steps and runs -/

/-- A load whose segments reach into the stack page is not allowed. -/
def Event.ClearOfStack : Event → Prop
  | .load _ image _ => image.ClearOfStack
  | _ => True

instance : (event : Event) → Decidable event.ClearOfStack
  | .load _ image _ => inferInstanceAs (Decidable image.ClearOfStack)
  | .enter .. | .fault .. | .read .. | .write .. | .exit .. => inferInstanceAs (Decidable True)

/-- Kernel code ended in `page_read_install`'s short read or in `page_install_to_frame`'s failed install. -/
def failedResult {A : Type} : Execution State Halt A → Prop
  | .stopped (.exit status) _ => failedPageIn status
  | _ => False

instance {A : Type} : (result : Execution State Halt A) → Decidable (failedResult result)
  | .stopped (.exit status) _ => inferInstanceAs (Decidable (status = -35 ∨ status = -532))
  | .stopped .panic _ | .stopped .diverge _ | .returned _ _ => inferInstanceAs (Decidable False)

def Event.Fails (s : State) : Event → Prop
  | .fault t addr esp user _ env => failedResult (pageFault t addr esp (!(s.translate t addr).present) user env s)
  | .load t image env => failedResult (startProcess t image env (s.spawn t image.pagedir))
  | _ => False

instance (s : State) : (event : Event) → Decidable (event.Fails s)
  | .fault .. | .load .. => inferInstanceAs (Decidable (failedResult _))
  | .enter .. | .read .. | .write .. | .exit .. => inferInstanceAs (Decidable False)

theorem Leads.settle {A : Type} {result : Execution State Halt A} (leads : Leads s event m result)
    (settled : settle result = some final) : Path s event (failedResult result) m final := by
  cases result with
  | returned value last =>
    cases settled
    exact leads.weaken
  | stopped why last =>
    cases why with
    | exit status =>
      cases settled
      exact leads
    | panic | diverge => cases settled

theorem startProcess_of_null (env : Env) (given : image.pagedir = 0) :
    startProcess t image env (s.spawn t image.pagedir) = .stopped (.exit 0) ((s.spawn t image.pagedir).ending t 0) := by
  simp [startProcess, load, given, bind_apply, systemExitHelper]

theorem spawn_ready (given : image.pagedir ≠ 0) : ((s.spawn t image.pagedir).threads t).phase = .running ∧
    (s.spawn t image.pagedir).hashFind t stackPage = none := by
  have replaced := replaced_spawn s t given
  refine ⟨by rw [replaced.self], hashFind_of_none fun p owned => ?_⟩
  exact absurd rfl (replaced.owns.mp owned).1

theorem load_path (sound : Sound s) {env : Env} (unborn : (s.threads t).phase = .unborn)
    (fresh : image.pagedir ∉ s.directories) (clear : image.ClearOfStack)
    (settled : settle (startProcess t image env (s.spawn t image.pagedir)) = some final) :
    Path s (.load t image env) (Event.Fails s (.load t image env)) s final := by
  by_cases given : image.pagedir = 0
  · rw [startProcess_of_null env given, given] at settled
    cases settled
    have fits : Move.Fits s (.stillborn t) := unborn
    exact Chain.single (Move.stillborn t) (.plain fits trivial)
  · have fits : Move.Fits s (.spawn t image.pagedir) := ⟨unborn, given, fresh⟩
    obtain ⟨running, absent⟩ : _ ∧ (s.spawn t image.pagedir).hashFind t stackPage = none := spawn_ready given
    refine .move (.spawn t image.pagedir) (.spawning fits trivial) ?_
    have leads : Leads s (.load t image env) (s.spawn t image.pagedir) _ :=
      startProcess_leads (sound.act fits) running absent clear env
    exact leads.settle settled

theorem step_path (sound : Sound s) (clear : event.ClearOfStack) (taken : step s event = some final) :
    Path s event (event.Fails s) s final := by
  cases event with
  | load t image env =>
    simp only [step] at taken
    split at taken <;> rename_i enabled
    · exact load_path sound enabled.1 enabled.2 clear taken
    · cases taken
  | enter t esp =>
    simp only [step] at taken
    split at taken <;> rename_i running
    · cases taken
      have fits : Move.Fits s (.enter t esp) := running
      exact Chain.single (Move.enter t esp) (.plain fits trivial)
    · cases taken
  | fault t addr esp user write env =>
    simp only [step] at taken
    split at taken <;> rename_i enabled
    · exact (fault_leads sound enabled.1 addr esp _ user write env).settle taken
    · cases taken
  | read t addr =>
    simp only [step] at taken
    split at taken
    · cases taken
      exact touch_path sound.frames.clock t addr
    · cases taken
  | write t addr value =>
    simp only [step] at taken
    split at taken <;> rename_i enabled
    · cases taken
      obtain ⟨p, owned, _, located, frame⟩ := sound.accessed enabled.1 enabled.2
      refine (touch_path sound.frames.clock t addr).trans ?_
      have fits : Move.Fits (s.touch t addr) (.store t p
          (Function.update (s.ram (s.translate t addr).page) (pgOfs addr) value)) := ⟨enabled.1, owned, located⟩
      rw [frame] at fits ⊢
      exact Chain.single (Move.store t p _) (.storing fits trivial)
    · cases taken
  | exit t =>
    simp only [step] at taken
    split at taken <;> rename_i live
    · cases taken
      exact (exit_path live).weaken
    · cases taken

theorem Sound.step (sound : Sound s) (clear : event.ClearOfStack) (taken : step s event = some final) : Sound final :=
  (step_path sound clear taken).sound sound

theorem Boot.sound (boot : Boot s) : Sound s := by
  have none : ∀ {t p}, ¬s.Owns t p := by
    intro t p owned
    unfold State.Owns at owned
    rw [boot.unborn] at owned
    cases owned
  have idle : ∀ {t}, (s.threads t).phase = .unborn := by
    intro t
    rw [boot.unborn]
  have notLive : ∀ {t}, ¬(s.threads t).live := by
    intro t live
    rcases live with run | exit
    · rw [idle] at run; cases run
    · rw [idle] at exit; cases exit
  have notRunning : ∀ {t}, (s.threads t).phase ≠ .running := fun run => notLive (Or.inl run)
  refine ⟨⟨boot.kpage_pos, boot.kpage_inj, ?_⟩, ?_, ?_, ?_⟩
  · rw [boot.clock]
    decide
  · exact ⟨boot.nextPage, fun owned => (none owned).elim, fun owned => (none owned).elim,
      fun owned => (none owned).elim, fun owned => (none owned).elim, fun run => (notRunning run).elim,
      fun live => (notLive live).elim, fun live => (notLive live).elim, fun owned => (none owned).elim,
      fun owned => (none owned).elim, fun owned => (none owned).elim, fun owned => (none owned).elim⟩
  · refine ⟨fun i bound given => ?_, fun i bound _ => ?_, fun run => (notRunning run).elim,
      fun run => (notRunning run).elim⟩
    · rw [boot.frame i bound] at given
      exact absurd rfl given
    · rw [boot.frame i bound]
  · exact ⟨fun owned => (none owned).elim, fun has => (none has.owned).elim, fun has => (none has.owned).elim⟩

end Pintos.Vm
