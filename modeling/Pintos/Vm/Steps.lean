import Pintos.Vm.Slots

/-! Every step of the system is a chain of moves.

This is the only place where the kernel computations are run symbolically. The
invariants of the previous modules then hold in every reachable state, and a
later one only has to be shown for moves, together with what `Allowed` says of
the event that made them.
-/

set_option autoImplicit false

namespace Pintos.Vm
open Semantics Computation

variable {s m final : State} {event : Event}

structure Sound (s : State) : Prop where
  frames : Frames s
  tables : Tables s
  resident : Resident s
  slots : Slots s

theorem Sound.act {move : Move} (sound : Sound s) (fits : move.Fits s) : Sound (s.act move) where
  frames := sound.frames.act fits
  tables := sound.tables.act fits
  resident := sound.resident.act sound.frames sound.tables fits
  slots := sound.slots.act sound.tables fits

/-- The fault is one that `page_fault_identifier` answers with a page at address 0. -/
def Event.MapsNull (s : State) : Event → Prop
  | .fault t addr esp user _ _ =>
      addr ≠ 0 ∧ pgRoundDown addr = 0 ∧ ((s.hashFind t 0).isSome = true ∨ s.growsStack t addr esp user)
  | _ => False

instance (s : State) : (event : Event) → Decidable (event.MapsNull s)
  | .fault .. => inferInstanceAs (Decidable (_ ∧ _ ∧ _))
  | .load .. | .enter .. | .read .. | .write .. | .exit .. => inferInstanceAs (Decidable False)

/-- The event stores into a page that is already in its frame: a write, the
arguments of a new process, or a page-in that got no frame while page 0 is mapped. -/
def Event.Stores (s : State) : Event → Prop
  | .write .. => True
  | .load .. => True
  | .fault t .. => (s.translate t 0).present = true
  | _ => False

def Event.Grows (t upage : Nat) : Event → Prop
  | .fault u addr _ _ _ _ => u = t ∧ pgRoundDown addr = upage
  | .load u _ _ => u = t ∧ upage = stackPage
  | _ => False

def Event.Loads : Event → Prop
  | .load .. => True
  | _ => False

/-- The move starts a process or gives a running one a page of its executable. -/
def Move.Fresh (s : State) : Move → Prop
  | .spawn .. => True
  | .build t _ => (s.threads t).phase = .running
  | _ => False

def Move.AtNull (s : State) : Move → Prop
  | .fileIn _ p _ _ => (s.pages p).upage = 0
  | .swapIn _ p _ => (s.pages p).upage = 0
  | .growIn _ upage _ => upage = 0
  | _ => False

/-- A move made during a step that began in state `s`; `failing` says that the
step is one that ends in a failed page-in. -/
structure Allowed (s : State) (event : Event) (failing : Prop) (here : State) (move : Move) : Prop where
  fits : move.Fits here
  null : move.AtNull here → event.MapsNull s
  unmatched : ∀ i, move = .unmatched i → failing
  store : ∀ t p bytes, move = .store t p bytes → event.Stores s
  grown : ∀ t upage i, move = .growIn t upage i → event.Grows t upage
  leave : ∀ t, move = .leave t → event = .exit t
  fresh : move.Fresh here → event.Loads

abbrev Path (s : State) (event : Event) (failing : Prop) : State → State → Prop :=
  Chain State.act (Allowed s event failing)

/-- Moves that every event is allowed. -/
def Move.Plain : Move → Prop
  | .fileIn .. | .swapIn .. | .growIn .. | .unmatched .. | .store .. | .leave .. | .build .. | .spawn .. => False
  | _ => True

variable {failing : Prop} {cur t kpage i target upage : Nat}

theorem Allowed.plain {move : Move} (fits : move.Fits m) (plain : move.Plain) :
    Allowed s event failing m move := by
  refine ⟨fits, ?_, ?_, ?_, ?_, ?_, ?_⟩
  case refine_1 | refine_6 => cases move <;> first | exact plain.elim | exact False.elim
  all_goals
    intros
    subst_vars
    exact plain.elim

/-! Each of the other moves, with what it asks of the event. -/

section Making
variable {failing : Prop}

variable {i t p : Nat}

theorem Allowed.freeing (vacant : m.Vacant i) (failed : failing) : Allowed s event failing m (.unmatched i) :=
  ⟨vacant, False.elim, fun _ _ => failed, nofun, nofun, nofun, False.elim⟩

theorem Allowed.storing {bytes : Nat → UInt8} (fits : Move.Fits m (.store t p bytes)) (stores : event.Stores s) :
    Allowed s event failing m (.store t p bytes) :=
  ⟨fits, False.elim, nofun, fun _ _ _ _ => stores, nofun, nofun, False.elim⟩

theorem Allowed.readingIn {bytes : Nat → UInt8} (fits : Move.Fits m (.fileIn t p i bytes))
    (null : (m.pages p).upage = 0 → event.MapsNull s) : Allowed s event failing m (.fileIn t p i bytes) :=
  ⟨fits, null, nofun, nofun, nofun, nofun, False.elim⟩

theorem Allowed.swappingIn (fits : Move.Fits m (.swapIn t p i)) (null : (m.pages p).upage = 0 → event.MapsNull s) :
    Allowed s event failing m (.swapIn t p i) :=
  ⟨fits, null, nofun, nofun, nofun, nofun, False.elim⟩

theorem Allowed.growing {upage : Nat} (fits : Move.Fits m (.growIn t upage i)) (null : upage = 0 → event.MapsNull s)
    (grows : event.Grows t upage) : Allowed s event failing m (.growIn t upage i) := by
  refine ⟨fits, null, nofun, nofun, ?_, nofun, False.elim⟩
  rintro _ _ _ ⟨⟩
  exact grows

theorem Allowed.building {page : Page} (fits : Buildable m t page)
    (fresh : (m.threads t).phase = .running → event.Loads) : Allowed s event failing m (.build t page) :=
  ⟨fits, False.elim, nofun, nofun, nofun, nofun, fresh⟩

theorem Allowed.spawning {pagedir : Nat} (fits : Move.Fits m (.spawn t pagedir)) (loads : event.Loads) :
    Allowed s event failing m (.spawn t pagedir) :=
  ⟨fits, False.elim, nofun, nofun, nofun, nofun, fun _ => loads⟩

theorem Allowed.leaving (fits : Move.Fits m (.leave t)) : Allowed s (.exit t) failing m (.leave t) :=
  ⟨fits, False.elim, nofun, nofun, nofun, by rintro _ ⟨⟩; rfl, False.elim⟩

end Making

theorem Path.sound (path : Path s event failing m final) (sound : Sound m) : Sound final :=
  path.keeps Sound (fun _ _ before allowed => before.act allowed.fits) sound

theorem Path.mono {other : Prop} (path : Path s event failing m final) (implied : failing → other) :
    Path s event other m final := by
  induction path with
  | stay state => exact .stay state
  | move next allowed _ ih =>
    exact .move next ⟨allowed.fits, allowed.null, fun i is => implied (allowed.unmatched i is), allowed.store,
      allowed.grown, allowed.leave, allowed.fresh⟩ ih

theorem Path.weaken (path : Path s event False m final) : Path s event failing m final :=
  path.mono False.elim

/-- The status with which a failed page-in ends the process. -/
def failedPageIn (status : Int) : Prop := status = -35 ∨ status = -532

/-- Where kernel code that is part of a step leaves the state, if the machine goes on. -/
def Leads {A : Type} (s : State) (event : Event) (m : State) : Execution State Halt A → Prop
  | .returned _ final => Path s event False m final
  | .stopped (.exit status) final => Path s event (failedPageIn status) m final
  | .stopped _ _ => True

theorem Leads.after {A : Type} {result : Execution State Halt A} {first : State} (path : Path s event False first m)
    (leads : Leads s event m result) : Leads s event first result := by
  cases result with
  | returned value final => exact path.trans leads
  | stopped why final =>
    cases why with
    | exit status => exact path.weaken.trans leads
    | panic | diverge => trivial

theorem leads_ending {A : Type} (m : State) (live : (m.threads cur).live) (status : Int) :
    Leads s event m (.stopped (.exit status) (m.ending cur status) : Execution State Halt A) := by
  have allowed : Allowed s event (failedPageIn status) m (.ending cur status) := .plain live trivial
  exact Chain.single _ allowed

/-! ## Finding a frame -/

structure Handed (s m : State) : Prop where
  threads : m.threads = s.threads
  upage : ∀ p, (m.pages p).upage = (s.pages p).upage
  outside : ∀ p, (s.pages p).location ≠ .inFrame → m.pages p = s.pages p
  files : m.files = s.files
  nextPage : m.nextPage = s.nextPage

theorem Handed.owns (handed : Handed s m) {p : Nat} : m.Owns t p ↔ s.Owns t p := by
  unfold State.Owns
  rw [handed.threads]

theorem Handed.hashFind (handed : Handed s m) (t upage : Nat) : m.hashFind t upage = s.hashFind t upage := by
  unfold State.hashFind
  rw [handed.threads]
  apply List.find?_congr
  intro p _
  rw [handed.upage]

theorem find_leads {first : State} (sound : Sound first) (done : frameFindEmpty first = .returned kpage m) :
    Path s event False first m ∧ Handed first m ∧
      ((kpage = 0 ∧ m = first) ∨ ∃ i, m.Vacant i ∧ kpage = (m.frameTable i).kpage) := by
  cases frameFindEmpty_returned sound.frames done with
  | nothing full => exact ⟨.stay _, ⟨rfl, fun _ => rfl, fun _ _ => rfl, rfl, rfl⟩, Or.inl ⟨rfl, rfl⟩⟩
  | free i bound free =>
    exact ⟨.stay _, ⟨rfl, fun _ => rfl, fun _ _ => rfl, rfl, rfl⟩, Or.inr ⟨i, ⟨bound, free⟩, rfl⟩⟩
  | @evicted _ slot _ stop evicted =>
    obtain ⟨glanced, range, directory, available, rfl, rfl⟩ := evicted
    have looks : Move.Fits first (.glance stop.pagedirs stop.clockPointer) :=
      ⟨glanced.rest ▸ glanced, range⟩
    have reached : first.act (.glance stop.pagedirs stop.clockPointer) = stop := glanced.rest.symm
    have sound' : Sound stop := reached ▸ sound.act looks
    obtain ⟨owner, victim⟩ := sound'.resident.entry _ range.2 directory
    refine ⟨.move _ (.plain looks trivial) ?_, ⟨?_, fun p => ?_, fun p located => ?_, ?_, ?_⟩, ?_⟩
    · rw [reached]
      have fits : Move.Fits stop (.pageOut slot) := ⟨range, directory, available⟩
      exact Chain.single (Move.pageOut slot) (.plain fits trivial)
    · rw [pageOut_threads]
      exact glanced.threads
    · rw [← glanced.pages]
      by_cases same : p = (stop.frameTable stop.clockPointer).pagePointer
      · rw [same, pageOut_page_self]
      · rw [pageOut_page_other same]
    · have other : p ≠ (stop.frameTable stop.clockPointer).pagePointer := by
        rintro rfl
        exact located (glanced.pages ▸ victim.located)
      rw [pageOut_page_other other, glanced.pages]
    · rw [pageOut_eq]
      exact glanced.files
    · rw [pageOut_eq]
      exact glanced.nextPage
    · refine Or.inr ⟨stop.clockPointer, ⟨range.2, ?_⟩, ?_⟩ <;> rw [pageOut_frame_self]

/-- Code that starts with `frame_find_empty`: either there is no frame, or an empty one is given. -/
theorem find_bind_leads {A : Type} (sound : Sound s) {next : Nat → Kernel A} (none : Leads s event s (next 0 s))
    (some : ∀ m i, Sound m → Handed s m → m.Vacant i → Leads s event m (next (m.frameTable i).kpage m)) :
    Leads s event s ((frameFindEmpty >>= next) s) := by
  cases found : frameFindEmpty s with
  | stopped why m =>
    rw [bind_of_stopped found]
    rcases frameFindEmpty_stopped found with rfl | rfl <;> trivial
  | returned kpage m =>
    rw [bind_of_returned found]
    obtain ⟨path, handed, result⟩ := find_leads sound found
    refine .after path ?_
    rcases result with ⟨rfl, rfl⟩ | ⟨i, vacant, rfl⟩
    · exact none
    · exact some m i (path.sound sound) handed vacant

/-! ## Reading a page from its file -/

theorem storeBytes_frame (s : State) (cur start count : Nat) (given : kpage ≠ 0) (bytes : Nat → UInt8) :
    storeBytes cur kpage start count bytes s =
      .returned () (s.setRam kpage fun o =>
        if start ≤ o ∧ o < start + count then bytes (o - start) else s.ram kpage o) := by
  unfold storeBytes
  by_cases none : count = 0
  · subst none
    have never : ∀ o, ¬(start ≤ o ∧ o < start + 0) := by omega
    simp only [never, if_false, State.setRam, Function.update_eq_self]
    rfl
  · rw [if_pos none]
    unfold storeFrame
    simp only [bind_apply, get_apply, given, ne_eq, not_false_eq_true, if_true, pure_apply, modify_apply]

theorem storeFrame_null (s : State) (cur : Nat) :
    storeFrame cur 0 s =
      if (s.translate cur 0).present = true then .returned (s.translate cur 0).page s
      else .stopped (.exit (-1)) (s.ending cur (-1)) := by
  unfold storeFrame State.translate
  by_cases mapped : (s.pte (s.threads cur).pagedir 0).present = true
  · simp [bind_apply, mapped]
  · simp [bind_apply, mapped, systemExitHelper]

/-- A store through a null frame: none at all, the end of the process, or into page 0. -/
theorem storeBytes_null (s : State) (cur start count : Nat) (bytes : Nat → UInt8) :
    storeBytes cur 0 start count bytes s = .returned () s ∨
    storeBytes cur 0 start count bytes s = .stopped (.exit (-1)) (s.ending cur (-1)) ∨
    (s.translate cur 0).present = true ∧
      ∃ stored, storeBytes cur 0 start count bytes s = .returned () (s.setRam (s.translate cur 0).page stored) := by
  unfold storeBytes
  by_cases none : count = 0
  · rw [if_neg (not_not.mpr none)]
    exact Or.inl rfl
  · rw [if_pos none]
    refine Or.inr ?_
    by_cases mapped : (s.translate cur 0).present = true
    · have frame := storeFrame_null s cur
      rw [if_pos mapped] at frame
      rw [bind_of_returned frame]
      exact Or.inr ⟨mapped, _, rfl⟩
    · have ended := storeFrame_null s cur
      rw [if_neg mapped] at ended
      exact Or.inl (bind_of_stopped ended)

theorem fileReadAt_frame (m : State) (cur file ofs size : Nat) (given : kpage ≠ 0) (env : Env) :
    fileReadAt cur file ofs kpage size env m =
      if ofs < 2 ^ 31 then
        .returned (readAmount (m.files file).length ofs size env.bounce) (m.setRam kpage fun o =>
          if o < readAmount (m.files file).length ofs size env.bounce then (m.files file).getD (ofs + o) 0
          else m.ram kpage o)
      else .stopped .panic m := by
  unfold fileReadAt
  by_cases valid : ofs < 2 ^ 31
  · rw [if_pos valid, decide_eq_true valid]
    simp only [bind_apply, assert_true, get_apply, storeBytes_frame _ _ _ _ given, Nat.zero_le, true_and,
      Nat.zero_add, Nat.sub_zero, pure_apply]
  · rw [if_neg valid, decide_eq_false valid]
    rfl

/-- The end of a process whose page-in failed on frame `i`. -/
theorem failed_path (m : State) (live : (m.threads cur).live) (vacant : m.Vacant i) {status : Int}
    (failed : failedPageIn status) :
    Path s event (failedPageIn status) m ((m.released i).ending cur status) := by
  have frees : Allowed s event (failedPageIn status) m (.unmatched i) := .freeing vacant failed
  have ends : Allowed s event (failedPageIn status) (m.released i) (.ending cur status) := .plain live trivial
  exact .move _ frees (.move _ ends (.stay _))

theorem fill_path (vacant : m.Vacant i) (bytes : Nat → UInt8)
    (path : Path s event failing (m.setRam (m.frameTable i).kpage bytes) final) : Path s event failing m final := by
  have fits : Move.Fits m (.fill i bytes) := vacant
  exact .move (.fill i bytes) (.plain fits trivial) path

theorem setRam_setRam (m : State) (kpage : Nat) (first second : Nat → UInt8) :
    (m.setRam kpage first).setRam kpage second = m.setRam kpage second := by
  simp [State.setRam]

def readInstall (cur target kpage : Nat) (env : Env) : Kernel Unit := do
  let s ← get
  let page := s.pages target
  let amount ← fileReadAt cur page.file page.ofs kpage page.pageReadBytes env
  if amount ≠ page.pageReadBytes then
    modify fun s => s.frameFree kpage
    systemExitHelper cur (-35)
  else
    storeBytes cur kpage page.pageReadBytes page.pageZeroBytes fun _ => 0
    let _ ← pageInstallToFrame cur target page.upage kpage page.pagedir env

theorem leads_fileIn (sound : Sound m) (env : Env) (running : (m.threads cur).phase = .running)
    (owned : m.Owns cur target) (located : (m.pages target).location = .inFilesys) (vacant : m.Vacant i)
    (null : (m.pages target).upage = 0 → event.MapsNull s) (bytes : Nat → UInt8)
    (content : ∀ o < (m.pages target).pageReadBytes + (m.pages target).pageZeroBytes, bytes o = m.segmentByte (m.pages target) o) :
    Leads s event m ((do
      let _ ← pageInstallToFrame cur target (m.pages target).upage (m.frameTable i).kpage (m.pages target).pagedir env
      : Kernel Unit) (m.setRam (m.frameTable i).kpage bytes)) := by
  have frames : Frames (m.setRam (m.frameTable i).kpage bytes) :=
    sound.frames.of_same (fun _ => rfl) sound.frames.clock
  have live : (m.threads cur).live := Or.inl running
  rcases pageInstallToFrame_cases frames cur target (m.pages target).upage (m.frameTable i).kpage
    (m.pages target).pagedir vacant.1 vacant.2 env rfl rfl rfl with ⟨done, absent⟩ | failed | stopped
  · rw [bind_of_returned done]
    have ready : Installable m cur target i := ⟨running, owned, by rw [located]; decide, vacant, absent⟩
    have fits : Move.Fits m (.fileIn cur target i bytes) := ⟨ready, located, content⟩
    exact Chain.single (Move.fileIn cur target i bytes) (.readingIn fits null)
  · rw [bind_of_stopped failed]
    exact fill_path vacant bytes (failed_path (m.setRam _ bytes) live vacant (Or.inr rfl))
  · rw [bind_of_stopped stopped]
    trivial

theorem readInstall_leads (sound : Sound m) (env : Env) (running : (m.threads cur).phase = .running)
    (owned : m.Owns cur target) (located : (m.pages target).location = .inFilesys) (vacant : m.Vacant i)
    (null : (m.pages target).upage = 0 → event.MapsNull s) :
    Leads s event m (readInstall cur target (m.frameTable i).kpage env m) := by
  have given := sound.frames.kpage_pos i vacant.1
  unfold readInstall
  rw [bind_get, bind_apply, fileReadAt_frame m _ _ _ _ given]
  by_cases valid : (m.pages target).ofs < 2 ^ 31
  swap
  · simp only [if_neg valid]
    trivial
  simp only [if_pos valid]
  generalize amount : readAmount (m.files (m.pages target).file).length (m.pages target).ofs
    (m.pages target).pageReadBytes env.bounce = count
  by_cases short : count = (m.pages target).pageReadBytes
  · rw [if_neg (not_not.mpr short), bind_of_returned (storeBytes_frame _ _ _ _ given _), setRam_setRam]
    refine leads_fileIn sound env running owned located vacant null _ fun o inside => ?_
    unfold State.segmentByte
    by_cases read : o < (m.pages target).pageReadBytes
    · have before : ¬((m.pages target).pageReadBytes ≤ o ∧ o < (m.pages target).pageReadBytes + (m.pages target).pageZeroBytes) := by
        omega
      simp [before, read, short]
    · simp [read, inside, Nat.le_of_not_lt read]
  · rw [if_pos short, bind_modify]
    generalize (fun o => if o < count then (m.files (m.pages target).file).getD ((m.pages target).ofs + o) 0
      else m.ram (m.frameTable i).kpage o) = bytes
    have frames : Frames (m.setRam (m.frameTable i).kpage bytes) :=
      sound.frames.of_same (fun _ => rfl) sound.frames.clock
    have freed := frameFree_of_frame frames vacant.1
    rw [State.setRam_frameTable] at freed
    rw [freed]
    exact fill_path vacant bytes (failed_path (m.setRam _ bytes) (Or.inl running) vacant (Or.inl rfl))

/-! ## A page-in without a frame -/

/-- With a null frame `install_page` fails: a frame has a kernel address. -/
theorem installPage_null (m : State) (cur upage : Nat) (writable allocated : Bool) :
    installPage cur upage 0 writable allocated m = .returned false m ∨
      installPage cur upage 0 writable allocated m = .stopped .panic m := by
  rcases installPage_cases (s := m) cur upage 0 writable allocated with ⟨_, _, kernel⟩ | refused | failed
  · exact absurd kernel (by decide)
  · exact Or.inl refused
  · exact Or.inr failed

theorem install_null_leads (sound : Sound m) (running : (m.threads cur).phase = .running) (target upage pagedir : Nat)
    (env : Env) :
    Leads s event m ((do
      let _ ← pageInstallToFrame cur target upage 0 pagedir env : Kernel Unit) m) := by
  have none : m.frameFree 0 = m := frameFree_of_no_frame fun i bound => sound.frames.kpage_pos i bound
  unfold pageInstallToFrame frameInstall
  rcases installPage_null m cur upage (m.pages target).writable env.pageTable with refused | failed
  · simp only [bind_apply, get_apply, refused, if_false, pure_apply, Bool.not_false, if_true, modify_apply, none,
      systemExitHelper, Bool.false_eq_true]
    exact leads_ending _ (Or.inl running) (-532)
  · simp only [bind_apply, get_apply, failed]
    trivial

/-- The store of a page-in without a frame: into page 0 when that is mapped, else the end of the process. -/
theorem storeBytes_null_path (sound : Sound m) (running : (m.threads cur).phase = .running)
    (stores : (m.translate cur 0).present = true → event.Stores s) (start count : Nat) (bytes : Nat → UInt8) :
    (∃ kpage stored, storeBytes cur 0 start count bytes m = .returned () (m.setRam kpage stored) ∧
        Path s event False m (m.setRam kpage stored)) ∨
      storeBytes cur 0 start count bytes m = .stopped (.exit (-1)) (m.ending cur (-1)) := by
  rcases storeBytes_null m cur start count bytes with idle | ended | ⟨mapped, stored, done⟩
  · have same : m.setRam 0 (m.ram 0) = m := by simp [State.setRam]
    exact Or.inl ⟨0, m.ram 0, by rw [same]; exact idle, by rw [same]; exact .stay _⟩
  · exact Or.inr ended
  · obtain ⟨p, owned, upage, located⟩ := sound.resident.mapped running mapped
    obtain ⟨_, maps⟩ := sound.resident.resident running owned located
    have frame : (m.translate cur 0).page = (m.pages p).kpage := by
      have page := maps.page
      rw [upage] at page
      exact page
    have fits : Move.Fits m (.store cur p stored) := ⟨running, owned, located⟩
    refine Or.inl ⟨_, stored, done, ?_⟩
    rw [frame]
    exact Chain.single (Move.store cur p stored) (.storing fits (stores mapped))

theorem fileReadAt_null_path (sound : Sound m) (running : (m.threads cur).phase = .running)
    (stores : (m.translate cur 0).present = true → event.Stores s) (file ofs size : Nat) (env : Env) :
    (∃ amount kpage stored, fileReadAt cur file ofs 0 size env m = .returned amount (m.setRam kpage stored) ∧
        Path s event False m (m.setRam kpage stored)) ∨
      fileReadAt cur file ofs 0 size env m = .stopped (.exit (-1)) (m.ending cur (-1)) ∨
      fileReadAt cur file ofs 0 size env m = .stopped .panic m := by
  unfold fileReadAt
  by_cases valid : ofs < 2 ^ 31
  swap
  · rw [decide_eq_false valid]
    exact Or.inr (Or.inr rfl)
  rw [decide_eq_true valid]
  simp only [bind_apply, assert_true, get_apply]
  rcases storeBytes_null_path sound running stores 0 (readAmount (m.files file).length ofs size env.bounce)
    (fun o => (m.files file).getD (ofs + o) 0) with ⟨kpage, stored, done, path⟩ | ended
  · rw [done]
    exact Or.inl ⟨_, kpage, stored, rfl, path⟩
  · rw [ended]
    exact Or.inr (Or.inl rfl)

theorem readInstall_null_leads (sound : Sound m) (target : Nat) (env : Env)
    (running : (m.threads cur).phase = .running) (stores : (m.translate cur 0).present = true → event.Stores s) :
    Leads s event m (readInstall cur target 0 env m) := by
  unfold readInstall
  rw [bind_get]
  rcases fileReadAt_null_path sound running stores (m.pages target).file (m.pages target).ofs
    (m.pages target).pageReadBytes env with ⟨amount, kpage, stored, done, path⟩ | ended | failed
  · rw [bind_of_returned done]
    refine .after path ?_
    have sound' := path.sound sound
    by_cases short : amount = (m.pages target).pageReadBytes
    · rw [if_neg (not_not.mpr short)]
      rcases storeBytes_null_path sound' running stores (m.pages target).pageReadBytes
        (m.pages target).pageZeroBytes (fun _ => 0) with ⟨kpage', stored', done', path'⟩ | ended
      · rw [bind_of_returned done']
        exact .after path' (install_null_leads (path'.sound sound') running target _ _ env)
      · rw [bind_of_stopped ended]
        exact leads_ending (m.setRam kpage stored) (Or.inl running) (-1)
    · have none : (m.setRam kpage stored).frameFree 0 = m.setRam kpage stored :=
        frameFree_of_no_frame fun i bound => sound.frames.kpage_pos i bound
      rw [if_pos short, bind_modify, none]
      exact leads_ending (m.setRam kpage stored) (Or.inl running) (-35)
  · rw [bind_of_stopped ended]
    exact leads_ending _ (Or.inl running) (-1)
  · rw [bind_of_stopped failed]
    trivial

theorem pageReadInstall_leads (sound : Sound s) (env : Env) (running : (s.threads cur).phase = .running)
    (owned : s.Owns cur target) (located : (s.pages target).location = .inFilesys)
    (null : (s.pages target).upage = 0 → event.MapsNull s)
    (stores : (s.translate cur 0).present = true → event.Stores s) :
    Leads s event s (pageReadInstall cur target env s) := by
  have split : pageReadInstall cur target env = frameFindEmpty >>= fun kpage => readInstall cur target kpage env := rfl
  rw [split]
  refine find_bind_leads sound (readInstall_null_leads sound target env running stores) fun m i sound' handed vacant => ?_
  have same := handed.outside target (by rw [located]; decide)
  refine readInstall_leads sound' env (handed.threads ▸ running) (handed.owns.mpr owned) ?_ vacant ?_
  · rw [same]
    exact located
  · rw [same]
    exact null

/-! ## Reading a page back from swap -/

theorem foldl_sectorIn (m : State) (kpage sector count : Nat) :
    (List.range count).foldl (State.sectorIn kpage sector) m =
      m.setRam kpage fun o => if o / blockSectorSize < count then m.slotByte sector o else m.ram kpage o := by
  induction count with
  | zero => simp [State.setRam]
  | succ count ih =>
    rw [List.range_succ, List.foldl_append, ih, List.foldl_cons, List.foldl_nil]
    unfold State.sectorIn
    rw [setRam_setRam]
    congr 1
    funext o
    by_cases last : o / blockSectorSize = count
    · have inside : o / blockSectorSize < count + 1 := by omega
      rw [if_pos last, if_pos inside]
      subst last
      rfl
    · have same : o / blockSectorSize < count + 1 ↔ o / blockSectorSize < count := by omega
      rw [if_neg last]
      simp [same]

theorem swapRead_apply (m : State) (target i : Nat) :
    swapRead (m.frameTable i).kpage target m =
      if (m.pages target).swapLocation / 8 < m.slots then .returned () (m.fetched target i (m.pages target).location)
      else .stopped .panic (m.setRam (m.frameTable i).kpage fun o =>
        if o / blockSectorSize < 8 then m.slotByte (m.pages target).swapLocation o
        else m.ram (m.frameTable i).kpage o) := by
  unfold swapRead
  simp only [bind_apply, get_apply, modify_apply, foldl_sectorIn]
  by_cases inside : (m.pages target).swapLocation / 8 < m.slots
  · rw [if_pos inside, decide_eq_true inside]
    rfl
  · rw [if_neg inside, decide_eq_false inside]
    rfl

theorem installed_fetched (m : State) (t p i : Nat) (location : Location) :
    (m.fetched p i location).installed t p i = (m.fetched p i .cleared).installed t p i := by
  simp [State.installed, State.occupied, State.fetched, State.slotFreed, State.setPage, State.setPte, State.setFrame,
    State.setSlot, State.setRam]

/-- A swap-in whose page could not be mapped: the slot is gone, the process is ending. -/
theorem drop_path (slots : Slots m) (running : (m.threads cur).phase = .running) (owned : m.Owns cur target)
    (located : (m.pages target).location = .inSwap) (vacant : m.Vacant i) {status : Int}
    (failed : failedPageIn status) :
    Path s event (failedPageIn status) m (((m.fetched target i .inSwap).released i).ending cur status) := by
  obtain ⟨slot, has⟩ := slots.hasSlot running owned located
  let ended := m.ending cur status
  have ends : Move.Fits m (.ending cur status) := Or.inl running
  have exiting : (ended.threads cur).phase = .exiting := by simp [ended, State.ending]
  have stillOwned : ended.Owns cur target := (SameTables.ending (Or.inl running) status).owns.mpr owned
  refine .move _ (.plain ends trivial) ?_
  -- With the process out of the way, the frame is filled and the slot dropped.
  refine fill_path (m := ended) vacant (fun o =>
    if o / blockSectorSize < 8 then m.slotByte (m.pages target).swapLocation o else m.ram (m.frameTable i).kpage o) ?_
  have drops : Move.Fits (ended.setRam (m.frameTable i).kpage fun o =>
      if o / blockSectorSize < 8 then m.slotByte (m.pages target).swapLocation o
      else m.ram (m.frameTable i).kpage o) (.drop target) :=
    ⟨cur, exiting, stillOwned, located, fun none => noSlot_ne slot (has.sector.symm.trans none)⟩
  refine .move (.drop target) (.plain drops trivial) ?_
  exact Chain.single (Move.unmatched i) (.freeing vacant failed)

theorem pageSwapInstall_leads (sound : Sound s) (env : Env) (running : (s.threads cur).phase = .running)
    (owned : s.Owns cur target) (located : (s.pages target).location = .inSwap)
    (null : (s.pages target).upage = 0 → event.MapsNull s) :
    Leads s event s (pageSwapInstall cur target env s) := by
  unfold pageSwapInstall
  refine find_bind_leads sound trivial fun m i sound' handed vacant => ?_
  have same := handed.outside target (by rw [located]; decide)
  have running' : (m.threads cur).phase = .running := handed.threads ▸ running
  have owned' := handed.owns.mpr owned
  have located' : (m.pages target).location = .inSwap := by rw [same]; exact located
  have given : ((m.frameTable i).kpage != 0) = true := bne_iff_ne.mpr (sound'.frames.kpage_pos i vacant.1)
  rw [given, bind_of_returned (assert_true m)]
  by_cases inside : (m.pages target).swapLocation / 8 < m.slots
  swap
  · rw [bind_apply, swapRead_apply, if_neg inside]
    trivial
  have read := swapRead_apply m target i
  rw [if_pos inside, located'] at read
  rw [bind_of_returned read, bind_get]
  have frames : Frames (m.fetched target i .inSwap) := sound'.frames.of_same (fun _ => rfl) sound'.frames.clock
  have kept := SameTables.fetched m target i .inSwap
  rcases pageInstallToFrame_cases frames cur target ((m.fetched target i .inSwap).pages target).upage
    (m.frameTable i).kpage ((m.fetched target i .inSwap).pages target).pagedir vacant.1 vacant.2 env rfl rfl rfl with
    ⟨done, absent⟩ | failed | stopped
  · rw [bind_of_returned done, installed_fetched]
    rw [kept.upage] at absent
    have ready : Installable m cur target i := ⟨running', owned', by rw [located']; decide, vacant, absent⟩
    have fits : Move.Fits m (.swapIn cur target i) := ⟨ready, located'⟩
    have null' : (m.pages target).upage = 0 → event.MapsNull s := by rw [same]; exact null
    exact Chain.single (Move.swapIn cur target i) (.swappingIn fits null')
  · rw [bind_of_stopped failed]
    exact drop_path sound'.slots running' owned' located' vacant (Or.inr rfl)
  · rw [bind_of_stopped stopped]
    trivial

/-! ## Stack pages -/

theorem installed_built (sound : Tables m) (t i upage pagedir : Nat) (location : Location) :
    (m.built t (stackEntry upage pagedir location)).installed t m.nextPage i =
      (m.built t (stackEntry upage pagedir .cleared)).installed t m.nextPage i := by
  have threads : (m.built t (stackEntry upage pagedir location)).threads =
      (m.built t (stackEntry upage pagedir .cleared)).threads := by
    rw [built_threads sound, built_threads sound]
    rfl
  rw [built_eq m t (stackEntry upage pagedir location), threads, built_eq m t (stackEntry upage pagedir .cleared)]
  simp [State.installed, State.occupied, State.setPage, State.setPte, State.setFrame, stackEntry]

/-- Ending the process first and building the entry afterwards comes to the same. -/
theorem built_ending (tables : Tables m) (live : (m.threads t).live) (page : Page) (status : Int) :
    (m.ending t status).built t page = (m.built t page).ending t status := by
  have tables' : Tables (m.ending t status) := tables.of_same (.ending live status)
  have lookup : (m.ending t status).hashFind t page.upage = m.hashFind t page.upage := by
    simp [State.hashFind, State.ending]
  rw [built_eq (m.ending t status), built_threads tables', lookup, State.ending, built_eq m t page,
    built_threads tables]
  by_cases absent : m.hashFind t page.upage = none
  · simp [absent, State.ending, State.setThread]
  · simp [absent, State.ending, State.setThread]

theorem buildable_stack {location : Location} (live : (m.threads t).live) (directory : (m.threads t).pagedir ≠ 0)
    (aligned : pgOfs upage = 0) (user : upage < physBase) (slot : location ≠ .inSwap)
    (frame : location = .inFrame → (m.threads t).phase ≠ .running) (stack : location ≠ .inFilesys) :
    Buildable m t (stackEntry upage (m.threads t).pagedir location) :=
  ⟨live, directory, rfl, aligned, user, rfl, slot, frame, fun segment => absurd segment stack⟩

/-- `page_build`, `page_add` and `page_install_to_frame` for a new stack page. -/
theorem stack_cases (sound : Sound m) (env : Env) (running : (m.threads cur).phase = .running)
    (aligned : pgOfs upage = 0) (user : upage < physBase) (absent : m.hashFind cur upage = none) (vacant : m.Vacant i)
    (null : upage = 0 → event.MapsNull s) (grows : event.Grows cur upage) :
    (pageInstallToFrame cur m.nextPage upage (m.frameTable i).kpage (m.threads cur).pagedir env
        (m.built cur (stackEntry upage (m.threads cur).pagedir .inFrame)) =
          .returned true (m.act (.growIn cur upage i)) ∧ Allowed s event False m (.growIn cur upage i)) ∨
    (∃ final, pageInstallToFrame cur m.nextPage upage (m.frameTable i).kpage (m.threads cur).pagedir env
        (m.built cur (stackEntry upage (m.threads cur).pagedir .inFrame)) = .stopped (.exit (-532)) final ∧
          Path s event (failedPageIn (-532)) m final) ∨
    ∃ final, pageInstallToFrame cur m.nextPage upage (m.frameTable i).kpage (m.threads cur).pagedir env
        (m.built cur (stackEntry upage (m.threads cur).pagedir .inFrame)) = .stopped .panic final := by
  have directory := sound.tables.running running
  have entry := built_new m cur (stackEntry upage (m.threads cur).pagedir .inFrame)
  have frame := built_frameTable m cur (stackEntry upage (m.threads cur).pagedir .inFrame)
  have free : ((m.built cur (stackEntry upage (m.threads cur).pagedir .inFrame)).frameTable i).upage = 0 := by
    rw [frame]
    exact vacant.2
  rcases pageInstallToFrame_cases (sound.frames.built cur (stackEntry upage (m.threads cur).pagedir .inFrame)) cur
    m.nextPage upage (m.frameTable i).kpage (m.threads cur).pagedir vacant.1 free env (by rw [entry]; rfl)
    (by rw [frame]) (by rw [entry]; rfl) with ⟨done, unmapped⟩ | failed | stopped
  · rw [(built_thread sound.tables _ _ _).2, entry, pte_built] at unmapped
    refine Or.inl ⟨?_, .growing ⟨?_, running, vacant, absent, unmapped⟩ null grows⟩
    · rw [done, installed_built sound.tables]
      rfl
    · exact buildable_stack (Or.inl running) directory aligned user (by decide) (by simp) (by decide)
  · refine Or.inr (Or.inl ⟨_, failed, ?_⟩)
    -- The process ends first: the entry stays behind without a frame.
    have ends : Move.Fits m (.ending cur (-532)) := Or.inl running
    have ended : Sound (m.ending cur (-532)) := sound.act ends
    have exiting : ((m.ending cur (-532)).threads cur).phase = .exiting := by simp [State.ending]
    have pagedir : ((m.ending cur (-532)).threads cur).pagedir = (m.threads cur).pagedir := by simp [State.ending]
    have builds : Move.Fits (m.ending cur (-532)) (.build cur (stackEntry upage (m.threads cur).pagedir .inFrame)) := by
      rw [← pagedir]
      exact buildable_stack (Or.inr exiting) (pagedir ▸ directory) aligned user (by decide)
        (fun _ => by rw [exiting]; decide) (by decide)
    have allowed : Allowed s event (failedPageIn (-532)) (m.ending cur (-532))
        (.build cur (stackEntry upage (m.threads cur).pagedir .inFrame)) :=
      .building builds fun running => by cases exiting.symm.trans running
    refine .move _ (.plain ends trivial) (.move _ allowed ?_)
    have order := built_ending sound.tables (Or.inl running) (stackEntry upage (m.threads cur).pagedir .inFrame) (-532)
    have vacant' : ((m.ending cur (-532)).built cur (stackEntry upage (m.threads cur).pagedir .inFrame)).Vacant i := by
      unfold State.Vacant
      rw [built_frameTable]
      exact vacant
    have frees : Allowed s event (failedPageIn (-532))
        ((m.ending cur (-532)).built cur (stackEntry upage (m.threads cur).pagedir .inFrame)) (.unmatched i) :=
      .freeing vacant' (Or.inr rfl)
    have last : Path s event (failedPageIn (-532))
        ((m.ending cur (-532)).built cur (stackEntry upage (m.threads cur).pagedir .inFrame)) _ := .single _ frees
    simp only [State.act, order] at last ⊢
    exact last
  · exact Or.inr (Or.inr ⟨_, stopped⟩)

/-- `page_build` and `page_add` come before the install. -/
theorem pageGrowStack_found (env : Env) (found : frameFindEmpty s = .returned kpage m) (given : kpage ≠ 0) :
    pageGrowStack cur upage env s =
      (do let _ ← pageInstallToFrame cur m.nextPage upage kpage (m.threads cur).pagedir env : Kernel Unit)
        (m.built cur (stackEntry upage (m.threads cur).pagedir .inFrame)) := by
  unfold pageGrowStack
  rw [bind_of_returned found, if_pos given, bind_get]
  rfl

theorem pageGrowStack_leads (sound : Sound s) (env : Env) (running : (s.threads cur).phase = .running)
    (aligned : pgOfs upage = 0) (user : upage < physBase) (absent : s.hashFind cur upage = none)
    (null : upage = 0 → event.MapsNull s) (grows : event.Grows cur upage) :
    Leads s event s (pageGrowStack cur upage env s) := by
  cases found : frameFindEmpty s with
  | stopped why m =>
    unfold pageGrowStack
    rw [bind_of_stopped found]
    rcases frameFindEmpty_stopped found with rfl | rfl <;> trivial
  | returned kpage m =>
    obtain ⟨path, handed, result⟩ : Path s event False s m ∧ _ := find_leads sound found
    rcases result with ⟨rfl, rfl⟩ | ⟨i, vacant, rfl⟩
    · unfold pageGrowStack
      rw [bind_of_returned found]
      exact .stay _
    have sound' := path.sound sound
    rw [pageGrowStack_found env found (sound'.frames.kpage_pos i vacant.1)]
    refine .after path ?_
    rcases stack_cases sound' env (handed.threads ▸ running) aligned user (by rw [handed.hashFind]; exact absent)
      vacant null grows with ⟨done, allowed⟩ | ⟨final, failed, ends⟩ | ⟨final, stopped⟩
    · exact bind_of_returned done ▸ Chain.single _ allowed
    · exact bind_of_stopped failed ▸ ends
    · exact bind_of_stopped stopped ▸ trivial

end Pintos.Vm
