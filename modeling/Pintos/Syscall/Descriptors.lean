import Mathlib.Data.Finset.Card
import Mathlib.Data.Finset.Range
import Mathlib.Data.Nat.Find
import Pintos.Semantics.Transition
import Pintos.Syscall.Confinement
import Pintos.Syscall.Vocabulary

/-! The open files of a process (`fd_pointers`, `num_open_files`).

The handlers run over a concrete descriptor table; everything else they ask for
is answered by an arbitrary environment. The counter stands right behind the
array in `struct thread`, so slot `MAX_FILES` of the array is the counter.
-/

set_option autoImplicit false

namespace Pintos.Syscall.Descriptors
open Semantics Procedure

structure Table where
  fdPointers : Nat → Nat
  numOpenFiles : Int

namespace Table

def pointer (table : Table) (index : Nat) : Nat :=
  if index = maxFiles then (table.numOpenFiles % addresses).toNat else table.fdPointers index

def setPointer (table : Table) (index value : Nat) : Table :=
  if index = maxFiles then { table with numOpenFiles := signed value }
  else { table with fdPointers := Function.update table.fdPointers index value }

def openSlots (table : Table) : Finset Nat := (Finset.range maxFiles).filter fun index => table.fdPointers index ≠ 0

def Counted (table : Table) : Prop := table.numOpenFiles = table.openSlots.card

instance (table : Table) : Decidable table.Counted := inferInstanceAs (Decidable (_ = _))

def LowestFree (table : Table) (index : Nat) : Prop :=
  index < maxFiles ∧ table.fdPointers index = 0 ∧ ∀ lower < index, table.fdPointers lower ≠ 0

def fileOf (table : Table) (fd : Int) : Nat :=
  if 2 ≤ fd ∧ fd < maxFiles + 2 then table.fdPointers (fd - 2).toNat else 0

end Table

structure Process (F : Type) where
  table : Table
  files : F

def tabled {F : Type} (environment : Environment F) : Environment (Process F) := fun which process =>
  match which with
  | .numOpenFiles => some (process.table.numOpenFiles, process)
  | .setNumOpenFiles count => some ((), { process with table := { process.table with numOpenFiles := count } })
  | .fdPointer index => some (process.table.pointer index, process)
  | .setFdPointer index pointer => some ((), { process with table := process.table.setPointer index pointer })
  | which => (environment which process.files).map fun answered => (answered.1, { process with files := answered.2 })

inductive FileCall where
  | open | filesize | read | write | seek | tell | close
  deriving DecidableEq

def FileCall.number : FileCall → Number
  | .open => .open | .filesize => .filesize | .read => .read | .write => .write | .seek => .seek | .tell => .tell
  | .close => .close

def FileCall.descriptor (request : FileCall) (memory : UserMemory) (stackPointer : Nat) : Option Int :=
  match request with
  | .open => none
  | _ => (memory.word (ptrAdd stackPointer 4)).map signed

def Call.InRange : Call → Prop
  | .routine (.fdPointer index) | .routine (.setFdPointer index _) => index < maxFiles
  | _ => True

instance (call : Call) : Decidable (Call.InRange call) := by
  unfold Call.InRange
  split <;> infer_instance

/-- Calls that change neither the table nor a file. -/
def Call.Idle : Call → Prop
  | .routine (.fdPointer _) | .routine .numOpenFiles => True
  | .routine .inputGetc | .routine .acquireConsole | .routine (.putcharHaveLock _) | .routine .releaseConsole => True
  | .routine _ | .store _ _ => False
  | _ => True

section Runs
variable {F : Type} (environment : Environment F)

def handle (request : FileCall) (memory : UserMemory) (stackPointer : Nat) (process : Process F) :
    Execution (World (Process F)) Ending (Option Int) :=
  (dispatch stackPointer (some request.number)).execute (checked (tabled environment)) ⟨memory, process⟩

def made (request : FileCall) (memory : UserMemory) (stackPointer : Nat) (process : Process F) : List Call :=
  (dispatch stackPointer (some request.number)).performed (checked (tabled environment)) ⟨memory, process⟩

inductive Event (F : Type) where
  | call (request : FileCall) (memory : UserMemory) (stackPointer : Nat)
  /-- Other processes work on the rest of the kernel state. -/
  | others (files : F)

def step (process : Process F) : Event F → Option (Process F)
  | .call request memory stackPointer =>
    match handle environment request memory stackPointer process with
    | .returned _ after => some after.kernel
    | .stopped _ _ => none
  | .others files => some { process with files := files }

/-- A new process has no open files. -/
def start (files : F) : Process F := ⟨⟨fun _ => 0, 0⟩, files⟩

def Opened (memory : UserMemory) (stackPointer : Nat) (process : Process F) (result : Int) (after : Process F) : Prop :=
  (process.table.openSlots.card = maxFiles ∧ result = -1 ∧ after = process) ∨
    process.table.openSlots.card < maxFiles ∧ ∃ name file between, memory.word (ptrAdd stackPointer 4) = some name ∧
      (withFilesysLock (filesysOpen name)).execute (checked (tabled environment)) ⟨memory, process⟩ = .returned file between ∧
      ((file = 0 ∧ result = -1 ∧ after.table = process.table) ∨
        file ≠ 0 ∧ ∃ index, process.table.LowestFree index ∧ result = index + 2 ∧
          after.table.fdPointers = Function.update process.table.fdPointers index file)

structure Conduct (request : FileCall) (memory : UserMemory) (stackPointer : Nat) (process : Process F) : Prop where
  inRange : ∀ op ∈ made environment request memory stackPointer process, Call.InRange op
  counted : ∀ eax after, handle environment request memory stackPointer process = .returned eax after → after.kernel.table.Counted
  opens : request = .open → ∀ eax after, handle environment request memory stackPointer process = .returned eax after →
    ∃ result, eax = some result ∧ Opened environment memory stackPointer process result after.kernel
  idle : ∀ fd, request.descriptor memory stackPointer = some fd → process.table.fileOf fd = 0 →
    (∀ op ∈ made environment request memory stackPointer process, Call.Idle op) ∧
      (handle environment request memory stackPointer process).state.kernel.table = process.table

def InBounds : Event F → Prop
  | .call request memory stackPointer => request.descriptor memory stackPointer ≠ some ((maxFiles : Int) + 2)
  | .others _ => True

instance (event : Event F) : Decidable (InBounds event) :=
  match event with
  | .call _ _ _ => inferInstanceAs (Decidable (_ ≠ _))
  | .others _ => inferInstanceAs (Decidable True)

end Runs

section Tables
variable {table : Table}

theorem Table.lowestFree_of_card (room : table.openSlots.card < maxFiles) : ∃ index, table.LowestFree index := by
  have free : ∃ index, index < maxFiles ∧ table.fdPointers index = 0 := by
    by_contra full
    have all : table.openSlots = Finset.range maxFiles := by
      refine Finset.filter_true_of_mem fun index inside => fun null => full ⟨index, Finset.mem_range.mp inside, null⟩
    simp [all] at room
  classical
  have least := Nat.find_spec free
  exact ⟨Nat.find free, least.1, least.2, fun lower less null =>
    Nat.find_min free less ⟨Nat.lt_trans less least.1, null⟩⟩

variable {index : Nat}

theorem Table.setPointer_of_lt {value : Nat} (inside : index < maxFiles) :
    table.setPointer index value = ⟨Function.update table.fdPointers index value, table.numOpenFiles⟩ :=
  if_neg (Nat.ne_of_lt inside)

theorem Table.Counted.open {file : Nat} (counted : table.Counted) (inside : index < maxFiles)
    (null : table.fdPointers index = 0) (some : file ≠ 0) :
    (⟨Function.update table.fdPointers index file, table.numOpenFiles + 1⟩ : Table).Counted := by
  have grown : (⟨Function.update table.fdPointers index file, table.numOpenFiles + 1⟩ : Table).openSlots =
      insert index table.openSlots := by
    ext other
    by_cases same : other = index
    · simp [Table.openSlots, same, inside, some]
    · simp [Table.openSlots, same]
  have fresh : index ∉ table.openSlots := by simp [Table.openSlots, null]
  rw [Table.Counted, grown, Finset.card_insert_of_notMem fresh, counted]
  exact (Int.natCast_succ _).symm

theorem Table.Counted.close (counted : table.Counted) (inside : index < maxFiles) (used : table.fdPointers index ≠ 0) :
    (⟨Function.update table.fdPointers index 0, table.numOpenFiles - 1⟩ : Table).Counted := by
  have shrunk : (⟨Function.update table.fdPointers index 0, table.numOpenFiles - 1⟩ : Table).openSlots =
      table.openSlots.erase index := by
    ext other
    by_cases same : other = index
    · simp [Table.openSlots, same]
    · simp [Table.openSlots, same]
  have member : index ∈ table.openSlots := by simp [Table.openSlots, inside, used]
  have fewer := Finset.card_erase_add_one member
  rw [Table.Counted, shrunk]
  show table.numOpenFiles - 1 = _
  rw [counted]
  omega

end Tables

section Handlers
variable {F A : Type} {environment : Environment F} {world : World (Process F)} {allowed : Call → Prop}

def Call.Outside : Call → Prop
  | .routine .numOpenFiles | .routine (.setNumOpenFiles _) => False
  | .routine (.fdPointer _) | .routine (.setFdPointer _ _) => False
  | _ => True

variable {call : Call} {body : Routines A} {post : A → World (Process F) → Prop} {absent : Prop}

theorem outside_of_filing (filing : call.Filing) : Call.Outside call := by
  unfold Call.Filing at filing
  split at filing <;> first | exact filing.elim | skip
  unfold Call.Outside
  split <;> simp_all

theorem inRange_of_outside (outside : Call.Outside call) : Call.InRange call := by
  unfold Call.InRange
  split
  · exact outside.elim
  · exact outside.elim
  · trivial

theorem table_of_outside (call : Call) (outside : Call.Outside call) (world : World (Process F)) :
    (checked (tabled environment) call world).state.kernel.table = world.kernel.table := by
  cases call with
  | load | store | checkPointer =>
    simp only [checked, answer]
    split <;> rfl
  | systemExitHelper | hang => rfl
  | routine which =>
    have forwarded : tabled environment which world.kernel = (environment which world.kernel.files).map fun answered =>
        (answered.1, { world.kernel with files := answered.2 }) := by
      cases which <;> first | rfl | exact outside.elim
    simp only [checked, answer, forwarded]
    cases environment which world.kernel.files with
    | none => rfl
    | some answered => rfl

theorem outside_withFilesysLock (filing : Filing body) :
    Makes (I := calls) Call.Outside (withFilesysLock body) :=
  makes_bind ⟨trivial, fun _ => trivial⟩ fun _ => makes_bind (makes_mono (fun _ => outside_of_filing) filing) fun _ =>
    makes_bind ⟨trivial, fun _ => trivial⟩ fun _ => trivial

theorem keeps_outside (makes : Makes (I := calls) (fun call => Call.Outside call ∧ allowed call) body)
    (after : ∀ value final, body.execute (checked (tabled environment)) world = .returned value final → final.kernel.table = world.kernel.table → post value final) :
    Keeps (checked (tabled environment)) allowed body world post := by
  have outside : Makes (I := calls) Call.Outside body := makes_mono (fun _ both => both.1) makes
  refine keeps_mono (fun value final returned => after value final returned ?_)
    (keeps_of_makes (makes_mono (fun _ both => both.2) makes) world)
  have same : (body.execute (checked (tabled environment)) world).state.kernel.table = world.kernel.table :=
    kept_of_performed (fun after => after.kernel.table = world.kernel.table) (fun call before one same => (table_of_outside call one before).trans same)
      (performed_of_makes outside world) rfl
  rwa [returned] at same

theorem keeps_argument (loads : ∀ address, allowed (.load address)) (checks : ∀ pointer, allowed (.checkPointer pointer))
    {address : Nat} {post : Nat → World (Process F) → Prop}
    (after : ∀ word, world.memory.word address = some word → post word world) :
    Keeps (checked (tabled environment)) allowed (argument address) world post := by
  refine keeps_mono (fun word final returned => ?_) (keeps_of_makes (makes_argument loads checks address) world)
  obtain ⟨fetched, rfl⟩ := argument_returned.mp returned
  exact after word (UserMemory.word_of_fetch fetched)

theorem keeps_openFile {fd : Int} (bounded : fd ≠ maxFiles + 2)
    (looks : ∀ index < maxFiles, allowed (.routine (.fdPointer index)))
    {post : Nat → World (Process F) → Prop} (after : post (world.kernel.table.fileOf fd) world) :
    Keeps (checked (tabled environment)) allowed (openFile fd) world post := by
  unfold openFile
  unfold Table.fileOf at after
  split <;> rename_i range
  · have inside : 2 ≤ fd ∧ fd < maxFiles + 2 := by omega
    have below : (fd - 2).toNat < maxFiles := by omega
    rw [if_pos inside] at after
    refine ⟨looks _ below, fun reply final replied => ?_⟩
    have found : tabled environment (.fdPointer (fd - 2).toNat) world.kernel =
        some (world.kernel.table.fdPointers (fd - 2).toNat, world.kernel) := by
      simp [tabled, Table.pointer, Nat.ne_of_lt below]
    simp only [checked, answer, found] at replied
    cases replied
    exact after
  · rwa [if_neg (by omega)] at after

theorem openFile_returned {fd : Int} (found : world.kernel.table.fileOf fd ≠ 0) :
    (openFile fd).execute (checked (tabled environment)) world = .returned (world.kernel.table.fileOf fd) world := by
  have inside : 2 ≤ fd ∧ fd < maxFiles + 2 := by
    by_contra out
    exact found (if_neg out)
  have below : (fd - 2).toNat ≠ maxFiles := by omega
  rw [openFile, if_pos (by omega), Table.fileOf, if_pos inside, routine, execute_perform]
  simp [checked, answer, tabled, Table.pointer, below]

/-- Calls in range, and idle ones if the descriptor is not open. -/
def Permitted (absent : Prop) (call : Call) : Prop := Call.InRange call ∧ (absent → Call.Idle call)

theorem permitted_outside (present : ¬ absent) (outside : Call.Outside call) :
    Permitted absent call := ⟨inRange_of_outside outside, fun missing => absurd missing present⟩

theorem keeps_descriptor {address : Nat} {next : Nat → Routines A}
    (after : ∀ word, world.memory.word address = some word → Keeps (checked (tabled environment)) (Permitted absent) (next word) world post) :
    Keeps (checked (tabled environment)) (Permitted absent) (argument address >>= next) world post :=
  (keeps_bind _ _ _ _).mpr
    (keeps_argument (fun _ => ⟨trivial, fun _ => trivial⟩) (fun _ => ⟨trivial, fun _ => trivial⟩) after)

theorem keeps_check {pointer : Nat} {next : Unit → Routines A}
    (after : Keeps (checked (tabled environment)) (Permitted absent) (next ()) world post) :
    Keeps (checked (tabled environment)) (Permitted absent) (checkPointer pointer >>= next) world post := by
  refine (keeps_bind _ _ _ _).mpr ⟨⟨trivial, fun _ => trivial⟩, fun reply final replied => ?_⟩
  simp only [checked, answer] at replied
  split at replied
  · cases replied
  · cases replied
    exact after

theorem keeps_onFile {fd : Int} {missing : A} {use : Nat → Routines A} (bounded : fd ≠ maxFiles + 2)
    (without : world.kernel.table.fileOf fd = 0 → post missing world)
    (present : world.kernel.table.fileOf fd ≠ 0 → Keeps (checked (tabled environment)) (Permitted absent) (use (world.kernel.table.fileOf fd)) world post) :
    Keeps (checked (tabled environment)) (Permitted absent)
      (openFile fd >>= fun file => if file = 0 then pure missing else use file) world post := by
  refine (keeps_bind _ _ _ _).mpr (keeps_openFile bounded (fun index below => ⟨below, fun _ => trivial⟩) ?_)
  split <;> rename_i found
  · exact without found
  · exact present found

theorem keeps_under_lock {post : A → Table → Prop} (acquire : allowed (.routine .lockAcquire))
    (release : allowed (.routine .lockRelease))
    (kept : ∀ locked : World (Process F), locked.kernel.table = world.kernel.table → Keeps (checked (tabled environment)) allowed body locked fun value after => post value after.kernel.table) :
    Keeps (checked (tabled environment)) allowed (withFilesysLock body) world fun value after => post value after.kernel.table := by
  refine (keeps_bind _ _ _ _).mpr ⟨acquire, fun _ locked replied => (keeps_bind _ _ _ _).mpr ?_⟩
  have before : (checked (tabled environment) (.routine .lockAcquire) world).state.kernel.table = world.kernel.table :=
    table_of_outside (.routine .lockAcquire) trivial world
  rw [replied] at before
  refine keeps_mono (fun value after held => ⟨release, fun _ final freed => ?_⟩) (kept locked before)
  have same : (checked (tabled environment) (.routine .lockRelease) after).state.kernel.table = after.kernel.table :=
    table_of_outside (.routine .lockRelease) trivial after
  rw [freed] at same
  exact (congrArg (post value) same).mpr held

theorem console_putbuf (buffer count : Nat) :
    Makes (I := calls) (fun call => Call.Outside call ∧ Permitted absent call) (putbuf buffer count) := by
  refine makes_bind ⟨⟨trivial, trivial, fun _ => trivial⟩, fun _ => trivial⟩ fun _ =>
    makes_bind ?_ fun _ => ⟨⟨trivial, trivial, fun _ => trivial⟩, fun _ => trivial⟩
  induction count generalizing buffer with
  | zero => exact trivial
  | succ count ih =>
    refine makes_bind ⟨⟨trivial, trivial, fun _ => trivial⟩, fun _ => trivial⟩ fun _ => ?_
    exact makes_bind ⟨⟨trivial, trivial, fun _ => trivial⟩, fun _ => trivial⟩ fun _ => ih _

theorem keeps_toEax {handler : Routines Int} {post : World (Process F) → Prop}
    (kept : Keeps (checked (tabled environment)) allowed handler world fun _ after => post after) :
    Keeps (checked (tabled environment)) allowed (toEax handler) world fun _ after => post after :=
  (keeps_bind _ _ _ _).mpr kept

theorem keeps_keepEax {handler : Routines Unit} {post : World (Process F) → Prop}
    (kept : Keeps (checked (tabled environment)) allowed handler world fun _ after => post after) :
    Keeps (checked (tabled environment)) allowed (keepEax handler) world fun _ after => post after :=
  (keeps_bind _ _ _ _).mpr kept

end Handlers

section Requests
variable {F : Type} {environment : Environment F} {memory : UserMemory} {stackPointer : Nat} {process : Process F}

def Absent (request : FileCall) (memory : UserMemory) (stackPointer : Nat) (process : Process F) : Prop :=
  ∀ fd, request.descriptor memory stackPointer = some fd → process.table.fileOf fd = 0

theorem keeps_request {request : FileCall} (other : request ≠ .open)
    (bounded : request.descriptor memory stackPointer ≠ some ((maxFiles : Int) + 2)) (counted : process.table.Counted) :
    Keeps (checked (tabled environment)) (Permitted (Absent request memory stackPointer process))
      (dispatch stackPointer (some request.number)) ⟨memory, process⟩ fun _ after => after.kernel.table.Counted := by
  have named : request.descriptor memory stackPointer = (memory.word (ptrAdd stackPointer 4)).map signed := by
    cases request <;> first | rfl | exact absurd rfl other
  have bound : ∀ word, memory.word (ptrAdd stackPointer 4) = some word → signed word ≠ maxFiles + 2 := by
    intro word fetched same
    rw [named, fetched, Option.map_some, same] at bounded
    exact bounded rfl
  have opened : ∀ word, memory.word (ptrAdd stackPointer 4) = some word → process.table.fileOf (signed word) ≠ 0 →
      ¬ Absent request memory stackPointer process := by
    intro word fetched present absent
    exact present (absent (signed word) (by rw [named, fetched]; rfl))
  -- work under the lock, once the file is known to be there
  have work : ∀ {A : Type} {body : Routines A} (word : Nat), memory.word (ptrAdd stackPointer 4) = some word →
      process.table.fileOf (signed word) ≠ 0 → Filing body →
      Keeps (checked (tabled environment)) (Permitted (Absent request memory stackPointer process))
        (withFilesysLock body) ⟨memory, process⟩ fun _ after => after.kernel.table = process.table := by
    intro A body word fetched present filing
    refine keeps_outside (makes_mono ?_ (outside_withFilesysLock filing)) fun value final _ same => same
    exact fun call outside => ⟨outside, permitted_outside (opened word fetched present) outside⟩
  have counts : ∀ {A : Type} {body : Routines A} (word : Nat), memory.word (ptrAdd stackPointer 4) = some word →
      Filing body → process.table.fileOf (signed word) ≠ 0 →
      Keeps (checked (tabled environment)) (Permitted (Absent request memory stackPointer process))
        (withFilesysLock body) ⟨memory, process⟩ fun _ after => after.kernel.table.Counted := by
    intro A body word fetched filing present
    refine keeps_mono (fun value after same => ?_) (work word fetched present filing)
    rwa [same]
  cases request with
  | «open» => exact absurd rfl other
  | filesize =>
    refine keeps_toEax (keeps_descriptor fun word fetched => keeps_onFile (bound word fetched) (fun _ => counted) ?_)
    exact counts word fetched (filing_of_plain (plain_fileLength _))
  | read =>
    refine keeps_toEax (keeps_descriptor fun word fetched => keeps_descriptor fun buffer _ => keeps_check ?_)
    refine keeps_descriptor fun length _ => ?_
    split
    · refine keeps_outside ?_ fun value final _ same => same ▸ counted
      exact makes_bind ⟨⟨trivial, trivial, fun _ => trivial⟩, fun _ => trivial⟩ fun _ => trivial
    · refine keeps_onFile (bound word fetched) (fun _ => counted) ?_
      exact counts word fetched (filing_fileRead _ _ _)
  | write =>
    refine keeps_toEax (keeps_descriptor fun word fetched => keeps_descriptor fun string _ => keeps_check ?_)
    refine keeps_descriptor fun length _ => keeps_check ?_
    split
    · exact counted
    · split
      · refine keeps_outside ?_ fun value final _ same => same ▸ counted
        exact makes_bind (console_putbuf _ _) fun _ => trivial
      · refine keeps_onFile (bound word fetched) (fun _ => counted) fun present => ?_
        have permits {call : Call} (outside : Call.Outside call) := permitted_outside (opened word fetched present) outside
        refine keeps_under_lock (permits trivial) (permits trivial) fun locked same => ?_
        refine (keeps_bind _ _ _ _).mpr (keeps_openFile (bound word fetched) (fun index below => ⟨below, fun _ => trivial⟩) ?_)
        refine keeps_outside (makes_mono ?_ (filing_fileWrite _ _ _)) fun value final _ unchanged => ?_
        · exact fun call filing => ⟨outside_of_filing filing, permits (outside_of_filing filing)⟩
        · rw [unchanged, same]
          exact counted
  | seek =>
    refine keeps_keepEax (keeps_descriptor fun word fetched => keeps_descriptor fun position _ => ?_)
    refine keeps_onFile (bound word fetched) (fun _ => counted) ?_
    exact counts word fetched (filing_fileSeek _ _)
  | tell =>
    refine keeps_toEax (keeps_descriptor fun word fetched => keeps_onFile (bound word fetched) (fun _ => counted) ?_)
    exact counts word fetched (filing_routine trivial)
  | close =>
    refine keeps_keepEax (keeps_descriptor fun word fetched => keeps_onFile (bound word fetched) (fun _ => counted) ?_)
    intro present
    have permits := opened word fetched present
    refine (keeps_bind _ _ _ _).mpr (keeps_mono (fun _ closed same => ?_) (work word fetched present (filing_routine trivial)))
    have inside : 2 ≤ signed word ∧ signed word < maxFiles + 2 := by
      by_contra outside
      simp [Table.fileOf, outside] at present
    have below : (signed word - 2).toNat < maxFiles := by omega
    have used : process.table.fdPointers (signed word - 2).toNat ≠ 0 := by simpa [Table.fileOf, inside] using present
    refine ⟨⟨trivial, fun absent => absurd absent permits⟩, fun count counting first => ?_⟩
    cases first
    refine ⟨⟨trivial, fun absent => absurd absent permits⟩, fun _ lowered second => ?_⟩
    cases second
    refine ⟨⟨below, fun absent => absurd absent permits⟩, fun _ final third => ?_⟩
    cases third
    show (Table.setPointer { closed.kernel.table with numOpenFiles := closed.kernel.table.numOpenFiles - 1 }
      (signed word - 2).toNat 0).Counted
    rw [Table.setPointer_of_lt below, same]
    exact counted.close below used

theorem keeps_openSlotLoop {file index : Nat} (some : file ≠ 0) (free : process.table.LowestFree index)
    (counted : process.table.Counted) (left i : Nat) (covers : left + i = maxFiles) (before : i ≤ index) :
    Keeps (checked (tabled environment)) Call.InRange (openSlotLoop file left i) ⟨memory, process⟩ fun result after =>
      result = index + 2 ∧ after.kernel.table.Counted ∧
        after.kernel.table.fdPointers = Function.update process.table.fdPointers index file := by
  induction left generalizing i with
  | zero =>
    have := free.1
    omega
  | succ left ih =>
    have below : i < maxFiles := by omega
    refine ⟨below, fun pointer looked replied => ?_⟩
    simp only [checked, answer, tabled, Table.pointer, if_neg (Nat.ne_of_lt below)] at replied
    cases replied
    show Keeps _ _ (if process.table.fdPointers i = 0 then _ else openSlotLoop file left (i + 1)) _ _
    split <;> rename_i null
    · obtain rfl : i = index := by
        by_contra other
        exact free.2.2 i (by omega) null
      refine ⟨below, fun _ stored first => ?_⟩
      cases first
      refine ⟨trivial, fun count counting second => ?_⟩
      cases second
      refine ⟨trivial, fun _ final third => ?_⟩
      cases third
      simp only [Table.setPointer_of_lt below]
      exact ⟨rfl, counted.open below null some, rfl⟩
    · refine ih (i + 1) (by omega) ?_
      have other : i ≠ index := by
        rintro rfl
        exact null free.2.1
      omega

theorem keeps_open (counted : process.table.Counted) :
    Keeps (checked (tabled environment)) Call.InRange (systemOpen stackPointer) ⟨memory, process⟩ fun result after =>
      after.kernel.table.Counted ∧ Opened environment memory stackPointer process result after.kernel := by
  refine ⟨trivial, fun count counting first => ?_⟩
  cases first
  show Keeps _ _ (if (maxFiles : Int) ≤ process.table.numOpenFiles then _ else _) _ _
  rw [counted]
  split <;> rename_i full
  · have most : process.table.openSlots.card ≤ maxFiles := (Finset.card_filter_le _ _).trans_eq (Finset.card_range maxFiles)
    exact ⟨counted, .inl ⟨by omega, rfl, rfl⟩⟩
  · have room : process.table.openSlots.card < maxFiles := by omega
    refine (keeps_bind _ _ _ _).mpr (keeps_argument (fun _ => trivial) (fun _ => trivial) fun name fetched => ?_)
    refine (keeps_bind _ _ _ _).mpr ⟨trivial, fun _ after checked_ => ?_⟩
    obtain rfl : after = ⟨memory, process⟩ := by
      simp only [checked, answer] at checked_
      split at checked_ <;> cases checked_
      rfl
    have outside := outside_withFilesysLock (filing_of_plain (plain_filesysOpen name))
    refine (keeps_bind _ _ _ _).mpr (keeps_outside ?_ fun file between returned same => ?_)
    · exact makes_mono (fun call outside => ⟨outside, inRange_of_outside outside⟩) outside
    · split <;> rename_i found
      · exact ⟨same ▸ counted, .inr ⟨room, name, file, between, fetched, returned, .inl ⟨found, rfl, same⟩⟩⟩
      · obtain ⟨index, free⟩ := Table.lowestFree_of_card room
        have still : between.kernel.table.LowestFree index := same ▸ free
        refine keeps_mono (fun result after stored => ?_)
          (keeps_openSlotLoop found still (same ▸ counted) maxFiles 0 rfl (Nat.zero_le index))
        obtain ⟨value, tallied, slots⟩ := stored
        rw [same] at slots
        exact ⟨tallied, .inr ⟨room, name, file, between, fetched, returned, .inr ⟨found, index, free, value, slots⟩⟩⟩

theorem table_of_idle {call : Call} (idle : Call.Idle call) (world : World (Process F)) :
    (checked (tabled environment) call world).state.kernel.table = world.kernel.table := by
  cases call with
  | load | store | checkPointer | systemExitHelper | hang =>
    refine table_of_outside _ ?_ world
    trivial
  | routine which =>
    cases which with
    | fdPointer | numOpenFiles => rfl
    | inputGetc | acquireConsole | putcharHaveLock | releaseConsole =>
      refine table_of_outside _ ?_ world
      trivial
    | _ => exact idle.elim

theorem conduct_of_counted {request : FileCall} (counted : process.table.Counted)
    (bounded : request.descriptor memory stackPointer ≠ some ((maxFiles : Int) + 2)) :
    Conduct environment request memory stackPointer process := by
  by_cases opens : request = .open
  · subst opens
    have kept : Keeps (checked (tabled environment)) Call.InRange (dispatch stackPointer (some .open)) ⟨memory, process⟩
        fun eax after => after.kernel.table.Counted ∧
          ∃ result, eax = some result ∧ Opened environment memory stackPointer process result after.kernel :=
      (keeps_bind _ _ _ _).mpr (keeps_mono (fun result after met => ⟨met.1, result, rfl, met.2⟩) (keeps_open counted))
    refine ⟨?_, fun eax after returned => (keeps_returned kept returned).1,
      fun _ eax after returned => (keeps_returned kept returned).2, nofun⟩
    exact (keeps_iff_performed _ _).mp (keeps_mono (fun _ _ _ => trivial) kept)
  · have kept : Keeps (checked (tabled environment)) (Permitted (Absent request memory stackPointer process))
        (dispatch stackPointer (some request.number)) ⟨memory, process⟩ fun _ after => after.kernel.table.Counted :=
      keeps_request opens bounded counted
    have within := (keeps_iff_performed _ _).mp (keeps_mono (fun _ _ _ => trivial) kept)
    refine ⟨fun op inside => (within op inside).1, fun eax after returned => ?_, fun same => absurd same opens,
      fun fd named null => ?_⟩
    · have counts := keeps_returned kept returned
      exact counts
    have absent : Absent request memory stackPointer process := by
      intro other same
      cases named.symm.trans same
      exact null
    have idle : ∀ op ∈ made environment request memory stackPointer process, Call.Idle op :=
      fun op inside => (within op inside).2 absent
    exact ⟨idle, kept_of_performed (fun after : World (Process F) => after.kernel.table = process.table)
      (fun op before one same => (table_of_idle one before).trans same) idle rfl⟩

end Requests

section Instances

def stack (bytes : List UInt8) : UserMemory where
  read address := if 0xbffffff0 ≤ address then bytes[address - 0xbffffff0]? else none
  writable _ := false

def oneFile : Environment Unit := generous ⟨1, [97], true, by decide⟩

def openA : Event Unit := .call .open (stack [0, 0, 0, 0, 0xf8, 0xff, 0xff, 0xbf, 97, 0]) 0xbffffff0

def close (fd : UInt8) : Event Unit := .call .close (stack [0, 0, 0, 0, fd, 0, 0, 0]) 0xbffffff0

end Instances

end Pintos.Syscall.Descriptors
