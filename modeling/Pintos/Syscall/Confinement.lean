import Pintos.Syscall.Accesses

/-! Which system calls keep to user memory.

The handlers check the first byte of each argument word, the first byte of a
name and of a read buffer, and the first byte and the 32-bit end of a write
buffer. `Contained` is what a user's stack pointer and memory must satisfy for
that to be enough, whatever the rest of the kernel answers.
-/

set_option autoImplicit false

namespace Pintos.Syscall
open Semantics

/-- In memory that meets the invariant the routine touches user addresses only,
whatever the environment answers, and leaves memory that meets the invariant. -/
def Confined {A : Type} (invariant : UserMemory → Prop) (body : Routines A) : Prop :=
  ∀ (K : Type) (environment : Environment K) (world : World K), invariant world.memory →
    Accesses environment body world fun _ after => invariant after.memory

section Rules
variable {A B : Type} {invariant : UserMemory → Prop}

theorem accesses_of_confined {K : Type} {body : Routines A} {environment : Environment K} {world : World K}
    (invariant : UserMemory → Prop) (here : invariant world.memory) (confined : Confined invariant body) :
    Accesses environment body world fun _ _ => True :=
  Procedure.keeps_mono (fun _ _ _ => trivial) (confined K environment world here)

theorem confined_pure (value : A) : Confined invariant (pure value : Routines A) := fun _ _ _ here => here

theorem confined_bind {first : Routines A} {next : A → Routines B} (before : Confined invariant first)
    (after : ∀ value, Confined invariant (next value)) : Confined invariant (first >>= next) := by
  intro K environment world here
  rw [accesses_bind]
  exact Procedure.keeps_mono (fun value later there => after value K environment later there)
    (before K environment world here)

theorem confined_ite {condition : Prop} [Decidable condition] {first second : Routines A}
    (yes : condition → Confined invariant first) (no : ¬condition → Confined invariant second) :
    Confined invariant (if condition then first else second) := by
  by_cases met : condition
  · rw [if_pos met]
    exact yes met
  · rw [if_neg met]
    exact no met

theorem confined_routine (which : Routine) : Confined (A := no_index which.Reply) invariant (routine which) := by
  intro K environment world here
  rw [accesses_routine]
  exact fun _ _ _ => here

theorem confined_hang : Confined (A := A) invariant hang := fun _ _ _ _ => accesses_hang _

/-- The kernel panics on a negative length, so what follows may count on it. -/
theorem confined_inodeCreate {sector : Nat} {length : Int} {next : Bool → Routines A}
    (after : 0 ≤ length → ∀ created, Confined invariant (next created)) :
    Confined invariant (inodeCreate sector length >>= next) := by
  intro K environment world here
  simp only [inodeCreate, accesses_bind, accesses_assert, accesses_routine, decide_eq_true_eq]
  exact fun long created kernel _ => after long created K environment _ here

theorem confined_fileSeek (file : Nat) (newPos : Int) : Confined invariant (fileSeek file newPos) := by
  intro K environment world here
  simp only [fileSeek, accesses_bind, accesses_assert, accesses_routine]
  exact fun _ _ _ _ => here

theorem confined_withFilesysLock {body : Routines A} (inner : Confined invariant body) :
    Confined invariant (withFilesysLock body) :=
  confined_bind (confined_routine _) fun _ => confined_bind inner fun _ =>
    confined_bind (confined_routine _) fun _ => confined_pure _

theorem confined_openFile (fd : Int) : Confined invariant (openFile fd) :=
  confined_ite (fun _ => confined_routine _) fun _ => confined_pure 0

theorem confined_openSlotLoop (file left i : Nat) : Confined invariant (openSlotLoop file left i) := by
  induction left generalizing i with
  | zero => exact confined_pure (-1)
  | succ left ih =>
    refine confined_bind (confined_routine _) fun pointer => confined_ite (fun _ => ?_) fun _ => ih (i + 1)
    exact confined_bind (confined_routine _) fun _ => confined_bind (confined_routine _) fun _ =>
      confined_bind (confined_routine _) fun _ => confined_pure _

end Rules

section Names
variable {memory : UserMemory} {name : Nat}

theorem confined_strlcpy (user : UserAddress name) (terminated : memory.Terminated name) (size : Nat) :
    Confined (· = memory) (strlcpy name size) := by
  rintro K environment world rfl
  exact accesses_strlcpy user terminated fun _ => rfl

theorem confined_lookupLoop (start : 0 < name) (within : Within memory.continues name (nameMax + 1))
    (bound number : Nat) : Confined (· = memory) (lookupLoop name bound number) := by
  induction bound generalizing number with
  | zero => exact confined_hang
  | succ bound ih =>
    refine confined_bind (confined_routine _) fun entry => ?_
    cases entry with
    | none => exact confined_pure none
    | some entry =>
      refine confined_ite (fun _ => confined_bind ?_ fun order => ?_) fun _ => ih (number + 1)
      · -- a directory name has at most `NAME_MAX` bytes, so at most one more is read
        rintro K environment world rfl
        exact accesses_strcmp start (within.fewer (Nat.succ_le_succ entry.short)) fun _ => rfl
      · exact confined_ite (fun _ => confined_pure _) fun _ => ih (number + 1)

theorem confined_freeEntryLoop {invariant : UserMemory → Prop} (bound number : Nat) :
    Confined invariant (freeEntryLoop bound number) := by
  induction bound generalizing number with
  | zero => exact confined_hang
  | succ bound ih =>
    refine confined_bind (confined_routine _) fun entry => ?_
    cases entry with
    | none => exact confined_pure number
    | some entry => exact confined_ite (fun _ => ih (number + 1)) fun _ => confined_pure number

theorem confined_dirAdd (user : UserAddress name) (terminated : memory.Terminated name) (sector : Nat) :
    Confined (· = memory) (dirAdd name sector) := by
  refine confined_bind ?_ fun first => confined_ite (fun _ => confined_pure false) fun _ => ?_
  · rintro K environment world rfl
    exact (accesses_load name _).mpr ⟨user, fun _ _ => rfl⟩
  refine confined_bind ?_ fun length => confined_ite (fun _ => confined_pure false) fun _ => ?_
  · rintro K environment world rfl
    exact accesses_strlen user.1 terminated fun _ _ => rfl
  refine confined_bind (confined_lookupLoop user.1 terminated.within _ _) fun present => ?_
  refine confined_ite (fun _ => confined_pure false) fun _ => ?_
  refine confined_bind (confined_freeEntryLoop _ _) fun number => ?_
  exact confined_bind (confined_strlcpy user terminated _) fun bytes => confined_routine _

theorem confined_filesysCreate {size : Int} (user : UserAddress name) (terminated : 0 ≤ size → memory.Terminated name) :
    Confined (· = memory) (filesysCreate name size) := by
  refine confined_bind (confined_routine _) fun dir => confined_ite (fun _ => ?_) fun _ => confined_pure false
  refine confined_bind (confined_bind (confined_routine _) fun allocated => ?_) fun success =>
    confined_bind (confined_routine _) fun _ => confined_pure _
  cases allocated with
  | none => exact confined_pure false
  | some sector =>
    refine confined_inodeCreate fun long created => confined_bind ?_ fun success =>
      confined_bind (confined_ite (fun _ => confined_routine _) fun _ => confined_pure ()) fun _ => confined_pure success
    exact confined_ite (fun _ => confined_dirAdd user (terminated long) sector) fun _ => confined_pure false

theorem confined_lookup (start : 0 < name) (within : Within memory.continues name (nameMax + 1)) :
    Confined (· = memory) (lookup name) := confined_lookupLoop start within addresses 0

theorem confined_filesysOpen (start : 0 < name) (within : Within memory.continues name (nameMax + 1)) :
    Confined (· = memory) (filesysOpen name) := by
  refine confined_bind (confined_routine _) fun dir => confined_ite (fun _ => ?_) fun _ => confined_routine _
  refine confined_bind (confined_bind (confined_lookup start within) fun found => ?_) fun inode =>
    confined_bind (confined_routine _) fun _ => confined_routine _
  cases found with
  | none => exact confined_pure 0
  | some found => exact confined_routine _

theorem confined_filesysRemove (start : 0 < name) (within : Within memory.continues name (nameMax + 1)) :
    Confined (· = memory) (filesysRemove name) := by
  refine confined_bind (confined_routine _) fun dir => confined_ite (fun _ => ?_) fun _ => confined_pure false
  refine confined_bind (confined_bind (confined_lookup start within) fun found => ?_) fun success =>
    confined_bind (confined_routine _) fun _ => confined_pure success
  cases found with
  | none => exact confined_pure false
  | some found =>
    refine confined_bind (confined_routine _) fun inode => confined_ite (fun _ => confined_pure false) fun _ => ?_
    exact confined_bind (confined_routine _) fun erased =>
      confined_bind (confined_ite (fun _ => confined_routine _) fun _ => confined_pure ()) fun _ =>
        confined_bind (confined_routine _) fun _ => confined_pure erased

theorem confined_processExecute (user : UserAddress name) (terminated : memory.Terminated name) :
    Confined (· = memory) (processExecute name) := by
  have strings := confined_strlcpy user terminated
  refine confined_bind (confined_routine _) fun page => confined_ite (fun _ => ?_) fun _ => confined_pure (-1)
  refine confined_bind (strings _) fun command => confined_bind ?_ fun _ => confined_routine _
  refine confined_bind (confined_routine _) fun page => confined_ite (fun _ => ?_) fun _ => confined_pure none
  exact confined_bind (strings _) fun bytes => confined_pure (some bytes)

end Names

section Buffers

variable {memory : UserMemory} {size : Int} {buffer : Nat}

theorem confined_putbufLoop (count : Nat) {address : Nat} (start : 0 < address)
    (within : Within memory.readable address count) : Confined (· = memory) (putbufLoop count address) := by
  induction count generalizing address with
  | zero => exact confined_pure ()
  | succ count ih =>
    have low := within.low
    rintro K environment world rfl
    simp only [putbufLoop, accesses_bind, accesses_load, accesses_routine, ptrAdd_one low]
    refine ⟨⟨start, low⟩, fun byte fetched _ kernel _ => ?_⟩
    refine ih (Nat.succ_pos address) ?_ K environment ⟨world.memory, kernel⟩ rfl
    rcases (within_succ low).mp within with stops | later
    · simp [UserMemory.readable, fetched] at stops
    · exact later

@[simp] theorem length_slice (sector : Nat → UInt8) (offset count : Nat) : (slice sector offset count).length = count := by
  simp [slice]

theorem ptrAdd_of_le {pointer count : Nat} (below : pointer + count ≤ physBase) : ptrAdd pointer count = pointer + count := by
  simp only [ptrAdd, physBase] at *
  omega

/-- One round of a copying loop: the chunk stays below, and so does the rest once the chunk went through. -/
theorem Within.chunk {proceeds : Nat → Bool} {address : Nat} {chunk : Int}
    (within : Within proceeds address size.toNat) (some : 0 < chunk) (part : chunk ≤ size) :
    Within proceeds address chunk.toNat ∧ ((∀ index < chunk.toNat, proceeds (address + index) = true) →
      address + chunk.toNat ≤ physBase ∧ Within proceeds (address + chunk.toNat) (size - chunk).toNat) := by
  have first : Within proceeds address chunk.toNat := within.fewer (by omega)
  refine ⟨first, fun through => ⟨first.fits through, Within.rest ?_ through⟩⟩
  rwa [show chunk.toNat + (size - chunk).toNat = size.toNat by omega]

theorem confined_readLoop {writable : Nat → Bool} {inode : Nat} (start : 0 < buffer) (bound : Nat) {offset : Int}
    {bytesRead : Nat} {bounce : Bool} (below : buffer + bytesRead ≤ physBase)
    (within : Within writable (buffer + bytesRead) size.toNat) :
    Confined (fun memory => memory.writable = writable) (readLoop inode buffer bound size offset bytesRead bounce) := by
  induction bound generalizing size offset bytesRead bounce with
  | zero => exact confined_hang
  | succ bound ih =>
    refine confined_ite (fun more => ?_) fun _ => confined_pure bytesRead
    refine confined_bind (confined_routine _) fun sectorIdx => confined_bind (confined_routine _) fun length => ?_
    dsimp only
    generalize chunked : min size (min (length - offset) (blockSectorSize - offset.tmod blockSectorSize)) = chunk
    refine confined_ite (fun _ => confined_pure bytesRead) fun some => ?_
    refine confined_bind (confined_ite (fun _ => confined_pure true) fun _ => confined_routine _) fun ready => ?_
    refine confined_ite (fun _ => confined_bind (confined_routine _) fun sector => ?_) fun _ => confined_pure bytesRead
    obtain ⟨first, rest⟩ := within.chunk (by omega) (chunked ▸ Int.min_le_left _ _)
    rintro K environment world rfl
    rw [accesses_bind, ptrAdd_of_le below, accesses_copyOut _ (by omega) below, length_slice]
    refine ⟨first, fun through => ?_⟩
    obtain ⟨lower, later⟩ := rest through
    refine ih (by omega) ?_ K environment _ (UserMemory.writable_writeAll _ _ _)
    rwa [← Nat.add_assoc]

theorem confined_writeLoop {inode : Nat} (start : 0 < buffer) (bound : Nat) {offset : Int} {bytesWritten : Nat}
    {bounce : Bool} (below : buffer + bytesWritten ≤ physBase)
    (within : Within memory.readable (buffer + bytesWritten) size.toNat) :
    Confined (· = memory) (writeLoop inode buffer bound size offset bytesWritten bounce) := by
  induction bound generalizing size offset bytesWritten bounce with
  | zero => exact confined_hang
  | succ bound ih =>
    refine confined_ite (fun more => ?_) fun _ => confined_pure bytesWritten
    refine confined_bind (confined_routine _) fun sectorIdx => confined_bind (confined_routine _) fun length => ?_
    dsimp only
    generalize chunked : min size (min (length - offset) (blockSectorSize - offset.tmod blockSectorSize)) = chunk
    refine confined_ite (fun _ => confined_pure bytesWritten) fun some => ?_
    refine confined_bind (confined_ite (fun _ => confined_pure true) fun _ => confined_routine _) fun ready => ?_
    refine confined_ite (fun _ => ?_) fun _ => confined_pure bytesWritten
    refine confined_bind (confined_ite (fun _ => confined_routine _) fun _ => confined_pure _) fun sector => ?_
    obtain ⟨first, rest⟩ := within.chunk (by omega) (chunked ▸ Int.min_le_left _ _)
    rintro K environment world rfl
    rw [accesses_bind, ptrAdd_of_le below, accesses_copyIn _ (by omega) below]
    refine ⟨first, fun bytes fetched => ?_⟩
    simp only [accesses_bind, accesses_routine]
    intro _ kernel _
    obtain ⟨lower, later⟩ := rest (UserMemory.through_of_bytes first fetched)
    refine ih (by omega) ?_ K environment ⟨world.memory, kernel⟩ rfl
    rwa [← Nat.add_assoc]

theorem confined_fileRead {writable : Nat → Bool} {file : Nat} (user : UserAddress buffer)
    (within : Within writable buffer size.toNat) :
    Confined (fun memory => memory.writable = writable) (fileRead file buffer size) := by
  refine confined_bind (confined_routine _) fun inode => confined_bind (confined_routine _) fun pos => ?_
  refine confined_bind (confined_bind ?_ fun bytesRead => confined_bind (confined_routine _) fun _ => confined_pure _)
    fun bytesRead => confined_bind (confined_routine _) fun _ => confined_pure _
  exact confined_readLoop user.1 _ (Nat.le_of_lt user.2) within

theorem confined_fileWrite {file : Nat} (user : UserAddress buffer)
    (within : Within memory.readable buffer size.toNat) : Confined (· = memory) (fileWrite file buffer size) := by
  refine confined_bind (confined_routine _) fun inode => confined_bind (confined_routine _) fun pos => ?_
  refine confined_bind (confined_bind (confined_routine _) fun denied => confined_ite (fun _ => confined_pure 0)
      fun _ => confined_bind ?_ fun _ => confined_bind (confined_routine _) fun _ => confined_pure _)
    fun bytesWritten => confined_bind (confined_routine _) fun _ => confined_pure _
  exact confined_writeLoop user.1 _ (Nat.le_of_lt user.2) within

theorem confined_putbuf {count : Nat} (user : UserAddress buffer) (within : Within memory.readable buffer count) :
    Confined (· = memory) (putbuf buffer count) :=
  confined_bind (confined_routine _) fun _ => confined_bind (confined_putbufLoop count user.1 within) fun _ =>
    confined_routine _

end Buffers

def Bounded (memory : UserMemory) (stackPointer : Nat) : Option Number → Prop
  | some .halt | none => True
  | some .exit | some .wait | some .filesize | some .tell | some .close =>
    memory.Argument (ptrAdd stackPointer 4) fun _ => True
  | some .seek =>
    memory.Argument (ptrAdd stackPointer 4) fun _ => memory.Argument (ptrAdd stackPointer 8) fun _ => True
  | some .exec =>
    memory.Argument (ptrAdd stackPointer 4) fun name => UserAddress name → memory.Terminated name
  | some .create =>
    memory.Argument (ptrAdd stackPointer 4) fun name => UserAddress name →
      memory.Argument (ptrAdd stackPointer 8) fun size => 0 ≤ signed size → memory.Terminated name
  | some .remove | some .open =>
    memory.Argument (ptrAdd stackPointer 4) fun name => UserAddress name →
      Within memory.continues name (nameMax + 1)
  | some .read =>
    memory.Argument (ptrAdd stackPointer 4) fun fd => memory.Argument (ptrAdd stackPointer 8) fun buffer =>
      UserAddress buffer → memory.Argument (ptrAdd stackPointer 12) fun length =>
        2 ≤ signed fd ∧ signed fd ≤ maxFiles + 2 → Within memory.writable buffer (signed length).toNat
  | some .write =>
    memory.Argument (ptrAdd stackPointer 4) fun fd => memory.Argument (ptrAdd stackPointer 8) fun string =>
      UserAddress string → memory.Argument (ptrAdd stackPointer 12) fun length =>
        UserAddress (ptrAdd string length) →
          (fd = 1 → Within memory.readable string length) ∧
            (2 ≤ signed fd ∧ signed fd ≤ maxFiles + 2 → Within memory.readable string (signed length).toNat)

/-- Every argument word the call fetches, every name and every buffer it uses
stays below `PHYS_BASE`, or is cut short below it by an unreadable byte. -/
def Contained (memory : UserMemory) (stackPointer : Nat) : Prop :=
  memory.Argument stackPointer fun number => Bounded memory stackPointer (Number.ofWord number)

section Handlers
variable {K : Type} {environment : Environment K} {world : World K}

theorem accesses_toEax (handler : Routines Int) :
    Accesses environment (toEax handler) world (fun _ _ => True) ↔ Accesses environment handler world fun _ _ => True := by
  simp [toEax]

theorem accesses_keepEax (handler : Routines Unit) :
    Accesses environment (keepEax handler) world (fun _ _ => True) ↔ Accesses environment handler world fun _ _ => True := by
  simp [keepEax]

theorem confined_onFile {A : Type} {invariant : UserMemory → Prop} {fd : Int} {missing : A} {use : Nat → Routines A}
    (used : 2 ≤ fd ∧ fd ≤ maxFiles + 2 → ∀ file, Confined invariant (use file)) :
    Confined invariant (openFile fd >>= fun file => if file = 0 then pure missing else use file) := by
  intro K environment world here
  simp only [openFile, accesses_bind, accesses_ite, accesses_routine, accesses_pure, not_true, false_imp_iff, and_true,
    true_imp_iff]
  exact ⟨fun inRange file kernel _ => ⟨fun _ => here, fun _ => used inRange file K environment _ here⟩, fun _ => here⟩

theorem accesses_of_bounded {stackPointer : Nat} (number : Option Number)
    (bounded : Bounded world.memory stackPointer number) :
    Accesses environment (dispatch stackPointer number) world fun _ _ => True := by
  match number with
  | none => exact accesses_systemExitHelper _ _
  | some .halt => exact (accesses_keepEax _).mpr ⟨nofun, nofun⟩
  | some .exit =>
    simp only [dispatch, accesses_keepEax, systemExit, accesses_fetch]
    exact bounded.mono fun _ _ => accesses_systemExitHelper _ _
  | some .exec =>
    simp only [dispatch, accesses_toEax, systemExec, accesses_fetch, accesses_checked]
    exact bounded.mono fun name terminated user => accesses_of_confined (· = world.memory) rfl
      (confined_processExecute user (terminated user))
  | some .wait =>
    simp only [dispatch, accesses_toEax, systemWait, accesses_fetch]
    exact bounded.mono fun _ _ => accesses_of_confined (· = world.memory) rfl (confined_routine (.processWait _))
  | some .create =>
    simp only [dispatch, accesses_toEax, systemCreate, accesses_fetch, accesses_checked]
    refine bounded.mono fun name arguments user => (arguments user).mono fun size terminated => ?_
    exact accesses_of_confined (· = world.memory) rfl
      (confined_bind (confined_withFilesysLock (confined_filesysCreate user terminated)) fun _ => confined_pure _)
  | some .remove =>
    simp only [dispatch, accesses_toEax, systemRemove, accesses_fetch, accesses_checked]
    refine bounded.mono fun name within user => ?_
    exact accesses_of_confined (· = world.memory) rfl
      (confined_bind (confined_withFilesysLock (confined_filesysRemove user.1 (within user))) fun _ => confined_pure _)
  | some .open =>
    simp only [dispatch, accesses_toEax, systemOpen]
    rw [accesses_bind, accesses_routine]
    intro count kernel _
    simp only [accesses_ite, accesses_pure, accesses_fetch, accesses_checked]
    refine ⟨fun _ => trivial, fun _ => bounded.mono fun name within user => ?_⟩
    refine accesses_of_confined (· = world.memory) rfl
      (confined_bind (confined_withFilesysLock (confined_filesysOpen user.1 (within user))) fun file => ?_)
    exact confined_ite (fun _ => confined_pure (-1)) fun _ => confined_openSlotLoop file maxFiles 0
  | some .filesize =>
    simp only [dispatch, accesses_toEax, systemFilesize, accesses_fetch]
    refine bounded.mono fun fd _ => accesses_of_confined (· = world.memory) rfl
      (confined_onFile fun _ file => confined_withFilesysLock ?_)
    exact confined_bind (confined_routine _) fun inode => confined_routine _
  | some .read =>
    simp only [dispatch, accesses_toEax, systemRead, accesses_fetch, accesses_checked]
    refine bounded.mono fun fd arguments => arguments.mono fun buffer checked user => (checked user).mono fun length within => ?_
    refine accesses_of_confined (fun memory => memory.writable = world.memory.writable) rfl
      (confined_ite (fun _ => ?_) fun _ => confined_onFile fun inRange file => confined_withFilesysLock ?_)
    · exact confined_bind (confined_routine _) fun _ => confined_pure _
    · exact confined_fileRead user (within inRange)
  | some .write =>
    simp only [dispatch, accesses_toEax, systemWrite, accesses_fetch, accesses_checked]
    refine bounded.mono fun fd arguments => arguments.mono fun string checked user =>
      (checked user).mono fun length within ends => ?_
    refine accesses_of_confined (· = world.memory) rfl
      (confined_ite (fun _ => confined_pure 0) fun _ => confined_ite (fun console => ?_) fun _ =>
        confined_onFile fun inRange _ => confined_withFilesysLock ?_)
    · exact confined_bind (confined_putbuf user ((within ends).1 console)) fun _ => confined_pure _
    · exact confined_bind (confined_openFile _) fun file => confined_fileWrite user ((within ends).2 inRange)
  | some .seek =>
    simp only [dispatch, accesses_keepEax, systemSeek, accesses_fetch]
    refine bounded.mono fun fd arguments => arguments.mono fun position _ => ?_
    exact accesses_of_confined (· = world.memory) rfl
      (confined_onFile fun _ file => confined_withFilesysLock (confined_fileSeek file _))
  | some .tell =>
    simp only [dispatch, accesses_toEax, systemTell, accesses_fetch]
    refine bounded.mono fun fd _ => ?_
    exact accesses_of_confined (· = world.memory) rfl
      (confined_onFile fun _ file => confined_withFilesysLock (confined_routine (.filePos file)))
  | some .close =>
    simp only [dispatch, accesses_keepEax, systemClose, accesses_fetch]
    refine bounded.mono fun fd _ => accesses_of_confined (· = world.memory) rfl (confined_onFile fun _ file => ?_)
    exact confined_bind (confined_withFilesysLock (confined_routine (.fileClose file))) fun _ =>
      confined_bind (confined_routine _) fun _ => confined_bind (confined_routine _) fun _ => confined_routine _

end Handlers

def kernelObject : Nat := 0xc0100000

/-- A kernel in which every request is granted: descriptors are open, files are
as long as an `off_t` allows, and the directory holds the given entry. -/
def generous (entry : DirEntry) : Environment Unit := fun which _ =>
  match which with
  | .shutdownPowerOff | .assertionFailed => none
  | .inputGetc => some (0, ())
  | .pallocGetPage | .malloc | .dirOpenRoot | .writeEntry _ _ | .inodeCreate _ _ => some (true, ())
  | .registerChild _ _ | .processWait _ | .numOpenFiles | .filePos _ => some (0, ())
  | .inodeLength _ => some (2 ^ 31 - 1, ())
  | .denyWriteCnt _ => some (0, ())
  | .byteToSector _ _ => some (1, ())
  | .fdPointer _ | .inodeOpen _ | .fileOpen _ | .fileInode _ => some (kernelObject, ())
  | .readEntry _ => some (some entry, ())
  | .freeMapAllocate => some (some 1, ())
  | .blockRead _ => some (fun _ => 0, ())
  | .lockAcquire | .lockRelease | .acquireConsole | .putcharHaveLock _ | .releaseConsole | .free
  | .setNumOpenFiles _ | .setFdPointer _ _ | .dirClose | .freeMapRelease _ | .inodeClose _ | .inodeRemove _
  | .blockWrite _ _ | .fileClose _ | .setFilePos _ _ => some ((), ())

section Necessary
variable {A : Type} {entry : DirEntry} {world : World Unit}

variable {post : A → World Unit → Prop} {condition : Prop} {size offset : Int} {buffer name : Nat}

theorem accesses_generous {which : Routine} {reply : which.Reply} {next : which.Reply → Routines A}
    (answers : generous entry which () = some (reply, ())) :
    Accesses (generous entry) (routine which >>= next) world post ↔ Accesses (generous entry) (next reply) world post := by
  rw [accesses_bind, accesses_routine]
  constructor
  · exact fun replied => replied reply () answers
  · rintro kept other _ same
    cases answers.symm.trans same
    exact kept

theorem within_of_putbufLoop (count : Nat) {address : Nat} {post : Unit → World Unit → Prop} (below : address ≤ physBase)
    (kept : Accesses (generous entry) (putbufLoop count address) world post) :
    Within world.memory.readable address count := by
  induction count generalizing address with
  | zero => exact within_zero below
  | succ count ih =>
    rw [putbufLoop, accesses_loaded] at kept
    obtain ⟨⟨_, low⟩, later⟩ := kept
    rw [within_succ low]
    cases fetched : world.memory.read address with
    | none => exact .inl (by simp [UserMemory.readable, fetched])
    | some byte =>
      have next := (accesses_generous rfl).mp (later byte fetched)
      rw [ptrAdd_one low] at next
      exact .inr (ih low next)

theorem accesses_either {B : Type} [Decidable condition] {reply : B} {first second : Routines B}
    {next : B → Routines A} (yes : ∀ post, Accesses (generous entry) first world post → post reply world)
    (no : ∀ post, Accesses (generous entry) second world post → post reply world)
    (kept : Accesses (generous entry) ((if condition then first else second) >>= next) world post) :
    Accesses (generous entry) (next reply) world post := by
  rw [accesses_bind, accesses_ite] at kept
  by_cases met : condition
  · exact yes _ (kept.1 met)
  · exact no _ (kept.2 met)

theorem accesses_ready [Decidable condition] {next : Bool → Routines A} :
    Accesses (generous entry) ((if condition then pure true else routine .malloc : Routines Bool) >>= next) world post →
      Accesses (generous entry) (next true) world post :=
  accesses_either (fun _ kept => kept) fun _ kept => (accesses_routine .malloc _).mp kept true () rfl

theorem accesses_sector [Decidable condition] {sector : Nat} {next : (Nat → UInt8) → Routines A} :
    Accesses (generous entry) ((if condition then routine (.blockRead sector) else pure fun _ => 0 :
      Routines (Nat → UInt8)) >>= next) world post → Accesses (generous entry) (next fun _ => 0) world post :=
  accesses_either (fun _ kept => (accesses_routine (.blockRead sector) _).mp kept (fun _ => 0) () rfl) fun _ kept => kept

theorem chunk_pos {length : Int} (more : 0 < size) (inside : offset + size ≤ length) :
    0 < min size (min (length - offset) (blockSectorSize - offset.tmod blockSectorSize)) := by
  have bound := Int.tmod_lt_of_pos offset (by decide : (0 : Int) < blockSectorSize)
  omega

theorem within_of_readLoop {inode bound : Nat} {bytesRead : Nat} {bounce : Bool} {post : Nat → World Unit → Prop}
    (buffered : 0 < buffer) (below : buffer + bytesRead ≤ physBase) (enough : size.toNat < bound) (start : 0 ≤ offset)
    (inside : offset + size ≤ 2 ^ 31 - 1)
    (kept : Accesses (generous entry) (readLoop inode buffer bound size offset bytesRead bounce) world post) :
    Within world.memory.writable (buffer + bytesRead) size.toNat := by
  induction bound generalizing size offset bytesRead bounce world with
  | zero => omega
  | succ bound ih =>
    by_cases more : 0 < size
    · rw [readLoop, if_pos more, accesses_generous rfl, accesses_generous rfl] at kept
      dsimp only at kept
      have some := chunk_pos more inside
      have part := Int.min_le_left size (min ((2 ^ 31 - 1) - offset) (blockSectorSize - offset.tmod blockSectorSize))
      generalize min size (min _ _) = chunk at kept some part
      rw [if_neg (by omega)] at kept
      have ready := (accesses_generous rfl).mp (accesses_ready kept)
      rw [accesses_bind, ptrAdd_of_le below, accesses_copyOut _ (by omega) below, length_slice] at ready
      obtain ⟨first, rest⟩ := ready
      rw [show size.toNat = chunk.toNat + (size - chunk).toNat by omega]
      refine first.join fun through => ?_
      have lower := first.fits through
      have later := ih (by omega) (by omega) (by omega) (by omega) (rest through)
      rwa [← Nat.add_assoc, UserMemory.writable_writeAll] at later
    · rw [show size.toNat = 0 by omega]
      exact within_zero below

theorem within_of_writeLoop {inode bound : Nat} {bytesWritten : Nat} {bounce : Bool} {post : Nat → World Unit → Prop}
    (buffered : 0 < buffer) (below : buffer + bytesWritten ≤ physBase) (enough : size.toNat < bound)
    (start : 0 ≤ offset) (inside : offset + size ≤ 2 ^ 31 - 1)
    (kept : Accesses (generous entry) (writeLoop inode buffer bound size offset bytesWritten bounce) world post) :
    Within world.memory.readable (buffer + bytesWritten) size.toNat := by
  induction bound generalizing size offset bytesWritten bounce with
  | zero => omega
  | succ bound ih =>
    by_cases more : 0 < size
    · rw [writeLoop, if_pos more, accesses_generous rfl, accesses_generous rfl] at kept
      dsimp only at kept
      have some := chunk_pos more inside
      have part := Int.min_le_left size (min ((2 ^ 31 - 1) - offset) (blockSectorSize - offset.tmod blockSectorSize))
      generalize min size (min _ _) = chunk at kept some part
      rw [if_neg (by omega)] at kept
      have copying := accesses_sector (accesses_ready kept)
      rw [accesses_bind, ptrAdd_of_le below, accesses_copyIn _ (by omega) below] at copying
      obtain ⟨first, rest⟩ := copying
      rw [show size.toNat = chunk.toNat + (size - chunk).toNat by omega]
      refine first.join fun through => ?_
      have lower := first.fits through
      obtain ⟨bytes, fetched⟩ := UserMemory.bytes_of_readable lower through
      have later := ih (by omega) (by omega) (by omega) (by omega) ((accesses_generous rfl).mp (rest bytes fetched))
      rwa [← Nat.add_assoc] at later
    · rw [show size.toNat = 0 by omega]
      exact within_zero below

theorem terminated_of_strlcpy {source size : Nat} {post : List UInt8 → World Unit → Prop} (user : UserAddress source)
    (kept : Accesses (generous entry) (strlcpy source size) world post) : world.memory.Terminated source := by
  rw [strlcpy, accesses_bind] at kept
  exact terminated_of_strlen user kept

theorem terminated_of_dirAdd {sector : Nat} {post : Bool → World Unit → Prop} (user : UserAddress name)
    (kept : Accesses (generous entry) (dirAdd name sector) world post) : world.memory.Terminated name := by
  rw [dirAdd, accesses_loaded] at kept
  cases stops : world.memory.continues name with
  | false => exact ⟨0, user.2, stops⟩
  | true =>
    simp only [UserMemory.continues] at stops
    cases fetched : world.memory.read name with
    | none => simp [fetched] at stops
    | some byte =>
      have rest := kept.2 byte fetched
      rw [if_neg (by simpa [fetched] using stops), accesses_bind] at rest
      exact terminated_of_strlen user rest

/-- Without an end below `PHYS_BASE` the name runs past it in a comparison with some directory entry. -/
theorem within_of_lookup (user : UserAddress name)
    (kept : ∀ entry, ∃ post, Accesses (generous entry) (lookup name) world post) :
    Within world.memory.continues name (nameMax + 1) := by
  by_contra outside
  have long : physBase - name ≤ nameMax := by
    have := user.2
    by_contra short
    exact outside (.inl (by omega))
  have text : ∀ index < physBase - name, world.memory.continues (name + index) = true := by
    intro index inside
    by_contra stops
    exact outside (.inr ⟨index, by omega, by omega, by simpa using stops⟩)
  let entry : DirEntry := ⟨0, world.memory.text (physBase - name) name, true, by rwa [length_text]⟩
  obtain ⟨_, first⟩ := kept entry
  rw [lookup, show addresses = addresses - 1 + 1 from rfl, lookupLoop, accesses_generous rfl] at first
  dsimp only at first
  rw [if_pos (show entry.inUse = true from rfl), accesses_bind] at first
  exact not_accesses_strcmp (by have := user.2; omega) text first

theorem accesses_onFile {fd : Int} {missing : A} {use : Nat → Routines A} (inRange : 2 ≤ fd ∧ fd ≤ maxFiles + 2)
    (kept : Accesses (generous entry) (openFile fd >>= fun file => if file = 0 then pure missing else use file) world post) :
    Accesses (generous entry) (use kernelObject) world post := by
  rwa [openFile, if_pos inRange, accesses_generous rfl, if_neg (by decide)] at kept

theorem accesses_locked {body : Routines A} (kept : Accesses (generous entry) (withFilesysLock body) world post) :
    ∃ post, Accesses (generous entry) body world post := by
  rw [withFilesysLock, accesses_generous rfl, accesses_bind] at kept
  exact ⟨_, kept⟩

theorem signed_le (word : Nat) : signed word ≤ 2 ^ 31 - 1 := by
  have bound : word % addresses < addresses := Nat.mod_lt _ (Nat.two_pow_pos 32)
  by_cases low : word % addresses < 2 ^ 31
  · rw [signed, if_pos low]
    omega
  · rw [signed, if_neg low]
    simp only [addresses] at *
    omega

theorem within_of_fileRead {length : Nat} {post : Int → World Unit → Prop} (user : UserAddress buffer)
    (kept : Accesses (generous entry) (fileRead kernelObject buffer (signed length)) world post) :
    Within world.memory.writable buffer (signed length).toNat := by
  rw [fileRead, accesses_generous rfl, accesses_generous rfl, accesses_bind, inodeReadAt, accesses_bind] at kept
  have size := signed_le length
  exact within_of_readLoop user.1 (Nat.le_of_lt user.2) (Nat.lt_succ_self _) (Int.le_refl 0) (by omega) kept

theorem within_of_fileWrite {length : Nat} {post : Int → World Unit → Prop} (user : UserAddress buffer)
    (kept : Accesses (generous entry) (fileWrite kernelObject buffer (signed length)) world post) :
    Within world.memory.readable buffer (signed length).toNat := by
  rw [fileWrite, accesses_generous rfl, accesses_generous rfl, accesses_bind, inodeWriteAt, accesses_generous rfl,
    if_neg (by decide), accesses_bind] at kept
  have size := signed_le length
  exact within_of_writeLoop user.1 (Nat.le_of_lt user.2) (Nat.lt_succ_self _) (Int.le_refl 0) (by omega) kept

theorem terminated_of_filesysCreate {post : Bool → World Unit → Prop} (user : UserAddress name) (long : 0 ≤ size)
    (kept : Accesses (generous entry) (filesysCreate name size) world post) :
    world.memory.Terminated name := by
  rw [filesysCreate, accesses_generous rfl, if_pos rfl, accesses_bind, createIn, accesses_generous rfl] at kept
  dsimp only at kept
  rw [inodeCreate, accesses_bind, accesses_bind, accesses_assert] at kept
  have created := (accesses_routine (.inodeCreate 1 size) _).mp (kept (decide_eq_true long)) true () rfl
  rw [if_pos rfl, accesses_bind] at created
  exact terminated_of_dirAdd user created

theorem bounded_of_accesses {memory : UserMemory} {stackPointer : Nat} (number : Option Number)
    (kept : ∀ entry, Accesses (generous entry) (dispatch stackPointer number) ⟨memory, ()⟩ fun _ _ => True) :
    Bounded memory stackPointer number := by
  have blank := kept ⟨0, [], false, Nat.zero_le _⟩
  match number with
  | none | some .halt => trivial
  | some .exit =>
    simp only [dispatch, accesses_keepEax, systemExit, accesses_fetch] at blank
    exact blank.mono fun _ _ => trivial
  | some .exec =>
    simp only [dispatch, accesses_toEax, systemExec, accesses_fetch, accesses_checked] at blank
    refine blank.mono fun name rest user => ?_
    have copying := (accesses_generous rfl).mp (rest user)
    exact terminated_of_strlcpy user ((accesses_bind _ _ _).mp copying)
  | some .wait =>
    simp only [dispatch, accesses_toEax, systemWait, accesses_fetch] at blank
    exact blank.mono fun _ _ => trivial
  | some .create =>
    simp only [dispatch, accesses_toEax, systemCreate, accesses_fetch, accesses_checked] at blank
    refine blank.mono fun name rest user => (rest user).mono fun size created long => ?_
    obtain ⟨_, body⟩ := accesses_locked ((accesses_bind _ _ _).mp created)
    exact terminated_of_filesysCreate user long body
  | some .remove =>
    simp only [dispatch, accesses_toEax, systemRemove, accesses_fetch, accesses_checked] at kept
    refine fun user => ⟨(kept ⟨0, [], false, Nat.zero_le _⟩ user).1, fun name fetched nameUser => ?_⟩
    show Within (World.mk memory ()).memory.continues name (nameMax + 1)
    refine within_of_lookup nameUser fun entry => ?_
    obtain ⟨_, body⟩ := accesses_locked ((accesses_bind _ _ _).mp ((kept entry user).2 name fetched nameUser))
    rw [filesysRemove, accesses_generous rfl, if_pos rfl, accesses_bind, dirRemove, accesses_bind] at body
    exact ⟨_, body⟩
  | some .open =>
    simp only [dispatch, accesses_toEax, systemOpen] at kept
    have fetching := fun entry => (accesses_generous rfl).mp (kept entry)
    simp only [accesses_ite, accesses_pure, accesses_fetch, accesses_checked] at fetching
    have room : ¬ (maxFiles : Int) ≤ 0 := by decide
    refine fun user => ⟨((fetching ⟨0, [], false, Nat.zero_le _⟩).2 room user).1, fun name fetched nameUser => ?_⟩
    show Within (World.mk memory ()).memory.continues name (nameMax + 1)
    refine within_of_lookup nameUser fun entry => ?_
    obtain ⟨_, body⟩ :=
      accesses_locked ((accesses_bind _ _ _).mp (((fetching entry).2 room user).2 name fetched nameUser))
    rw [filesysOpen, accesses_generous rfl, if_pos rfl, accesses_bind, dirLookup, accesses_bind] at body
    exact ⟨_, body⟩
  | some .filesize =>
    simp only [dispatch, accesses_toEax, systemFilesize, accesses_fetch] at blank
    exact blank.mono fun _ _ => trivial
  | some .read =>
    simp only [dispatch, accesses_toEax, systemRead, accesses_fetch, accesses_checked] at blank
    refine blank.mono fun fd rest => rest.mono fun buffer rest user => (rest user).mono fun length body inRange => ?_
    rw [if_neg (by rintro rfl; exact absurd inRange.1 (by decide +kernel))] at body
    obtain ⟨_, reading⟩ := accesses_locked (accesses_onFile inRange body)
    exact within_of_fileRead user reading
  | some .write =>
    simp only [dispatch, accesses_toEax, systemWrite, accesses_fetch, accesses_checked] at blank
    refine blank.mono fun fd rest => rest.mono fun string rest user => (rest user).mono fun length body ends => ?_
    refine ⟨fun console => ?_, fun inRange => ?_⟩
    · have printing := body ends
      rw [if_neg (by rw [console]; decide), if_pos console, accesses_bind, putbuf, accesses_generous rfl, accesses_bind]
        at printing
      exact within_of_putbufLoop length (Nat.le_of_lt user.2) printing
    · have writing := body ends
      rw [if_neg (by rintro rfl; exact absurd inRange.1 (by decide +kernel)),
        if_neg (by rintro rfl; exact absurd inRange.1 (by decide +kernel))] at writing
      obtain ⟨_, writing⟩ := accesses_locked (accesses_onFile inRange writing)
      rw [openFile, if_pos inRange, accesses_generous rfl] at writing
      exact within_of_fileWrite user writing
  | some .seek =>
    simp only [dispatch, accesses_keepEax, systemSeek, accesses_fetch] at blank
    exact blank.mono fun fd rest => rest.mono fun _ _ => trivial
  | some .tell =>
    simp only [dispatch, accesses_toEax, systemTell, accesses_fetch] at blank
    exact blank.mono fun _ _ => trivial
  | some .close =>
    simp only [dispatch, accesses_keepEax, systemClose, accesses_fetch] at blank
    exact blank.mono fun _ _ => trivial

end Necessary

/-- Every byte the call touches is at a user address, and a call that would
touch another one without its pointer checks ends the process with status -1. -/
def KeepsToUser {K : Type} (environment : Environment K) (kernel : K) (memory : UserMemory) (stackPointer : Nat) : Prop :=
  (∀ call ∈ (syscallHandler stackPointer).performed (checked environment) ⟨memory, kernel⟩, call.Lawful) ∧
    ((∃ call ∈ (syscallHandler stackPointer).performed (unchecked environment) ⟨memory, kernel⟩, ¬ call.Lawful) →
      ∃ after, (syscallHandler stackPointer).execute (checked environment) ⟨memory, kernel⟩ =
        .stopped (.exited (-1)) after)

/-- The checks only ever end a call early, with status -1. -/
theorem checked_stricter {K : Type} (environment : Environment K) (call : Call) (world : World K) :
    checked environment call world = unchecked environment call world ∨
      ∃ after, checked environment call world = .stopped (.exited (-1)) after := by
  cases call with
  | checkPointer pointer =>
    simp only [checked, unchecked, answer]
    cases validPointer pointer with
    | true => exact .inl rfl
    | false => exact .inr ⟨world, rfl⟩
  | load | store | systemExitHelper | hang | routine => exact .inl rfl

theorem keepsToUser_iff {K : Type} (environment : Environment K) (kernel : K) (memory : UserMemory) (stackPointer : Nat) :
    KeepsToUser environment kernel memory stackPointer ↔
      Accesses environment (syscallHandler stackPointer) ⟨memory, kernel⟩ fun _ _ => True := by
  rw [Accesses, Procedure.keeps_iff_performed]
  refine ⟨fun kept => kept.1, fun lawful => ⟨lawful, ?_⟩⟩
  rintro ⟨call, made, unlawful⟩
  -- either no check refused anything, and the calls are the same, or one did
  rcases Procedure.performed_of_stricter (checked_stricter environment) (syscallHandler stackPointer) ⟨memory, kernel⟩
    with same | refused
  · rw [same] at made
    exact absurd (lawful call made) unlawful
  · exact refused

theorem user_accesses_confined (memory : UserMemory) (stackPointer : Nat) :
    (∀ (K : Type) (environment : Environment K) (kernel : K), KeepsToUser environment kernel memory stackPointer) ↔
      Contained memory stackPointer := by
  simp only [keepsToUser_iff, syscallHandler, accesses_fetch]
  constructor
  · intro kept user
    refine ⟨(kept Unit (generous ⟨0, [], false, Nat.zero_le _⟩) () user).1, fun number fetched => ?_⟩
    exact bounded_of_accesses _ fun entry => (kept Unit (generous entry) () user).2 number fetched
  · intro contained K environment kernel
    exact contained.mono fun number bounded => accesses_of_bounded _ bounded

/-- A stack at 0xbfffff00 with the words of `read (2, 0xbfffffff, 2)`; every other byte is zero and writable. -/
def overrunMemory : UserMemory where
  read address :=
    if address = 0xbfffff00 then some 8
    else if address = 0xbfffff04 then some 2
    else if 0xbfffff08 ≤ address ∧ address < 0xbfffff0b then some 0xff
    else if address = 0xbfffff0b then some 0xbf
    else if address = 0xbfffff0c then some 2
    else some 0
  writable _ := true

theorem read_overruns_user_memory :
    ¬ KeepsToUser (generous ⟨0, [], false, Nat.zero_le _⟩) () overrunMemory 0xbfffff00 := by
  intro kept
  have stored : ((syscallHandler 0xbfffff00).performed (checked (generous ⟨0, [], false, Nat.zero_le _⟩))
      ⟨overrunMemory, ()⟩).any (fun call => call.touches == some physBase) = true := by decide +kernel
  obtain ⟨call, made, touches⟩ := List.any_eq_true.mp stored
  have user := kept.1 call made physBase (eq_of_beq touches)
  exact Nat.lt_irrefl _ user.2

end Pintos.Syscall
