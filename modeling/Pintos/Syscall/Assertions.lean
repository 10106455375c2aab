import Pintos.Syscall.Descriptors

/-! The assertions of the file system layer (`file_seek`, `inode_create`) and
the offsets that reach `inode_read_at` and `inode_write_at`.

The positions of open files are real here, beside the descriptor table; an
address that is no open file, as slot `MAX_FILES` yields, has no position of its
own and the environment answers for it. The length of an inode is a
non-negative `off_t`, as `inode_create` asserts before it is stored.
-/

set_option autoImplicit false

namespace Pintos.Syscall.Assertions
open Semantics Procedure Descriptors

def offLimit : Nat := 2 ^ 31

structure Files (F : Type) where
  pos : Nat → Option Int
  rest : F

section Kernels
variable {F : Type} (lengths : F → Nat → Fin offLimit) (environment : Environment F)

/-- The environment in which the positions of open files are real. -/
def positioned : Environment (Files F) := fun which files =>
  let forward {A : Type} (answered : Option (A × F)) : Option (A × Files F) :=
    answered.map fun answer => (answer.1, { files with rest := answer.2 })
  match which with
  | .inodeLength inode => some ((lengths files.rest inode : Nat), files)
  | .fileOpen inode => (environment (.fileOpen inode) files.rest).map fun answer =>
      (answer.1, ⟨Function.update files.pos answer.1 (some 0), answer.2⟩)
  | .filePos file =>
    match files.pos file with
    | some pos => some (pos, files)
    | none => forward (environment (.filePos file) files.rest)
  | .setFilePos file pos =>
    match files.pos file with
    | some _ => some ((), { files with pos := Function.update files.pos file (some pos) })
    | none => forward (environment (.setFilePos file pos) files.rest)
  | which => forward (environment which files.rest)

abbrev kernel : Handler calls (World (Process (Files F))) Ending := checked (tabled (positioned lengths environment))

end Kernels

/-- Assertions hold, offsets are in range, and a sector is written as a whole. -/
def Proper : Call → Prop
  | .routine .assertionFailed => False
  | .routine (.byteToSector _ offset) => 0 ≤ offset ∧ offset < offLimit
  | .routine (.setFilePos _ pos) => 0 ≤ pos ∧ pos < offLimit
  | .routine (.inodeCreate _ length) => 0 ≤ length
  | .routine (.blockWrite _ bytes) => bytes.length = blockSectorSize
  | _ => True

instance (call : Call) : Decidable (Proper call) := by
  unfold Proper
  split <;> infer_instance

def named (memory : UserMemory) (stackPointer : Nat) : Option Int :=
  match (memory.word stackPointer).bind Number.ofWord with
  | some .filesize | some .read | some .write | some .seek | some .tell | some .close =>
    (memory.word (ptrAdd stackPointer 4)).map signed
  | _ => none

inductive Event (F : Type) where
  | call (memory : UserMemory) (stackPointer : Nat)
  | others (rest : F)

section Runs
variable {F : Type} (lengths : F → Nat → Fin offLimit) (environment : Environment F)

def step (process : Process (Files F)) : Event F → Option (Process (Files F))
  | .call memory stackPointer =>
    match (syscallHandler stackPointer).execute (kernel lengths environment) ⟨memory, process⟩ with
    | .returned _ after => some after.kernel
    | .stopped _ _ => none
  | .others rest => some { process with files := { process.files with rest := rest } }

def start (rest : F) : Process (Files F) := ⟨⟨fun _ => 0, 0⟩, ⟨fun _ => none, rest⟩⟩

def InBounds : Event F → Prop
  | .call memory stackPointer => named memory stackPointer ≠ some ((maxFiles : Int) + 2)
  | .others _ => True

instance (event : Event F) : Decidable (InBounds event) :=
  match event with
  | .call _ _ => inferInstanceAs (Decidable (_ ≠ _))
  | .others _ => inferInstanceAs (Decidable True)

def allocation : Routines (Option Nat) := do
  routine .lockAcquire
  let dir ← routine .dirOpenRoot
  if dir then routine .freeMapAllocate else pure none

/-- The calls that run into an assertion: a negative position on an open file,
or a negative size when there is a sector for the inode. -/
def Panics (memory : UserMemory) (stackPointer : Nat) (process : Process (Files F)) : Prop :=
  match (memory.fetch stackPointer).bind Number.ofWord with
  | some .seek => ∃ fd position, memory.fetch (ptrAdd stackPointer 4) = some fd ∧
      memory.fetch (ptrAdd stackPointer 8) = some position ∧ process.table.fileOf (signed fd) ≠ 0 ∧ signed position < 0 ∧
      ∃ locked, kernel lengths environment (.routine .lockAcquire) ⟨memory, process⟩ = .returned () locked
  | some .create => ∃ name size, memory.fetch (ptrAdd stackPointer 4) = some name ∧ validPointer name = true ∧
      memory.fetch (ptrAdd stackPointer 8) = some size ∧ signed size < 0 ∧
      ∃ sector after, allocation.execute (kernel lengths environment) ⟨memory, process⟩ = .returned (some sector) after
  | _ => False

end Runs

structure Placed {F : Type} (process : Process (Files F)) : Prop where
  bounded : ∀ file pos, process.files.pos file = some pos → 0 ≤ pos ∧ pos < offLimit
  held : ∀ index < maxFiles, process.table.fdPointers index ≠ 0 →
    (process.files.pos (process.table.fdPointers index)).isSome = true

structure Later {F : Type} (before after : Process (Files F)) : Prop where
  table : after.table = before.table
  real : ∀ file, (before.files.pos file).isSome = true → (after.files.pos file).isSome = true
  bounded : (∀ file pos, before.files.pos file = some pos → 0 ≤ pos ∧ pos < offLimit) →
    ∀ file pos, after.files.pos file = some pos → 0 ≤ pos ∧ pos < offLimit

section Later
variable {F : Type} {first second third : Process (Files F)}

theorem Later.refl (process : Process (Files F)) : Later process process := ⟨rfl, fun _ => id, id⟩

theorem Later.trans (before : Later first second) (after : Later second third) : Later first third :=
  ⟨after.table.trans before.table, fun file there => after.real file (before.real file there),
    fun start => after.bounded (before.bounded start)⟩

theorem Placed.later (placed : Placed first) (later : Later first second) : Placed second := by
  refine ⟨later.bounded placed.bounded, fun index inside used => ?_⟩
  rw [later.table] at used ⊢
  exact later.real _ (placed.held index inside used)

theorem Placed.store {index value : Nat} {count : Int} (placed : Placed first)
    (real : value ≠ 0 → (first.files.pos value).isSome = true) :
    Placed { first with table := ⟨Function.update first.table.fdPointers index value, count⟩ } := by
  refine ⟨placed.bounded, fun other inside used => ?_⟩
  by_cases mine : other = index
  · simp only [mine, Function.update_self] at used ⊢
    exact real used
  · simp only [Function.update_of_ne mine] at used ⊢
    exact placed.held other inside used

theorem Placed.fileOf {fd : Int} (placed : Placed first) (found : first.table.fileOf fd ≠ 0) :
    (first.files.pos (first.table.fileOf fd)).isSome = true := by
  unfold Table.fileOf at found ⊢
  split <;> rename_i range
  · rw [if_pos range] at found
    exact placed.held _ (by omega) found
  · simp [if_neg range] at found

end Later

/-- Calls that leave the table and the positions of open files alone. -/
def Quiet : Call → Prop
  | .routine (.setFilePos _ _) => False
  | other => Call.Outside other

/-- Quiet calls that carry no offset, length or sector and are no failed assertion. -/
def Steady : Call → Prop
  | .routine .assertionFailed | .routine (.byteToSector _ _) | .routine (.setFilePos _ _) => False
  | .routine (.inodeCreate _ _) | .routine (.blockWrite _ _) => False
  | other => Call.Outside other

section Calls
variable {F A : Type} {lengths : F → Nat → Fin offLimit} {environment : Environment F}
  {world : World (Process (Files F))}

variable {call : Call}

theorem quiet_of_steady (steady : Steady call) : Quiet call := by
  cases call with
  | routine which => cases which <;> trivial
  | load | store | checkPointer | systemExitHelper | hang => trivial

theorem proper_of_steady (steady : Steady call) : Proper call := by
  cases call with
  | routine which => cases which <;> trivial
  | load | store | checkPointer | systemExitHelper | hang => trivial

theorem steady_of_plain (plain : call.Plain) : Steady call := by
  cases call with
  | routine which => cases which <;> trivial
  | load | store | checkPointer | systemExitHelper | hang => trivial

theorem later_of_quiet (op : Call) (quiet : Quiet op) (world : World (Process (Files F))) :
    Later world.kernel (kernel lengths environment op world).state.kernel := by
  cases op with
  | load | store | checkPointer =>
    simp only [kernel, checked, answer]
    split <;> exact Later.refl _
  | systemExitHelper | hang => exact Later.refl _
  | routine which =>
    -- every answer keeps the positions, but for the file that `file_open` makes
    have answers : ∀ reply files, positioned lengths environment which world.kernel.files = some (reply, files) →
        Later world.kernel { world.kernel with files := files } := by
      intro reply files replied
      have places : files.pos = world.kernel.files.pos ∨
          ∃ file, files.pos = Function.update world.kernel.files.pos file (some 0) := by
        cases which with
        | setFilePos => exact quiet.elim
        | fileOpen =>
          obtain ⟨answered, -, same⟩ := Option.map_eq_some_iff.mp replied
          cases same
          exact .inr ⟨answered.1, rfl⟩
        | inodeLength =>
          cases replied
          exact .inl rfl
        | filePos file =>
          simp only [positioned] at replied
          split at replied
          · cases replied
            exact .inl rfl
          · obtain ⟨answered, -, same⟩ := Option.map_eq_some_iff.mp replied
            cases same
            exact .inl rfl
        | _ =>
          obtain ⟨answered, -, same⟩ := Option.map_eq_some_iff.mp replied
          cases same
          exact .inl rfl
      rcases places with same | ⟨file, same⟩
      · exact ⟨rfl, fun other there => by simpa [same] using there, fun start other pos at_ => start other pos (by simpa [same] using at_)⟩
      · refine ⟨rfl, fun other there => ?_, fun start other pos at_ => ?_⟩
        · by_cases mine : other = file <;> simp_all
        · by_cases mine : other = file
          · simp only [same, mine, Function.update_self, Option.some.injEq] at at_
            subst at_
            decide
          · exact start other pos (by simpa [same, mine] using at_)
    have forwarded : tabled (positioned lengths environment) which world.kernel =
        (positioned lengths environment which world.kernel.files).map fun answered =>
          (answered.1, { world.kernel with files := answered.2 }) := by
      cases which <;> first | rfl | exact quiet.elim
    simp only [kernel, checked, answer, forwarded]
    cases replied : positioned lengths environment which world.kernel.files with
    | none => exact Later.refl _
    | some answered => exact answers answered.1 answered.2 replied

theorem keeps_quiet {which : Routine} {next : which.Reply → Routines A} {post : A → World (Process (Files F)) → Prop}
    (proper : Proper (.routine which)) (quiet : Quiet (.routine which))
    (after : ∀ reply later, kernel lengths environment (.routine which) world = .returned reply later →
      Later world.kernel later.kernel → Keeps (kernel lengths environment) Proper (next reply) later post) :
    Keeps (kernel lengths environment) Proper (routine which >>= next) world post := by
  refine (keeps_bind _ _ _ _).mpr ⟨proper, fun reply later replied => after reply later replied ?_⟩
  have kept : Later world.kernel (kernel lengths environment (.routine which) world).state.kernel :=
    later_of_quiet _ quiet world
  rwa [replied] at kept

theorem keeps_steady {body : Routines A} (steady : Makes (I := calls) Steady body)
    {post : A → World (Process (Files F)) → Prop}
    (after : ∀ value later, body.execute (kernel lengths environment) world = .returned value later →
      Later world.kernel later.kernel → post value later) :
    Keeps (kernel lengths environment) Proper body world post := by
  refine keeps_mono (fun value later returned => after value later returned ?_)
    (keeps_of_makes (makes_mono (fun _ => proper_of_steady) steady) world)
  have kept : Later world.kernel (body.execute (kernel lengths environment) world).state.kernel :=
    kept_of_performed (fun after => Later world.kernel after.kernel) (fun op before one kept => kept.trans (later_of_quiet op (quiet_of_steady one) before))
      (performed_of_makes steady world) (Later.refl _)
  rwa [returned] at kept

theorem keeps_steady_bind {B : Type} {first : Routines A} {next : A → Routines B} {post : B → World (Process (Files F)) → Prop}
    (steady : Makes (I := calls) Steady first)
    (after : ∀ value later, first.execute (kernel lengths environment) world = .returned value later →
      Later world.kernel later.kernel → Keeps (kernel lengths environment) Proper (next value) later post) :
    Keeps (kernel lengths environment) Proper (first >>= next) world post :=
  (keeps_bind _ _ _ _).mpr (keeps_steady steady after)

end Calls

section Loops
variable {F : Type} {lengths : F → Nat → Fin offLimit} {environment : Environment F}

theorem length_bytes {memory : UserMemory} {count address : Nat} {bytes : List UInt8}
    (fetched : memory.bytes count address = some bytes) : bytes.length = count := by
  induction count generalizing address bytes with
  | zero =>
    cases fetched
    rfl
  | succ count ih =>
    simp only [UserMemory.bytes, Option.bind_eq_some_iff, Option.map_eq_some_iff] at fetched
    obtain ⟨byte, _, rest, later, rfl⟩ := fetched
    simp [ih later]

variable {size offset : Int}

/-- The arithmetic of one round: the part of a sector that is copied. -/
theorem chunk_bounds {length : Int} (start : 0 ≤ offset) (inside : length < offLimit)
    (some : ¬ min size (min (length - offset) (blockSectorSize - offset.tmod blockSectorSize)) ≤ 0) :
    let chunk := min size (min (length - offset) (blockSectorSize - offset.tmod blockSectorSize))
    0 ≤ offset.tmod blockSectorSize ∧ offset.tmod blockSectorSize + chunk ≤ blockSectorSize ∧ 0 < chunk ∧
      0 ≤ offset + chunk ∧ offset + chunk < offLimit := by
  have low := Int.tmod_nonneg (blockSectorSize : Int) start
  have high := Int.tmod_lt_of_pos offset (by decide : (0 : Int) < blockSectorSize)
  dsimp only
  omega

theorem keeps_readLoop (inode buffer bound : Nat) {bytesRead : Nat} {bounce : Bool}
    {world : World (Process (Files F))} (start : 0 ≤ offset) (inside : offset < offLimit) :
    Keeps (kernel lengths environment) Proper (readLoop inode buffer bound size offset bytesRead bounce) world
      fun total after => Later world.kernel after.kernel ∧ bytesRead ≤ total ∧ offset + (total - bytesRead : Int) < offLimit := by
  induction bound generalizing size offset bytesRead bounce world with
  | zero => exact ⟨trivial, nofun⟩
  | succ bound ih =>
    unfold readLoop
    split
    · refine keeps_quiet ⟨start, inside⟩ trivial fun sectorIdx found _ first => ?_
      refine keeps_quiet trivial trivial fun length measured replied second => ?_
      have limit : length < offLimit := by
        cases replied
        exact Int.ofNat_lt.mpr (lengths _ _).isLt
      have here := first.trans second
      dsimp only
      split <;> rename_i chunk
      · exact ⟨here, Nat.le_refl _, by omega⟩
      · obtain ⟨-, -, some, low, high⟩ := chunk_bounds start limit chunk
        refine keeps_steady_bind (makes_ite trivial ⟨trivial, fun _ => trivial⟩) fun ready tried _ third => ?_
        cases ready with
        | false => exact ⟨here.trans third, Nat.le_refl _, by omega⟩
        | true =>
          refine keeps_quiet trivial trivial fun sector read _ fourth => ?_
          refine keeps_steady_bind (makes_mono (fun _ => steady_of_plain) (plain_copyOut _ _)) fun _ copied _ fifth => ?_
          refine keeps_mono (fun total after rest => ?_) (ih low high)
          obtain ⟨later, more, less⟩ := rest
          exact ⟨here.trans (third.trans (fourth.trans (fifth.trans later))), by omega, by omega⟩
    · exact ⟨Later.refl _, Nat.le_refl _, by omega⟩

/-- The offsets stay in range along the loop of `inode_write_at`, and whole sectors are written. -/
theorem keeps_writeLoop (inode buffer bound : Nat) {bytesWritten : Nat} {bounce : Bool}
    {world : World (Process (Files F))} (start : 0 ≤ offset) (inside : offset < offLimit) :
    Keeps (kernel lengths environment) Proper (writeLoop inode buffer bound size offset bytesWritten bounce) world
      fun total after => Later world.kernel after.kernel ∧ bytesWritten ≤ total ∧ offset + (total - bytesWritten : Int) < offLimit := by
  induction bound generalizing size offset bytesWritten bounce world with
  | zero => exact ⟨trivial, nofun⟩
  | succ bound ih =>
    unfold writeLoop
    split
    · refine keeps_quiet ⟨start, inside⟩ trivial fun sectorIdx found _ first => ?_
      refine keeps_quiet trivial trivial fun length measured replied second => ?_
      have limit : length < offLimit := by
        cases replied
        exact Int.ofNat_lt.mpr (lengths _ _).isLt
      have here := first.trans second
      dsimp only
      split <;> rename_i chunk
      · exact ⟨here, Nat.le_refl _, by omega⟩
      · obtain ⟨ofs, fits, some, low, high⟩ := chunk_bounds start limit chunk
        refine keeps_steady_bind (makes_ite trivial ⟨trivial, fun _ => trivial⟩) fun ready tried _ third => ?_
        cases ready with
        | false => exact ⟨here.trans third, Nat.le_refl _, by omega⟩
        | true =>
          refine keeps_steady_bind (makes_ite ⟨trivial, fun _ => trivial⟩ trivial) fun sector read _ fourth => ?_
          refine keeps_steady_bind (makes_mono (fun _ => steady_of_plain) (plain_copyIn _ _)) fun bytes copied fetched fifth => ?_
          have count : bytes.length = (min size (min (length - offset) (blockSectorSize - offset.tmod blockSectorSize))).toNat := by
            rcases execute_copyIn _ _ with ⟨found, read_, returned⟩ | ⟨-, fault, faulted⟩
            · cases returned.symm.trans fetched
              exact length_bytes read_
            · cases faulted.symm.trans fetched
          have whole : (slice sector 0 (offset.tmod blockSectorSize).toNat ++ bytes ++ slice sector
              (offset.tmod blockSectorSize + min size (min (length - offset) (blockSectorSize - offset.tmod blockSectorSize))).toNat
              (blockSectorSize - offset.tmod blockSectorSize -
                min size (min (length - offset) (blockSectorSize - offset.tmod blockSectorSize))).toNat).length = blockSectorSize := by
            simp only [List.length_append, length_slice, count]
            omega
          refine keeps_quiet whole trivial fun _ written _ sixth => keeps_mono (fun total after rest => ?_) (ih low high)
          obtain ⟨later, more, less⟩ := rest
          exact ⟨here.trans (third.trans (fourth.trans (fifth.trans (sixth.trans later)))), by omega, by omega⟩
    · exact ⟨Later.refl _, Nat.le_refl _, by omega⟩

end Loops

section Positions
variable {F : Type} {lengths : F → Nat → Fin offLimit} {environment : Environment F} {world : World (Process (Files F))}
  {file : Nat}

def Real (file : Nat) (process : Process (Files F)) : Prop := (process.files.pos file).isSome = true

theorem keeps_setFilePos {pos : Int} (real : Real file world.kernel) (low : 0 ≤ pos) (high : pos < offLimit) :
    Keeps (kernel lengths environment) Proper (routine (.setFilePos file pos)) world
      fun _ after => Later world.kernel after.kernel := by
  refine ⟨⟨low, high⟩, fun reply after replied => ?_⟩
  obtain ⟨old, here⟩ := Option.isSome_iff_exists.mp real
  simp only [kernel, checked, answer, tabled, positioned, here, Option.map_some] at replied
  cases replied
  refine ⟨rfl, fun other there => ?_, fun start other found at_ => ?_⟩
  · by_cases mine : other = file <;> simp_all
  · by_cases mine : other = file
    · simp only [mine, Function.update_self, Option.some.injEq] at at_
      exact at_ ▸ ⟨low, high⟩
    · exact start other found (by simpa [mine] using at_)

theorem keeps_filePos {A : Type} {next : Int → Routines A} {post : A → World (Process (Files F)) → Prop}
    (placed : Placed world.kernel) (real : Real file world.kernel)
    (after : ∀ pos : Int, 0 ≤ pos → pos < offLimit → Keeps (kernel lengths environment) Proper (next pos) world post) :
    Keeps (kernel lengths environment) Proper (routine (.filePos file) >>= next) world post := by
  obtain ⟨pos, here⟩ := Option.isSome_iff_exists.mp real
  refine (keeps_bind _ _ _ _).mpr ⟨trivial, fun reply later replied => ?_⟩
  simp only [kernel, checked, answer, tabled, positioned, here, Option.map_some] at replied
  cases replied
  exact after pos (placed.bounded file pos here).1 (placed.bounded file pos here).2

theorem keeps_fileRead {buffer : Nat} {size : Int} (placed : Placed world.kernel) (real : Real file world.kernel) :
    Keeps (kernel lengths environment) Proper (fileRead file buffer size) world
      fun _ after => Later world.kernel after.kernel := by
  refine keeps_quiet trivial trivial fun inode opened _ first => ?_
  refine keeps_filePos (placed.later first) (first.real file real) fun pos low high => ?_
  refine (keeps_bind _ _ _ _).mpr ((keeps_bind _ _ _ _).mpr ?_)
  refine keeps_mono (fun total copied moved => ?_) (keeps_readLoop inode buffer _ low high)
  obtain ⟨second, -, less⟩ := moved
  refine keeps_quiet trivial trivial fun _ freed _ third => ?_
  have here := first.trans (second.trans third)
  refine (keeps_bind _ _ _ _).mpr (keeps_mono (fun _ after last => here.trans last) ?_)
  exact keeps_setFilePos (here.real file real) (by omega) (by omega)

theorem keeps_fileWrite {buffer : Nat} {size : Int} (placed : Placed world.kernel) (real : Real file world.kernel) :
    Keeps (kernel lengths environment) Proper (fileWrite file buffer size) world
      fun _ after => Later world.kernel after.kernel := by
  refine keeps_quiet trivial trivial fun inode opened _ first => ?_
  refine keeps_filePos (placed.later first) (first.real file real) fun pos low high => ?_
  refine (keeps_bind _ _ _ _).mpr (keeps_quiet trivial trivial fun denied asked _ second => ?_)
  have stored : ∀ (total : Nat) (before : World (Process (Files F))), Later world.kernel before.kernel → pos + total < offLimit →
      Keeps (kernel lengths environment) Proper (do routine (.setFilePos file (pos + total)); pure (total : Int)) before
        fun _ after => Later world.kernel after.kernel := by
    intro total before here less
    refine (keeps_bind _ _ _ _).mpr (keeps_mono (fun _ after last => here.trans last) ?_)
    exact keeps_setFilePos (here.real file real) (by omega) less
  split
  · exact stored 0 asked (first.trans second) (by omega)
  · refine (keeps_bind _ _ _ _).mpr (keeps_mono (fun total copied moved => ?_) (keeps_writeLoop inode buffer _ low high))
    obtain ⟨third, -, less⟩ := moved
    refine keeps_quiet trivial trivial fun _ freed _ fourth => ?_
    exact stored total freed (first.trans (second.trans (third.trans fourth))) (by omega)

end Positions

section Parts
variable {F A : Type} {lengths : F → Nat → Fin offLimit} {environment : Environment F} {world : World (Process (Files F))}
  {post : A → World (Process (Files F)) → Prop}

theorem keeps_word {address : Nat} {next : Nat → Routines A}
    (after : ∀ word, world.memory.fetch address = some word →
      Keeps (kernel lengths environment) Proper (next word) world post) :
    Keeps (kernel lengths environment) Proper (argument address >>= next) world post := by
  have fetches : Makes (I := calls) Proper (argument address) := makes_argument (fun _ => trivial) (fun _ => trivial) address
  refine (keeps_bind _ _ _ _).mpr (keeps_mono (fun word final returned => ?_) (keeps_of_makes fetches world))
  obtain ⟨fetched, rfl⟩ := argument_returned.mp returned
  exact after word fetched

theorem keeps_pointer {pointer : Nat} {next : Unit → Routines A}
    (after : validPointer pointer = true → Keeps (kernel lengths environment) Proper (next ()) world post) :
    Keeps (kernel lengths environment) Proper (checkPointer pointer >>= next) world post := by
  refine (keeps_bind _ _ _ _).mpr ⟨trivial, fun reply final replied => ?_⟩
  simp only [kernel, checked, answer] at replied
  split at replied <;> rename_i refused
  · cases replied
  · cases replied
    exact after (by simpa using refused)

theorem keeps_file {fd : Int} {missing : A} {use : Nat → Routines A} (placed : Placed world.kernel)
    (bounded : fd ≠ maxFiles + 2) (without : post missing world)
    (present : ∀ file, world.kernel.table.fileOf fd = file → file ≠ 0 → Real file world.kernel →
      Keeps (kernel lengths environment) Proper (use file) world post) :
    Keeps (kernel lengths environment) Proper
      (openFile fd >>= fun file => if file = 0 then pure missing else use file) world post := by
  refine (keeps_bind _ _ _ _).mpr (keeps_openFile bounded (fun _ _ => trivial) ?_)
  split <;> rename_i found
  · exact without
  · exact present _ rfl found (placed.fileOf found)

variable {body : Routines A}

/-- What the body establishes under the lock, if it is kept by what comes later. -/
theorem keeps_locked (good : A → Process (Files F) → Prop)
    (stable : ∀ value before after, Later before after → good value before → good value after)
    (kept : ∀ locked, kernel lengths environment (.routine .lockAcquire) world = .returned () locked → Later world.kernel locked.kernel → Keeps (kernel lengths environment) Proper body locked fun value after => good value after.kernel) :
    Keeps (kernel lengths environment) Proper (withFilesysLock body) world fun value after => good value after.kernel := by
  refine keeps_quiet trivial trivial fun _ locked replied before => (keeps_bind _ _ _ _).mpr ?_
  refine keeps_mono (fun value after held => ?_) (kept locked replied before)
  exact keeps_quiet trivial trivial fun _ final _ last => stable value _ _ last held

theorem keeps_locked_later
    (kept : ∀ locked, kernel lengths environment (.routine .lockAcquire) world = .returned () locked → Later world.kernel locked.kernel → Keeps (kernel lengths environment) Proper body locked fun _ after => Later locked.kernel after.kernel) :
    Keeps (kernel lengths environment) Proper (withFilesysLock body) world fun _ after => Later world.kernel after.kernel :=
  keeps_locked (fun _ after => Later world.kernel after) (fun _ _ _ last before => before.trans last) fun locked replied before =>
    keeps_mono (fun _ _ later => before.trans later) (kept locked replied before)

theorem keeps_plain (plain : Plain body) :
    Keeps (kernel lengths environment) Proper body world fun _ after => Later world.kernel after.kernel :=
  keeps_steady (makes_mono (fun _ => steady_of_plain) plain) fun _ _ _ later => later

theorem keeps_fileOpen {inode : Nat} :
    Keeps (kernel lengths environment) Proper (routine (.fileOpen inode)) world
      fun file after => Later world.kernel after.kernel ∧ Real file after.kernel := by
  refine keeps_quiet trivial trivial fun file after replied later => ⟨later, ?_⟩
  simp only [kernel, checked, answer, tabled, positioned] at replied
  cases answered : environment (.fileOpen inode) world.kernel.files.rest with
  | none =>
    simp only [answered, Option.map_none] at replied
    cases replied
  | some reply =>
    simp only [answered, Option.map_some] at replied
    cases replied
    simp [Real]

theorem keeps_filesysOpen {name : Nat} :
    Keeps (kernel lengths environment) Proper (filesysOpen name) world
      fun file after => Later world.kernel after.kernel ∧ Real file after.kernel := by
  refine keeps_quiet trivial trivial fun dir opened _ first => ?_
  have opens : ∀ (inode : Nat) (before : World (Process (Files F))), Later world.kernel before.kernel →
      Keeps (kernel lengths environment) Proper (routine (.fileOpen inode)) before
        fun file after => Later world.kernel after.kernel ∧ Real file after.kernel :=
    fun inode before here => keeps_mono (fun _ _ both => ⟨here.trans both.1, both.2⟩) keeps_fileOpen
  cases dir with
  | false => exact opens 0 opened first
  | true =>
    refine keeps_steady_bind (makes_mono (fun _ => steady_of_plain) (plain_dirLookup name)) fun inode found _ second => ?_
    exact keeps_quiet trivial trivial fun _ closed _ third => opens inode closed (first.trans (second.trans third))

theorem keeps_openSlotLoop {file : Nat} (placed : Placed world.kernel) (real : Real file world.kernel) (left i : Nat)
    (covers : left + i = maxFiles) :
    Keeps (kernel lengths environment) Proper (openSlotLoop file left i) world fun _ after => Placed after.kernel := by
  induction left generalizing i with
  | zero => exact placed
  | succ left ih =>
    refine ⟨trivial, fun pointer looked first => ?_⟩
    cases first
    show Keeps _ _ (if world.kernel.table.pointer i = 0 then _ else openSlotLoop file left (i + 1)) _ _
    split
    · refine ⟨trivial, fun _ stored second => ?_⟩
      cases second
      refine ⟨trivial, fun count counting third => ?_⟩
      cases third
      refine ⟨trivial, fun _ final fourth => ?_⟩
      cases fourth
      simp only [Table.setPointer_of_lt (by omega : i < maxFiles)]
      exact placed.store (fun _ => real)
    · exact ih (i + 1) (by omega)

end Parts

section Panicking
variable {F : Type} {lengths : F → Nat → Fin offLimit} {environment : Environment F} {world : World (Process (Files F))}

theorem signed_lt (word : Nat) : signed word < offLimit := by
  have below := Nat.mod_lt word (by decide : 0 < addresses)
  have wrap : addresses = offLimit + offLimit := by decide
  unfold signed
  split <;> rename_i low
  · exact Int.ofNat_lt.mpr low
  · omega

theorem keeps_fileSeek {file : Nat} {position : Int} (real : Real file world.kernel) (low : 0 ≤ position)
    (high : position < offLimit) :
    Keeps (kernel lengths environment) Proper (fileSeek file position) world fun _ after => Later world.kernel after.kernel := by
  rw [fileSeek, assert, if_pos (by simpa using low)]
  exact keeps_setFilePos real low high

theorem not_keeps_assert {A : Type} {allowed : Call → Prop} {condition : Prop} [Decidable condition]
    {next : Unit → Routines A} {post : A → World (Process (Files F)) → Prop} (fatal : ¬ allowed (.routine .assertionFailed))
    (fails : ¬ condition) :
    ¬ Keeps (kernel lengths environment) allowed (assert (decide condition) >>= next) world post := by
  rw [assert, if_neg (by simpa using fails)]
  exact fun kept => fatal kept.1

theorem routine_returned (which : Routine) {reply : which.Reply} {after : World (Process (Files F))} :
    (routine which).execute (kernel lengths environment) world = .returned reply after ↔
      kernel lengths environment (.routine which) world = .returned reply after := by
  rw [routine, execute_perform]

theorem allocation_returned {sector : Nat} {after : World (Process (Files F))} :
    allocation.execute (kernel lengths environment) world = .returned (some sector) after ↔
      ∃ locked opened, kernel lengths environment (.routine .lockAcquire) world = .returned () locked ∧
        kernel lengths environment (.routine .dirOpenRoot) locked = .returned true opened ∧
        kernel lengths environment (.routine .freeMapAllocate) opened = .returned (some sector) after := by
  simp only [allocation, execute_bind, Computation.bind_returned]
  constructor
  · rintro ⟨_, locked, first, dir, opened, second, rest⟩
    cases dir with
    | false => cases rest
    | true =>
      exact ⟨locked, opened, (routine_returned .lockAcquire).mp first, (routine_returned .dirOpenRoot).mp second,
        (routine_returned .freeMapAllocate).mp rest⟩
  · rintro ⟨locked, opened, first, second, third⟩
    exact ⟨(), locked, (routine_returned .lockAcquire).mpr first, true, opened, (routine_returned .dirOpenRoot).mpr second,
      (routine_returned .freeMapAllocate).mpr third⟩

/-- A file is created without a failed assertion if its size is not negative
whenever there is a sector for its inode. -/
theorem keeps_create {name : Nat} {size : Int}
    (sized : ∀ sector after, allocation.execute (kernel lengths environment) world = .returned (some sector) after → 0 ≤ size) :
    Keeps (kernel lengths environment) Proper (withFilesysLock (filesysCreate name size)) world
      fun _ after => Later world.kernel after.kernel := by
  refine keeps_locked_later fun locked acquired _ => keeps_quiet trivial trivial fun dir opened found first => ?_
  cases dir with
  | false => exact first
  | true =>
    refine (keeps_bind _ _ _ _).mpr (keeps_quiet trivial trivial fun allocated after taken second => ?_)
    have closes : ∀ (success : Bool) (before : World (Process (Files F))), Later locked.kernel before.kernel →
        Keeps (kernel lengths environment) Proper (do routine .dirClose; pure success) before
          fun _ after => Later locked.kernel after.kernel :=
      fun success before here => keeps_quiet trivial trivial fun _ _ _ last => here.trans last
    cases allocated with
    | none => exact closes false after (first.trans second)
    | some sector =>
      have low : 0 ≤ size := sized sector after (allocation_returned.mpr ⟨locked, opened, acquired, found, taken⟩)
      refine (keeps_bind _ _ _ _).mpr ?_
      rw [inodeCreate, assert, if_pos (by simpa using low)]
      refine ⟨low, fun created made replied => ?_⟩
      have third : Later after.kernel (kernel lengths environment (.routine (.inodeCreate sector size)) after).state.kernel :=
        later_of_quiet (.routine (.inodeCreate sector size)) trivial after
      rw [replied] at third
      refine keeps_steady_bind (makes_mono (fun _ => steady_of_plain) (makes_ite (plain_dirAdd name sector) trivial))
        fun success added _ fourth => ?_
      refine keeps_steady_bind (makes_mono (fun _ => steady_of_plain) (makes_ite (plain_routine trivial) trivial))
        fun _ released _ fifth => ?_
      exact closes success released (first.trans (second.trans (third.trans (fourth.trans fifth))))

end Panicking

section Requests
variable {F : Type} {lengths : F → Nat → Fin offLimit} {environment : Environment F} {memory : UserMemory} {stackPointer : Nat}
  {process : Process (Files F)}

section
variable (placed : Placed process)
include placed

section
variable (bounded : ∀ fd, memory.fetch (ptrAdd stackPointer 4) = some fd → signed fd ≠ maxFiles + 2)
include bounded

theorem keeps_systemRead : Keeps (kernel lengths environment) Proper (systemRead stackPointer) ⟨memory, process⟩
      fun _ after => Later process after.kernel := by
  refine keeps_word fun fd fetched => keeps_word fun buffer _ => keeps_pointer fun _ => keeps_word fun length _ => ?_
  split
  · exact keeps_quiet trivial trivial fun _ _ _ later => later
  · refine keeps_file placed (bounded fd fetched) (Later.refl _) fun file _ _ real => ?_
    exact keeps_locked_later fun locked _ before => keeps_fileRead (placed.later before) (before.real file real)

theorem keeps_systemWrite : Keeps (kernel lengths environment) Proper (systemWrite stackPointer) ⟨memory, process⟩
      fun _ after => Later process after.kernel := by
  refine keeps_word fun fd fetched => keeps_word fun string _ => keeps_pointer fun _ => keeps_word fun length _ => ?_
  refine keeps_pointer fun _ => ?_
  split
  · exact Later.refl _
  · split
    · exact keeps_plain (makes_bind (plain_putbuf string length) fun _ => trivial)
    · refine keeps_file placed (bounded fd fetched) (Later.refl _) fun file found _ real => ?_
      refine keeps_locked_later fun locked _ before => (keeps_bind _ _ _ _).mpr ?_
      refine keeps_openFile (bounded fd fetched) (fun _ _ => trivial) ?_
      rw [before.table, found]
      exact keeps_fileWrite (placed.later before) (before.real file real)

theorem keeps_systemSeek (calm : ∀ fd position, memory.fetch (ptrAdd stackPointer 4) = some fd →
      memory.fetch (ptrAdd stackPointer 8) = some position → process.table.fileOf (signed fd) ≠ 0 →
      (∃ locked, kernel lengths environment (.routine .lockAcquire) ⟨memory, process⟩ = .returned () locked) →
      0 ≤ signed position) :
    Keeps (kernel lengths environment) Proper (systemSeek stackPointer) ⟨memory, process⟩
      fun _ after => Later process after.kernel := by
  refine keeps_word fun fd fetched => keeps_word fun position given => ?_
  refine keeps_file placed (bounded fd fetched) (Later.refl _) fun file found present real => ?_
  refine keeps_locked_later fun locked acquired before => ?_
  have low := calm fd position fetched given (by rwa [← found] at present) ⟨locked, acquired⟩
  exact keeps_fileSeek (before.real file real) low (signed_lt position)

end

theorem keeps_systemOpen : Keeps (kernel lengths environment) Proper (systemOpen stackPointer) ⟨memory, process⟩
      fun _ after => Placed after.kernel := by
  refine ⟨trivial, fun count counting first => ?_⟩
  cases first
  show Keeps _ _ (if (maxFiles : Int) ≤ process.table.numOpenFiles then _ else _) _ _
  split
  · exact placed
  · refine keeps_word fun name _ => keeps_pointer fun _ => (keeps_bind _ _ _ _).mpr ?_
    refine keeps_mono (fun file opened both => ?_) (keeps_locked (fun file after => Later process after ∧ Real file after) ?_
      fun locked _ before => keeps_mono (fun _ _ both => ⟨before.trans both.1, both.2⟩) keeps_filesysOpen)
    · split
      · exact placed.later both.1
      · exact keeps_openSlotLoop (placed.later both.1) both.2 maxFiles 0 rfl
    · exact fun value before after last both => ⟨both.1.trans last, last.real value both.2⟩

theorem keeps_systemClose (bounded : ∀ fd, memory.fetch (ptrAdd stackPointer 4) = some fd → signed fd ≠ maxFiles + 2) :
    Keeps (kernel lengths environment) Proper (systemClose stackPointer) ⟨memory, process⟩
      fun _ after => Placed after.kernel := by
  refine keeps_word fun fd fetched => keeps_file placed (bounded fd fetched) placed fun file found present _ => ?_
  refine (keeps_bind _ _ _ _).mpr (keeps_mono (fun _ closed later => ?_) (keeps_locked_later fun locked _ _ =>
    keeps_plain (plain_routine trivial)))
  have below : (signed fd - 2).toNat < maxFiles := by
    by_contra out
    exact present (found.symm.trans (if_neg (by omega)))
  refine ⟨trivial, fun count counting first => ?_⟩
  cases first
  refine ⟨trivial, fun _ lowered second => ?_⟩
  cases second
  refine ⟨trivial, fun _ final third => ?_⟩
  cases third
  simp only [Table.setPointer_of_lt below]
  exact (placed.later later).store fun some => absurd rfl some

/-- Away from the calls that panic, a call in bounds runs into no assertion. -/
theorem keeps_syscallHandler (bounded : named memory stackPointer ≠ some ((maxFiles : Int) + 2))
    (calm : ¬ Panics lengths environment memory stackPointer process) :
    Keeps (kernel lengths environment) Proper (syscallHandler stackPointer) ⟨memory, process⟩
      fun _ after => Placed after.kernel := by
  refine keeps_word fun word fetched => ?_
  have read : memory.word stackPointer = some word := UserMemory.word_of_fetch fetched
  have settled : ∀ {A : Type} {body : Routines A},
      Keeps (kernel lengths environment) Proper body ⟨memory, process⟩ (fun _ after => Later process after.kernel) →
      Keeps (kernel lengths environment) Proper body ⟨memory, process⟩ fun _ after => Placed after.kernel :=
    fun kept => keeps_mono (fun _ _ later => placed.later later) kept
  have bound : (memory.word (ptrAdd stackPointer 4)).map signed ≠ some ((maxFiles : Int) + 2) →
      ∀ fd, memory.fetch (ptrAdd stackPointer 4) = some fd → signed fd ≠ maxFiles + 2 := by
    intro bounded fd given same
    rw [UserMemory.word_of_fetch given, Option.map_some, same] at bounded
    exact bounded rfl
  cases called : Number.ofWord word with
  | none => exact ⟨trivial, nofun⟩
  | some number =>
    simp only [named, read, Option.bind_some, called] at bounded
    simp only [Panics, fetched, Option.bind_some, called] at calm
    cases number with
    | halt => exact ⟨trivial, nofun⟩
    | exit => exact keeps_keepEax (keeps_word fun status _ => ⟨trivial, nofun⟩)
    | exec =>
      refine keeps_toEax (keeps_word fun name _ => keeps_pointer fun _ => settled ?_)
      exact keeps_plain (plain_processExecute name)
    | wait => exact keeps_toEax (keeps_word fun pid _ => settled (keeps_plain (plain_routine trivial)))
    | create =>
      refine keeps_toEax (keeps_word fun name given => keeps_pointer fun valid => keeps_word fun size sized => settled ?_)
      refine (keeps_bind _ _ _ _).mpr (keeps_create fun sector after taken => ?_)
      by_contra negative
      exact calm ⟨name, size, given, valid, sized, by omega, sector, after, taken⟩
    | remove =>
      refine keeps_toEax (keeps_word fun name _ => keeps_pointer fun _ => settled ?_)
      exact (keeps_bind _ _ _ _).mpr (keeps_locked_later fun locked _ _ => keeps_plain (plain_filesysRemove name))
    | «open» => exact keeps_toEax (keeps_systemOpen placed)
    | filesize =>
      refine keeps_toEax (keeps_word fun fd given => settled (keeps_file placed (bound bounded fd given) (Later.refl _) ?_))
      exact fun file _ _ _ => keeps_locked_later fun locked _ _ => keeps_plain (plain_fileLength file)
    | read => exact keeps_toEax (settled (keeps_systemRead placed (bound bounded)))
    | write => exact keeps_toEax (settled (keeps_systemWrite placed (bound bounded)))
    | seek =>
      refine keeps_keepEax (settled (keeps_systemSeek placed (bound bounded) fun fd position given stated present locked => ?_))
      by_contra negative
      exact calm ⟨fd, position, given, stated, present, by omega, locked⟩
    | tell =>
      refine keeps_toEax (keeps_word fun fd given => settled (keeps_file placed (bound bounded fd given) (Later.refl _) ?_))
      exact fun file _ _ _ => keeps_locked_later fun locked _ _ => keeps_plain (plain_routine trivial)
    | close => exact keeps_keepEax (keeps_systemClose placed (bound bounded))

end

theorem not_keeps_of_panics {allowed : Call → Prop} (fatal : ¬ allowed (.routine .assertionFailed))
    (panics : Panics lengths environment memory stackPointer process) :
    ¬ Keeps (kernel lengths environment) allowed (syscallHandler stackPointer) ⟨memory, process⟩ fun _ _ => True := by
  intro kept
  have fetched : ∀ {address word : Nat}, memory.fetch address = some word →
      (argument address).execute (kernel lengths environment) ⟨memory, process⟩ = .returned word ⟨memory, process⟩ :=
    fun given => argument_returned.mpr ⟨given, rfl⟩
  unfold Panics at panics
  split at panics <;> rename_i called
  · -- seek: the handler gets as far as the assertion of `file_seek`
    obtain ⟨word, given, number⟩ := Option.bind_eq_some_iff.mp called
    obtain ⟨fd, position, first, second, present, negative, locked, acquired⟩ := panics
    have handler := keeps_rest (fetched given) kept
    rw [number] at handler
    have started := keeps_rest (fetched first) ((keeps_bind (systemSeek stackPointer) _ _ _).mp handler)
    have placing := keeps_rest (fetched second) started
    have found := keeps_rest (openFile_returned present) placing
    rw [if_neg present] at found
    have seeking := keeps_rest ((routine_returned .lockAcquire).mpr acquired) found
    exact not_keeps_assert fatal (by omega) ((keeps_bind (fileSeek _ _) _ _ _).mp seeking)
  · -- create: the handler gets as far as the assertion of `inode_create`
    obtain ⟨word, given, number⟩ := Option.bind_eq_some_iff.mp called
    obtain ⟨name, size, first, valid, second, negative, sector, after, taken⟩ := panics
    obtain ⟨locked, opened, acquired, root, allocated⟩ := allocation_returned.mp taken
    have handler := keeps_rest (fetched given) kept
    rw [number] at handler
    have started := keeps_rest (fetched first) ((keeps_bind (systemCreate stackPointer) _ _ _).mp handler)
    have checking : (checkPointer name).execute (kernel lengths environment) ⟨memory, process⟩ =
        .returned () ⟨memory, process⟩ := by rw [execute_checkPointer, if_pos valid]
    have sizing := keeps_rest checking started
    have passed := keeps_rest (fetched second) sizing
    have body := keeps_rest ((routine_returned .lockAcquire).mpr acquired) ((keeps_bind (withFilesysLock _) _ _ _).mp passed)
    have rooted := keeps_rest ((routine_returned .dirOpenRoot).mpr root) ((keeps_bind (filesysCreate _ _) _ _ _).mp body)
    have creating := keeps_rest ((routine_returned .freeMapAllocate).mpr allocated)
      ((keeps_bind (createIn name (signed size)) _ _ _).mp rooted)
    exact not_keeps_assert fatal (by omega) ((keeps_bind (inodeCreate _ _) _ _ _).mp creating)
  · exact panics.elim

theorem placed_of_returned (placed : Placed process) (bounded : named memory stackPointer ≠ some ((maxFiles : Int) + 2))
    {eax : Option Int} {after : World (Process (Files F))}
    (returned : (syscallHandler stackPointer).execute (kernel lengths environment) ⟨memory, process⟩ = .returned eax after) :
    Placed after.kernel := by
  have calm : ¬ Panics lengths environment memory stackPointer process := fun panics =>
    not_keeps_of_panics (fun ⟨reply⟩ => reply.elim) panics (keeps_replied returned)
  have kept := keeps_returned (keeps_syscallHandler placed bounded calm) returned
  exact kept

end Requests

/-- In a process whose calls never name the descriptor `MAX_FILES + 2`, a call runs into a failed
assertion or an offset out of range exactly when it panics in the sense above. -/
theorem file_system_assertions_hold {F : Type} (lengths : F → Nat → Fin offLimit) (environment : Environment F) (rest : F)
    (events : List (Event F)) (process : Process (Files F))
    (bounded : Along (step lengths environment) (fun _ => InBounds) (start rest) events)
    (reached : run (step lengths environment) (start rest) events = some process)
    (memory : UserMemory) (stackPointer : Nat) (call : InBounds (F := F) (.call memory stackPointer)) :
    (∀ op ∈ (syscallHandler stackPointer).performed (kernel lengths environment) ⟨memory, process⟩, Proper op) ↔
      ¬ Panics lengths environment memory stackPointer process := by
  have placed : Placed process := by
    have empty : Placed (start rest) := ⟨nofun, fun _ _ used => absurd rfl used⟩
    refine invariant_of_run (step lengths environment) Placed ?_ empty bounded reached
    intro before event after placed bounded taken
    cases event with
    | call memory stackPointer =>
      simp only [step] at taken
      split at taken <;> rename_i handled
      · cases taken
        exact placed_of_returned placed bounded handled
      · cases taken
    | others rest =>
      cases taken
      exact ⟨placed.bounded, placed.held⟩
  rw [← keeps_iff_performed]
  constructor
  · exact fun kept panics => not_keeps_of_panics id panics kept
  · exact fun calm => keeps_mono (fun _ _ _ => trivial) (keeps_syscallHandler placed call calm)

section Instances

def short : Unit → Nat → Fin offLimit := fun _ _ => ⟨3, by decide⟩

def openA : Event Unit := .call (stack [6, 0, 0, 0, 0xf8, 0xff, 0xff, 0xbf, 97, 0]) 0xbffffff0

def seekOne : UserMemory := stack [10, 0, 0, 0, 2, 0, 0, 0, 1, 0, 0, 0]

def seekBack : UserMemory := stack [10, 0, 0, 0, 2, 0, 0, 0, 0xff, 0xff, 0xff, 0xff]

def createNegative : UserMemory := stack [4, 0, 0, 0, 0xfc, 0xff, 0xff, 0xbf, 0xff, 0xff, 0xff, 0xff, 97, 0]

theorem file_system_assertions_hold_seek :
    ∃ process, Along (step short oneFile) (fun _ => InBounds) (start ()) [openA] ∧
      run (step short oneFile) (start ()) [openA] = some process ∧ process.table.fileOf 2 ≠ 0 ∧
      ∀ op ∈ (syscallHandler 0xbffffff0).performed (kernel short oneFile) ⟨seekOne, process⟩, Proper op := by
  have bounded : Along (step short oneFile) (fun _ => InBounds) (start ()) [openA] := by decide +kernel
  have ends : ((run (step short oneFile) (start ()) [openA]).any fun process =>
      decide (process.table.fileOf 2 ≠ 0)) = true := by decide +kernel
  obtain ⟨process, reached, opened⟩ := (Option.any_eq_true _ _).mp ends
  have call : InBounds (F := Unit) (.call seekOne 0xbffffff0) := by decide +kernel
  refine ⟨process, bounded, reached, of_decide_eq_true opened, ?_⟩
  refine (file_system_assertions_hold short oneFile () _ process bounded reached _ _ call).mpr ?_
  have number : (seekOne.fetch 0xbffffff0).bind Number.ofWord = some .seek := by decide +kernel
  have position : seekOne.fetch (ptrAdd 0xbffffff0 8) = some 1 := by decide +kernel
  simp only [Panics, number, position]
  rintro ⟨fd, given, -, same, -, negative, -⟩
  cases same
  exact absurd negative (by decide)

/-- `seek (2, -1)` on an open file and `create ("a", -1)` stop the kernel. -/
theorem negative_arguments_panic :
    ∃ process, run (step short oneFile) (start ()) [openA] = some process ∧
      (∃ op ∈ (syscallHandler 0xbffffff0).performed (kernel short oneFile) ⟨seekBack, process⟩, ¬ Proper op) ∧
      ∃ op ∈ (syscallHandler 0xbffffff0).performed (kernel short oneFile) ⟨createNegative, process⟩, ¬ Proper op := by
  have ends : ((run (step short oneFile) (start ()) [openA]).any fun process =>
      ((syscallHandler 0xbffffff0).performed (kernel short oneFile) ⟨seekBack, process⟩).any (fun op => decide (¬ Proper op)) &&
        ((syscallHandler 0xbffffff0).performed (kernel short oneFile) ⟨createNegative, process⟩).any
          fun op => decide (¬ Proper op)) = true := by decide +kernel
  obtain ⟨process, reached, both⟩ := (Option.any_eq_true _ _).mp ends
  rw [Bool.and_eq_true, List.any_eq_true, List.any_eq_true] at both
  obtain ⟨⟨seek, performed, first⟩, create, made, second⟩ := both
  exact ⟨process, reached, ⟨seek, performed, of_decide_eq_true first⟩, create, made, of_decide_eq_true second⟩

end Instances

end Pintos.Syscall.Assertions
