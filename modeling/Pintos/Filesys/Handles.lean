import Pintos.Filesys.OpenInodes
import Pintos.Filesys.Transfer

/-! The operations on inodes and files, and clients that close each handle once.

A client keeps the inode pointers it was given and has not closed or handed to
a file. Every operation of the source has the effect on the table that its
function on `Table` has; a step of the client is the operation itself, and is
not enabled when the kernel stops in it.
-/

set_option autoImplicit false

namespace Pintos.Filesys
open Semantics Computation

section Transfers

abbrev Transfer {A : Type} (computation : Fs A) : Prop :=
  Leaves (fun s => (s.freeMap, s.table)) (fun _ _ => True) computation

theorem transfer_malloc : Transfer malloc := fun _ => rfl

theorem transfer_assert (condition : Bool) : Transfer (assert condition) := leaves_require fun _ => trivial

theorem transfer_blockRead (sector : Nat) : Transfer (blockRead sector) :=
  leaves_get fun _ => leaves_bind (transfer_assert _) fun _ => leaves_pure _

theorem transfer_blockWrite (sector : Nat) (bytes : List UInt8) : Transfer (blockWrite sector bytes) :=
  leaves_get fun _ => leaves_bind (transfer_assert _) fun _ => leaves_modify fun _ => rfl

theorem transfer_inodeAt (inode : Nat) : Transfer (inodeAt inode) := by
  refine leaves_get fun s => ?_
  cases s.table.inodes inode with
  | none => exact leaves_stop fun _ => trivial
  | some found => exact leaves_pure found

theorem transfer_fileAt (file : Nat) : Transfer (fileAt file) := by
  refine leaves_get fun s => ?_
  cases s.table.files file with
  | none => exact leaves_stop fun _ => trivial
  | some found => exact leaves_pure found

theorem transfer_writeLoop (inode : InodeDisk) (fuel : Nat) (bytes : List UInt8) (offset : Nat) (bounce : Bool) (written : Nat) :
    Transfer (writeLoop inode fuel bytes offset bounce written) := by
  induction fuel generalizing bytes offset bounce written with
  | zero => exact leaves_stop fun _ => trivial
  | succ fuel ih =>
    refine leaves_ite (leaves_ite (leaves_pure _) ?_) (leaves_pure _)
    refine leaves_bind (leaves_ite (leaves_pure _) transfer_malloc) fun _ => leaves_ite ?_ (leaves_pure _)
    refine leaves_bind (leaves_ite (transfer_blockRead _) (leaves_pure _)) fun _ => ?_
    exact leaves_bind (transfer_blockWrite _ _) fun _ => ih _ _ _ _

theorem transfer_inodeWriteAt (inode : Nat) (bytes : List UInt8) (offset : Nat) : Transfer (inodeWriteAt inode bytes offset) :=
  leaves_bind (transfer_inodeAt inode) fun _ => leaves_ite (leaves_pure _) (transfer_writeLoop _ _ _ _ _ _)

theorem transfer_bitmapWrite : Transfer bitmapWrite := by
  refine leaves_get fun _ => leaves_bind ?_ fun _ => leaves_pure _
  exact leaves_bind (transfer_fileAt _) fun _ => transfer_inodeWriteAt _ _ _

abbrev LeavesTable {A : Type} (operation : Fs A) : Prop := Leaves State.table (fun _ _ => True) operation

theorem leaves_freeMapRelease (sector cnt : Nat) : LeavesTable (freeMapRelease sector cnt) :=
  leaves_get fun _ => leaves_bind (leaves_require fun _ => trivial) fun _ => leaves_bind (leaves_require fun _ => trivial)
    fun _ => leaves_bind (leaves_modify fun _ => rfl) fun _ =>
      leaves_bind (leaves_map Prod.snd transfer_bitmapWrite) fun _ => leaves_pure _

end Transfers

section Effects
variable {s final : State} {inode file : Nat} {found : Inode} {value : File}

theorem inodeAt_returned (there : s.table.inodes inode = some found) : inodeAt inode s = .returned found s := by
  simp [inodeAt, there]

theorem fileAt_returned (there : s.table.files file = some value) : fileAt file s = .returned value s := by
  simp [fileAt, there]

theorem inodeReopen_returned (there : s.table.inodes inode = some found) (valid : inode ≠ 0) :
    inodeReopen inode s =
      .returned inode { s with table := s.table.setInode inode { found with openCnt := found.openCnt + 1 } } := by
  simp only [inodeReopen, if_pos valid]
  rw [bind_of_returned (inodeAt_returned there)]
  rfl

theorem inodeRemove_returned (there : s.table.inodes inode = some found) (valid : inode ≠ 0) :
    inodeRemove inode s =
      .returned () { s with table := s.table.setInode inode { found with removed := true } } := by
  rw [inodeRemove, bind_of_returned (assert_returned (by simpa using valid) s), bind_of_returned (inodeAt_returned there)]
  rfl

/-- `inode_open`: the inode in the table, or a new one, or the null pointer when there is no memory. -/
theorem inodeOpen_returned {held : List Nat} {sector : Nat} (balanced : Balanced s.table held)
    (done : inodeOpen sector s = .returned inode final) :
    (∃ found, s.table.inodes inode = some found ∧ found.sector = sector ∧
      final = { s with table := s.table.setInode inode { found with openCnt := found.openCnt + 1 } }) ∨
    (s.table.search sector = none ∧ inode = s.table.next ∧ final = { s with
      table := s.table.insert sector (InodeDisk.decode fun o => s.disk (blockSectorSize * sector + o))
      allocations := s.allocations + 1 }) ∨
    (inode = 0 ∧ final = { s with allocations := s.allocations + 1 }) := by
  have opened : inodeFinish sector (s.table.search sector) s = .returned inode final := done
  cases searched : s.table.search sector with
  | some open_ =>
    obtain ⟨found, there, same⟩ := search_some searched
    rw [searched, inodeFinish, inodeReopen_returned there (balanced.inode_ne_zero there)] at opened
    cases opened
    exact .inl ⟨found, there, same, rfl⟩
  | none =>
    rw [searched] at opened
    obtain ⟨granted, after, tried, rest⟩ := bind_returned.mp opened
    cases tried
    cases memory : s.memory s.allocations with
    | false =>
      simp only [memory, Bool.false_eq_true, if_false] at rest
      cases rest
      exact .inr (.inr ⟨rfl, rfl⟩)
    | true =>
      simp only [memory, if_true] at rest
      by_cases inside : sector < s.size
      · rw [bind_of_returned (blockRead_returned (s := { s with allocations := s.allocations + 1 }) inside)] at rest
        cases rest
        exact .inr (.inl ⟨rfl, rfl, rfl⟩)
      · simp [blockRead, assert, require, bind_apply, inside] at rest

/-- What the last close does after the inode has left the list. -/
def releaseInode (inode : Nat) (found : Inode) : Fs Unit := do
  if found.removed then do
    freeMapRelease found.sector 1
    freeMapRelease found.data.start (bytesToSectors found.data.length)
  onTable fun table => table.freeInode inode

def Table.unlist (table : Table) (inode : Nat) (found : Inode) : Table :=
  { table.setInode inode { found with openCnt := found.openCnt - 1 } with openInodes := table.openInodes.erase inode }

theorem inodeClose_eq (there : s.table.inodes inode = some found) (valid : inode ≠ 0) :
    inodeClose inode s =
      if found.openCnt - 1 = 0 then releaseInode inode found { s with table := s.table.unlist inode found }
      else .returned () { s with table := s.table.setInode inode { found with openCnt := found.openCnt - 1 } } := by
  simp only [inodeClose, if_neg valid]
  rw [bind_of_returned (inodeAt_returned there)]
  by_cases last : found.openCnt - 1 = 0
  · simp only [if_pos last]
    rfl
  · simp only [if_neg last]
    rfl

theorem freeInode_unlist (there : s.table.inodes inode = some found) (last : found.openCnt - 1 = 0) :
    (s.table.unlist inode found).freeInode inode = s.table.close inode := by
  simp [Table.unlist, Table.close, there, last, Table.freeInode, Table.setInode]

theorem inodeClose_table (there : s.table.inodes inode = some found) (valid : inode ≠ 0)
    (done : inodeClose inode s = .returned () final) : final.table = s.table.close inode := by
  rw [inodeClose_eq there valid] at done
  by_cases last : found.openCnt - 1 = 0
  · rw [if_pos last, releaseInode] at done
    have released : ∃ between : State, between.table = s.table.unlist inode found ∧
        final = { between with table := between.table.freeInode inode } := by
      split at done
      · obtain ⟨_, first, one, rest⟩ := bind_returned.mp done
        obtain ⟨_, second, two, rest⟩ := bind_returned.mp rest
        cases rest
        exact ⟨second, (leaves_returned (leaves_freeMapRelease _ _) two).trans
          (leaves_returned (leaves_freeMapRelease _ _) one), rfl⟩
      · cases done
        exact ⟨_, rfl, rfl⟩
    obtain ⟨between, same, rfl⟩ := released
    rw [← freeInode_unlist there last, ← same]
  · rw [if_neg last] at done
    cases done
    simp [Table.close, there, last]

/-- `file_open`: a new file, or the inode is closed again. -/
theorem fileOpen_returned (done : fileOpen inode s = .returned file final) :
    (file = s.table.next ∧ inode ≠ 0 ∧
      final = { s with table := s.table.addFile inode, allocations := s.allocations + 1 }) ∨
    (file = 0 ∧ inodeClose inode { s with allocations := s.allocations + 1 } = .returned () final) := by
  obtain ⟨granted, after, tried, rest⟩ := bind_returned.mp done
  cases tried
  split at rest <;> rename_i valid
  · cases rest
    exact .inl ⟨rfl, valid.1, rfl⟩
  · obtain ⟨_, between, closed, rest⟩ := bind_returned.mp rest
    cases rest
    exact .inr ⟨rfl, closed⟩

section Denials
variable {held : List Nat} (balanced : Balanced s.table held) (there : s.table.files file = some value)
include balanced there

theorem setDenial_of_same {deny : Bool} (same : value.denyWrite = deny) : s.table.setDenial file deny = s.table := by
  obtain ⟨found, backing⟩ := Option.isSome_iff_exists.mp (balanced.backed file value there)
  simp [Table.setDenial, there, backing, same]

theorem files_setDenial (deny : Bool) :
    (s.table.setDenial file deny).files file = some { value with denyWrite := deny } := by
  obtain ⟨found, backing⟩ := Option.isSome_iff_exists.mp (balanced.backed file value there)
  by_cases same : value.denyWrite = deny
  · rw [setDenial_of_same balanced there same, there, ← same]
  · simp [Table.setDenial, there, backing, same, Table.setInode, Table.setFile]

/-- The assertion of `inode_deny_write` holds: the file is open and was not counted yet. -/
theorem fileDenyWrite_returned :
    fileDenyWrite file s = .returned () { s with table := s.table.setDenial file true } := by
  obtain ⟨found, backing⟩ := Option.isSome_iff_exists.mp (balanced.backed file value there)
  have valid := balanced.file_ne_zero there
  rw [fileDenyWrite, bind_of_returned (assert_returned (by simpa using valid) s), bind_of_returned (fileAt_returned there)]
  by_cases denies : value.denyWrite = true
  · rw [setDenial_of_same balanced there denies]
    simp [denies]
  · have after := balanced.setDenial file true
    have denial : s.table.setDenial file true = (s.table.setFile file { value with denyWrite := true }).setInode value.inode
        { found with denyWriteCnt := found.denyWriteCnt + 1 } := by
      simp [Table.setDenial, there, backing, denies]
    rw [denial] at after ⊢
    have room := after.denied_le (Function.update_self value.inode _ _)
    simp only [denies, Bool.not_false, if_true, onTable, bind_modify]
    rw [inodeDenyWrite, bind_of_returned (inodeAt_returned (s := { s with table := s.table.setFile file _ }) backing)]
    exact assert_returned (decide_eq_true (p := found.denyWriteCnt + 1 ≤ found.openCnt) room) _

/-- The assertions of `inode_allow_write` hold: the file was counted. -/
theorem fileAllowWrite_returned :
    fileAllowWrite file s = .returned () { s with table := s.table.setDenial file false } := by
  obtain ⟨found, backing⟩ := Option.isSome_iff_exists.mp (balanced.backed file value there)
  have valid := balanced.file_ne_zero there
  rw [fileAllowWrite, bind_of_returned (assert_returned (by simpa using valid) s), bind_of_returned (fileAt_returned there)]
  by_cases denies : value.denyWrite = true
  · have denial : s.table.setDenial file false = (s.table.setFile file { value with denyWrite := false }).setInode value.inode
        { found with denyWriteCnt := found.denyWriteCnt - 1 } := by
      simp [Table.setDenial, there, backing, denies]
    have counted : 0 < found.denyWriteCnt := by
      have member : file ∈ s.table.deniersOf value.inode :=
        mem_deniersOf.mpr ⟨balanced.file_lt there, value, there, rfl, denies⟩
      have some := Finset.card_pos.mpr ⟨file, member⟩
      rw [(balanced.counted value.inode found backing).denied]
      omega
    rw [denial]
    simp only [denies, if_true, onTable, bind_modify]
    rw [inodeAllowWrite, bind_of_returned (inodeAt_returned (s := { s with table := s.table.setFile file _ }) backing)]
    rw [bind_of_returned (assert_returned (decide_eq_true counted) _)]
    rw [bind_of_returned (assert_returned (decide_eq_true (balanced.denied_le backing)) _)]
    rfl
  · rw [setDenial_of_same balanced there (by simpa using denies)]
    simp [denies]

theorem fileClose_table (done : fileClose file s = .returned () final) :
    final.table = ((s.table.setDenial file false).close value.inode).freeFile file := by
  have valid := balanced.file_ne_zero there
  have after := balanced.setDenial file false
  have here := files_setDenial balanced there false
  obtain ⟨found, backing⟩ := Option.isSome_iff_exists.mp (after.backed file _ here)
  rw [fileClose, if_pos valid, bind_of_returned (fileAllowWrite_returned balanced there),
    bind_of_returned (fileAt_returned (by exact here))] at done
  obtain ⟨_, between, closed, rest⟩ := bind_returned.mp done
  cases rest
  have gone := inodeClose_table (s := { s with table := s.table.setDenial file false }) backing
    (after.inode_ne_zero backing) closed
  show between.table.freeFile file = _
  rw [gone]

end Denials

theorem Balanced.closeFile {held : List Nat} (balanced : Balanced s.table held) (there : s.table.files file = some value) :
    Balanced (((s.table.setDenial file false).close value.inode).freeFile file) held := by
  have freed := (balanced.setDenial file false).freeFile (files_setDenial balanced there false) rfl
  have closed := freed.close (List.mem_cons_self ..)
  rw [List.erase_cons_head] at closed
  rw [close_freeFile]
  exact closed

end Effects

/-- A kernel, and the inode pointers its client still has to close. -/
structure Client where
  state : State
  held : List Nat

inductive Op where
  | inodeOpen (sector : Nat)
  | inodeReopen (inode : Nat)
  | inodeClose (inode : Nat)
  | inodeRemove (inode : Nat)
  | fileOpen (inode : Nat)
  | fileReopen (file : Nat)
  | fileDenyWrite (file : Nat)
  | fileAllowWrite (file : Nat)
  | fileClose (file : Nat)
  /-- `free_map_open` and `free_map_create` keep their file in a variable. -/
  | freeMapFile (file : Nat)
  deriving DecidableEq, Repr

namespace Client

/-- The client after a call that returned. -/
def after {A : Type} (execution : Execution State Halt A) (held : A → List Nat) : Option Client :=
  match execution with
  | .returned value state => some ⟨state, held value⟩
  | .stopped _ _ => none

def keep (held : List Nat) (inode : Nat) : List Nat := if inode = 0 then held else inode :: held

variable (client : Client)

def may : Op → Bool
  | .inodeOpen _ => true
  | .inodeReopen inode | .inodeClose inode | .fileOpen inode => inode = 0 ∨ inode ∈ client.held
  | .inodeRemove inode => inode ∈ client.held
  | .fileReopen file | .fileDenyWrite file | .fileAllowWrite file | .freeMapFile file => (client.state.table.files file).isSome
  | .fileClose file => file = 0 ∨ (client.state.table.files file).isSome

def perform : Op → Option Client
  | .inodeOpen sector => after (Filesys.inodeOpen sector client.state) (keep client.held)
  | .inodeReopen inode => after (Filesys.inodeReopen inode client.state) (keep client.held)
  | .inodeClose inode => after (Filesys.inodeClose inode client.state) fun _ => client.held.erase inode
  | .inodeRemove inode => after (Filesys.inodeRemove inode client.state) fun _ => client.held
  | .fileOpen inode => after (Filesys.fileOpen inode client.state) fun _ => client.held.erase inode
  | .fileReopen file => after (Filesys.fileReopen file client.state) fun _ => client.held
  | .fileDenyWrite file => after (Filesys.fileDenyWrite file client.state) fun _ => client.held
  | .fileAllowWrite file => after (Filesys.fileAllowWrite file client.state) fun _ => client.held
  | .fileClose file => after (Filesys.fileClose file client.state) fun _ => client.held
  | .freeMapFile file => some { client with state := { client.state with freeMapFile := file } }

def step (op : Op) : Option Client := if client.may op then client.perform op else none

end Client

section Steps
variable {s : State} {held : List Nat} {final : State} {inode file : Nat} (balanced : Balanced s.table held)
include balanced

theorem inodeOpen_balanced {sector : Nat}
    (done : inodeOpen sector s = .returned inode final) : Balanced final.table (Client.keep held inode) := by
  rcases inodeOpen_returned balanced done with ⟨found, there, -, rfl⟩ | ⟨absent, rfl, rfl⟩ | ⟨rfl, rfl⟩
  · rw [Client.keep, if_neg (balanced.inode_ne_zero there)]
    exact balanced.reopen there
  · rw [Client.keep, if_neg (Nat.ne_of_gt balanced.null.2.2)]
    exact balanced.insertInode absent _
  · exact balanced

theorem inodeReopen_balanced (mine : inode = 0 ∨ (s.table.inodes inode).isSome = true) :
    ∃ final, inodeReopen inode s = .returned inode final ∧ Balanced final.table (Client.keep held inode) := by
  rcases mine with rfl | there
  · exact ⟨s, rfl, balanced⟩
  · obtain ⟨found, there⟩ := Option.isSome_iff_exists.mp there
    have valid := balanced.inode_ne_zero there
    refine ⟨_, inodeReopen_returned there valid, ?_⟩
    rw [Client.keep, if_neg valid]
    exact balanced.reopen there

theorem Balanced.zero_not_held : 0 ∉ held := by
  intro inside
  have there := balanced.holds 0 inside
  rw [balanced.null.1] at there
  cases there

theorem inodeClose_balanced (mine : inode = 0 ∨ inode ∈ held)
    (done : inodeClose inode s = .returned () final) : Balanced final.table (held.erase inode) := by
  rcases mine with rfl | inside
  · cases done
    rw [List.erase_of_not_mem balanced.zero_not_held]
    exact balanced
  · obtain ⟨found, there⟩ := Option.isSome_iff_exists.mp (balanced.holds inode inside)
    rw [inodeClose_table there (balanced.inode_ne_zero there) done]
    exact balanced.close inside

theorem fileOpen_balanced (mine : inode = 0 ∨ inode ∈ held)
    (done : fileOpen inode s = .returned file final) : Balanced final.table (held.erase inode) := by
  rcases fileOpen_returned done with ⟨-, valid, rfl⟩ | ⟨-, closed⟩
  · exact balanced.addFile (mine.resolve_left valid)
  · exact inodeClose_balanced (s := { s with allocations := s.allocations + 1 }) balanced mine closed

theorem fileReopen_balanced {value : File} (there : s.table.files file = some value)
    {result : Nat} (done : fileReopen file s = .returned result final) : Balanced final.table held := by
  have backing := balanced.backed file value there
  obtain ⟨between, reopened, more⟩ := inodeReopen_balanced balanced (.inr backing)
  obtain ⟨found, backing⟩ := Option.isSome_iff_exists.mp backing
  rw [fileReopen, bind_of_returned (fileAt_returned there), bind_of_returned reopened] at done
  rw [Client.keep, if_neg (balanced.inode_ne_zero backing)] at more
  have opened := fileOpen_balanced more (.inr (List.mem_cons_self ..)) done
  rwa [List.erase_cons_head] at opened

end Steps

namespace Client
variable {client next : Client} {op : Op}

theorem after_some {A : Type} {execution : Execution State Halt A} {held : A → List Nat} (done : after execution held = some next) :
    ∃ value state, execution = .returned value state ∧ next = ⟨state, held value⟩ := by
  cases execution with
  | returned value state =>
    cases done
    exact ⟨value, state, rfl, rfl⟩
  | stopped why state => cases done

theorem step_balanced (balanced : Balanced client.state.table client.held) (taken : client.step op = some next) :
    Balanced next.state.table next.held := by
  unfold step at taken
  split at taken
  case isFalse => cases taken
  rename_i allowed
  cases op with
  | inodeOpen sector =>
    obtain ⟨inode, final, done, rfl⟩ := after_some taken
    exact inodeOpen_balanced balanced done
  | inodeReopen inode =>
    obtain ⟨result, final, done, rfl⟩ := after_some taken
    obtain ⟨_, reopened, more⟩ := inodeReopen_balanced balanced
      ((of_decide_eq_true allowed).imp_right (balanced.holds inode))
    rw [reopened] at done
    cases done
    exact more
  | inodeClose inode =>
    obtain ⟨_, final, done, rfl⟩ := after_some taken
    exact inodeClose_balanced balanced (of_decide_eq_true allowed) done
  | inodeRemove inode =>
    obtain ⟨_, final, done, rfl⟩ := after_some taken
    obtain ⟨found, there⟩ := Option.isSome_iff_exists.mp (balanced.holds inode (of_decide_eq_true allowed))
    rw [inodeRemove_returned there (balanced.inode_ne_zero there)] at done
    cases done
    exact balanced.remove there
  | fileOpen inode =>
    obtain ⟨_, final, done, rfl⟩ := after_some taken
    exact fileOpen_balanced balanced (of_decide_eq_true allowed) done
  | fileReopen file =>
    obtain ⟨_, final, done, rfl⟩ := after_some taken
    obtain ⟨value, there⟩ := Option.isSome_iff_exists.mp allowed
    exact fileReopen_balanced balanced there done
  | fileDenyWrite file =>
    obtain ⟨_, final, done, rfl⟩ := after_some taken
    obtain ⟨value, there⟩ := Option.isSome_iff_exists.mp allowed
    rw [fileDenyWrite_returned balanced there] at done
    cases done
    exact balanced.setDenial file true
  | fileAllowWrite file =>
    obtain ⟨_, final, done, rfl⟩ := after_some taken
    obtain ⟨value, there⟩ := Option.isSome_iff_exists.mp allowed
    rw [fileAllowWrite_returned balanced there] at done
    cases done
    exact balanced.setDenial file false
  | fileClose file =>
    obtain ⟨_, final, done, rfl⟩ := after_some taken
    rcases of_decide_eq_true allowed with rfl | there
    · cases done
      exact balanced
    · obtain ⟨value, there⟩ := Option.isSome_iff_exists.mp there
      rw [fileClose_table balanced there done]
      exact balanced.closeFile there
  | freeMapFile file =>
    cases taken
    exact balanced

end Client

def Table.empty : Table := ⟨[], fun _ => none, fun _ => none, 1⟩

theorem balanced_empty : Balanced .empty [] where
  listed inode := by simp [Table.empty]
  once := List.nodup_nil
  unique first second found other here := by cases here
  backed file found here := by cases here
  holds inode inside := by cases inside
  fresh address beyond := ⟨rfl, rfl⟩
  null := ⟨rfl, rfl, Nat.one_pos⟩
  counted inode found here := by cases here

/-- Over every sequence of operations that closes each handle once, on any
device and with any outcome of each allocation: the table is balanced, an inode
is in it exactly while it has handles, and no assertion about denials fails. -/
theorem open_inodes_balanced {start : State} {ops : List Op} {client : Client} (empty : start.table = .empty)
    (reached : run Client.step ⟨start, []⟩ ops = some client) :
    Balanced client.state.table client.held ∧
    (∀ inode found, client.state.table.inodes inode = some found → found.denyWriteCnt ≤ found.openCnt) ∧
    (∀ inode, inode ∈ client.state.table.openInodes ↔
      0 < (client.state.table.openOn inode).card + client.held.count inode) ∧
    (∀ file, (client.state.table.files file).isSome = true →
      (∃ final, fileDenyWrite file client.state = .returned () final) ∧
      ∃ final, fileAllowWrite file client.state = .returned () final) := by
  have balanced : Balanced client.state.table client.held :=
    invariant_of_reached Client.step (fun client => Balanced client.state.table client.held)
      (fun _ _ _ before taken => Client.step_balanced before taken) (by rw [empty]; exact balanced_empty) reached
  refine ⟨balanced, fun inode found there => balanced.denied_le there,
    fun inode => (balanced.listed inode).trans (balanced.isSome_iff inode), fun file open_ => ?_⟩
  obtain ⟨value, there⟩ := Option.isSome_iff_exists.mp open_
  exact ⟨⟨_, fileDenyWrite_returned balanced there⟩, ⟨_, fileAllowWrite_returned balanced there⟩⟩

def blankDevice : State where
  size := 4
  disk _ := 0
  freeMap := ⟨4, fun _ => BitVec.allOnes 32⟩
  freeMapFile := 0
  table := .empty
  memory _ := true
  allocations := 0

/-- An inode with three handles and two files is removed and closed to the last handle. -/
def removeAndClose : List Op :=
  [.inodeOpen 0, .fileOpen 1, .freeMapFile 2, .inodeOpen 3, .inodeOpen 3, .inodeReopen 3, .fileOpen 3, .fileDenyWrite 4,
    .fileReopen 4, .inodeRemove 3, .inodeClose 3, .fileAllowWrite 4, .fileClose 4, .fileClose 5, .inodeClose 3]

theorem open_inodes_balanced_remove : ∃ client, run Client.step ⟨blankDevice, []⟩ removeAndClose = some client ∧
    client.state.table.openInodes = [1] ∧ Balanced client.state.table client.held := by
  have ends : (run Client.step ⟨blankDevice, []⟩ removeAndClose).any
      (fun client => client.state.table.openInodes = [1]) = true := by decide +kernel
  obtain ⟨client, reached, left⟩ := (Option.any_eq_true _ _).mp ends
  exact ⟨client, reached, of_decide_eq_true left, (open_inodes_balanced rfl reached).1⟩

section Transfers
variable {s : State} {inode : Nat} {found : Inode}

theorem inodeReadAt_returned (there : s.table.inodes inode = some found) (fits : found.data.Fits s.size) (size offset : Nat) :
    ∃ done after, inodeReadAt inode size offset s =
        .returned (window s.disk (found.data.base + offset) done) { s with allocations := after } ∧
      Reached s.Plenty offset (min size (found.data.size - offset)) done := by
  rw [inodeReadAt, bind_of_returned (inodeAt_returned there)]
  exact readLoop_returned (size + 1) size offset false [] s fits (Nat.lt_succ_self _)

theorem inodeWriteAt_returned (there : s.table.inodes inode = some found) (fits : found.data.Fits s.size)
    (allowed : found.denyWriteCnt = 0) (bytes : List UInt8) (offset : Nat) :
    ∃ done after, inodeWriteAt inode bytes offset s = .returned done
        { s with disk := overlay s.disk (found.data.base + offset) (bytes.take done), allocations := after } ∧
      Reached s.Plenty offset (min bytes.length (found.data.size - offset)) done := by
  rw [inodeWriteAt, bind_of_returned (inodeAt_returned there)]
  simp only [allowed, ne_eq, not_true_eq_false, if_false]
  obtain ⟨done, after, ran, reached⟩ :=
    writeLoop_returned (bytes.length + 1) bytes offset false 0 s fits (Nat.lt_succ_self _)
  exact ⟨done, after, by rw [ran, Nat.zero_add], reached⟩

end Transfers

end Pintos.Filesys
