import Pintos.Filesys.Layout
import Pintos.Semantics.Refinement

/-! Open files as byte strings.

Files that are open on the same inode share a string of fixed length, and each
has a position in it. Reading, writing and seeking on the device do to every
file in order what they would do to these strings, however the files are used
in turn and wherever their sectors lie.
-/

set_option autoImplicit false

namespace Pintos.Filesys.FileContents
open Semantics Computation

structure Strings where
  bytes : Nat → List UInt8
  denied : Nat → Bool
  inode : Nat → Nat
  pos : Nat → Nat

inductive Op where
  | read (file size : Nat)
  | write (file : Nat) (bytes : List UInt8)
  | seek (file newPos : Nat)
  deriving DecidableEq

def Op.file : Op → Nat
  | .read file _ | .write file _ | .seek file _ => file

/-- Of a read the bytes, of a write their number. -/
abbrev Answer := List UInt8 × Nat

section Machines
variable (strings : Strings)

def Strings.put (inode pos : Nat) (bytes : List UInt8) : Strings :=
  let old := strings.bytes inode
  { strings with bytes := Function.update strings.bytes inode (old.take pos ++ bytes ++ old.drop (pos + bytes.length)) }

def Strings.move (file pos : Nat) : Strings := { strings with pos := Function.update strings.pos file pos }

def specified : Op → Strings × Answer
  | .read file size =>
    let bytes := ((strings.bytes (strings.inode file)).drop (strings.pos file)).take size
    (strings.move file (strings.pos file + bytes.length), bytes, bytes.length)
  | .write file bytes =>
    let inode := strings.inode file
    let left := if strings.denied inode then 0 else (strings.bytes inode).length - strings.pos file
    let stored := bytes.take left
    ((strings.put inode (strings.pos file) stored).move file (strings.pos file + stored.length), [], stored.length)
  | .seek file newPos => (strings.move file newPos, [], 0)

def operate : Op → Fs Answer
  | .read file size => do
    let bytes ← fileRead file size
    return (bytes, bytes.length)
  | .write file bytes => do
    let written ← fileWrite file bytes
    return ([], written)
  | .seek file newPos => do
    fileSeek file newPos
    return ([], 0)

def perform : List Op → Fs (List Answer)
  | [] => return []
  | op :: rest => do
    let answer ← operate op
    let answers ← perform rest
    return answer :: answers

end Machines

/-- The strings of the files that are open in a state. -/
def stringsOf (s : State) : Strings where
  bytes inode := (s.table.inodes inode).elim [] fun found => window s.disk found.data.base found.data.size
  denied inode := (s.table.inodes inode).any fun found => found.denyWriteCnt ≠ 0
  inode file := (s.table.files file).elim 0 File.inode
  pos file := (s.table.files file).elim 0 File.pos

/-- The inodes are on the device and share no byte of it. -/
structure Placed (s : State) : Prop where
  plenty : s.Plenty
  null : s.table.files 0 = none
  backed : ∀ file value, s.table.files file = some value → (s.table.inodes value.inode).isSome = true
  fits : ∀ inode found, s.table.inodes inode = some found → found.data.Fits s.size
  apart : ∀ inode found other value, s.table.inodes inode = some found → s.table.inodes other = some value → other ≠ inode →
    ∀ offset < found.data.size, ∀ index < value.data.size, found.data.base + offset ≠ value.data.base + index

theorem holds_of_offset {data : InodeDisk} {size offset : Nat} (fits : data.Fits size) (inside : offset < data.size) :
    data.Holds ((data.base + offset) / blockSectorSize) := by
  have covered := size_le_sectors fits.low fits.high
  have sector : blockSectorSize = 512 := rfl
  rw [sector] at covered ⊢
  unfold InodeDisk.Holds InodeDisk.base
  rw [sector]
  omega

theorem placed_of_layout {s : State} {held : List Nat} (layout : Layout s held) (plenty : s.Plenty) : Placed s := by
  have sited : ∀ inode found, s.table.inodes inode = some found → s.Live found.sector ∧ found.data = diskInode s.disk found.sector :=
    fun inode found there => ⟨.inr (.inr (.inr ⟨inode, found, there, rfl⟩)), (layout.cached inode found there).data⟩
  refine ⟨plenty, layout.balanced.null.2.1, layout.balanced.backed, fun inode found there => ?_, ?_⟩
  · rw [(sited inode found there).2]
    exact layout.sited.fits _ (sited inode found there).1
  · intro inode found other value there here distinct offset inside index within same
    obtain ⟨live, data⟩ := sited inode found there
    obtain ⟨alive, also⟩ := sited other value here
    rw [data] at inside same
    rw [also] at within same
    -- A shared byte is in a sector that both inodes occupy.
    have mine := holds_of_offset (layout.sited.fits _ live) inside
    have others := holds_of_offset (layout.sited.fits _ alive) within
    rw [← same] at others
    exact distinct (layout.balanced.unique other inode value found here there
      (layout.sited.apart _ _ _ alive live (.inr others) (.inr mine)))

section Steps
variable {s : State} {file : Nat} {value : File}

/-- The state after a transfer through a file. -/
def transferred (s : State) (file : Nat) (value : File) (disk : Nat → UInt8) (allocations pos : Nat) : State :=
  { s with disk := disk, allocations := allocations, table := s.table.setFile file { value with pos := pos } }

theorem Placed.valid (placed : Placed s) (there : s.table.files file = some value) : file ≠ 0 := by
  rintro rfl
  rw [placed.null] at there
  cases there

theorem Placed.transferred (placed : Placed s) (there : s.table.files file = some value) (disk : Nat → UInt8)
    (allocations pos : Nat) : Placed (transferred s file value disk allocations pos) := by
  refine ⟨placed.plenty, ?_, fun other => ?_, placed.fits, placed.apart⟩
  · exact (Function.update_of_ne (placed.valid there).symm _ _).trans placed.null
  · intro found here
    rcases update_some.mp here with ⟨-, rfl⟩ | ⟨_, old⟩
    · exact placed.backed file value there
    · exact placed.backed other found old

theorem strings_transferred (there : s.table.files file = some value) (disk : Nat → UInt8) (allocations pos : Nat) :
    stringsOf (transferred s file value disk allocations pos) = (stringsOf { s with disk := disk }).move file pos := by
  have files (other : Nat) : (transferred s file value disk allocations pos).table.files other =
      if other = file then some { value with pos := pos } else s.table.files other := by
    simp [transferred, Table.setFile, Function.update_apply]
  simp only [stringsOf, Strings.move, files]
  congr 1
  · funext other
    by_cases same : other = file <;> simp [same, there]
  · funext other
    by_cases same : other = file <;> simp [same]

theorem strings_overlay (placed : Placed s) {inode : Nat} {found : Inode} (there : s.table.inodes inode = some found) {pos : Nat}
    {bytes : List UInt8} (inside : bytes = [] ∨ pos + bytes.length ≤ found.data.size) :
    stringsOf { s with disk := overlay s.disk (found.data.base + pos) bytes } = (stringsOf s).put inode pos bytes := by
  unfold stringsOf Strings.put
  simp only [there, Option.elim_some]
  congr 1
  funext other
  by_cases same : other = inode
  · subst same
    simp only [there, Option.elim_some, Function.update_self]
    rcases inside with rfl | inside
    · simp
    · exact window_overlay_within bytes inside
  · rw [Function.update_of_ne same]
    cases here : s.table.inodes other with
    | none => rfl
    | some value =>
      -- What is written lies in the inode, which has no byte of another one.
      refine window_congr fun index below => overlay_outside bytes (Decidable.byContradiction fun hit => ?_)
      rcases inside with rfl | inside
      · simp only [List.length_nil] at hit
        omega
      · have apart := placed.apart inode found other value there here same
          (value.data.base + index - found.data.base) (by omega) index below
        omega

/-- Denied and allowed writes alike store what the inode takes. -/
theorem inodeWriteAt_stored {inode : Nat} {found : Inode} (there : s.table.inodes inode = some found)
    (fits : found.data.Fits s.size) (plenty : s.Plenty) (bytes : List UInt8) (pos : Nat) :
    ∃ done allocations, inodeWriteAt inode bytes pos s = .returned done
        { s with disk := overlay s.disk (found.data.base + pos) (bytes.take done), allocations := allocations } ∧
      done = min (if found.denyWriteCnt = 0 then found.data.size - pos else 0) bytes.length := by
  by_cases allowed : found.denyWriteCnt = 0
  · obtain ⟨done, allocations, ran, reached⟩ := inodeWriteAt_returned there fits allowed bytes pos
    exact ⟨done, allocations, ran, by simpa [allowed, Nat.min_comm] using reached.full plenty⟩
  · refine ⟨0, s.allocations, ?_, by simp [allowed]⟩
    simp [inodeWriteAt, bind_of_returned (inodeAt_returned there), allowed]

theorem operate_returned (placed : Placed s) {op : Op} (there : s.table.files op.file = some value) :
    ∃ disk allocations pos, operate op s =
        .returned (specified (stringsOf s) op).2 (transferred s op.file value disk allocations pos) ∧
      stringsOf (transferred s op.file value disk allocations pos) = (specified (stringsOf s) op).1 := by
  obtain ⟨found, here⟩ := Option.isSome_iff_exists.mp (placed.backed _ value there)
  -- What the operation sees of the strings, in terms of the device.
  have inode : (stringsOf s).inode op.file = value.inode := by simp [stringsOf, there]
  have pos : (stringsOf s).pos op.file = value.pos := by simp [stringsOf, there]
  have content : (stringsOf s).bytes value.inode = window s.disk found.data.base found.data.size := by
    simp [stringsOf, here]
  have denied : (stringsOf s).denied value.inode = decide (found.denyWriteCnt ≠ 0) := by simp [stringsOf, here]
  cases op with
  | read file size =>
    simp only [Op.file] at there inode pos
    obtain ⟨done, allocations, ran, reached⟩ := inodeReadAt_returned here (placed.fits _ _ here) size value.pos
    have full := reached.full placed.plenty
    refine ⟨s.disk, allocations, value.pos + done, ?_, ?_⟩
    · simp only [operate, fileRead, bind_bind, bind_of_returned (fileAt_returned there), bind_of_returned ran]
      simp [onTable, transferred, Op.file, specified, inode, pos, content, drop_window, take_window, full]
    · rw [Op.file, strings_transferred there]
      simp [specified, inode, pos, content, drop_window, take_window, full]
  | write file bytes =>
    simp only [Op.file] at there inode pos
    obtain ⟨done, allocations, ran, full⟩ := inodeWriteAt_stored here (placed.fits _ _ here) placed.plenty bytes value.pos
    have spec : specified (stringsOf s) (.write file bytes) =
        (((stringsOf s).put value.inode value.pos (bytes.take done)).move file (value.pos + done), [], done) := by
      rw [full, ← List.take_eq_take_min]
      simp [specified, inode, pos, content, denied]
    refine ⟨overlay s.disk (found.data.base + value.pos) (bytes.take done), allocations, value.pos + done, ?_, ?_⟩
    · simp only [operate, fileWrite, bind_bind, bind_of_returned (fileAt_returned there), bind_of_returned ran, spec]
      simp [onTable, transferred, Op.file]
    · rw [Op.file, strings_transferred there, strings_overlay placed here, spec]
      rw [List.length_take, ← List.length_eq_zero_iff, List.length_take]
      split at full <;> omega
  | seek file newPos =>
    simp only [Op.file] at there
    refine ⟨s.disk, s.allocations, newPos, ?_, strings_transferred there _ _ _⟩
    have low : decide ((0 : Int) ≤ newPos) = true := decide_eq_true (Int.natCast_nonneg newPos)
    simp only [operate, fileSeek, bind_bind, bind_of_returned (assert_returned (bne_iff_ne.mpr (placed.valid there)) s),
      bind_of_returned (assert_returned low s), bind_of_returned (fileAt_returned there)]
    rfl

end Steps

/-- Calls on open files return what the strings of the files give, and leave the strings that the calls make of them. -/
theorem files_are_byte_strings {s : State} (placed : Placed s) (ops : List Op)
    (opened : ∀ op ∈ ops, (s.table.files op.file).isSome = true) :
    ∃ final, perform ops s = .returned (replay specified (stringsOf s) ops).2 final ∧
      stringsOf final = (replay specified (stringsOf s) ops).1 := by
  induction ops generalizing s with
  | nil => exact ⟨s, rfl, rfl⟩
  | cons op rest ih =>
    obtain ⟨value, there⟩ := Option.isSome_iff_exists.mp (opened op List.mem_cons_self)
    obtain ⟨disk, allocations, pos, ran, strings⟩ := operate_returned placed there
    -- The same files are open afterwards: a call moves a position and nothing else in the table.
    obtain ⟨final, rests, last⟩ := ih (placed.transferred there disk allocations pos) fun other member => by
      have before := opened other (List.mem_cons_of_mem op member)
      by_cases same : other.file = op.file <;> simp [transferred, Table.setFile, same, before]
    refine ⟨final, ?_, by rw [last, strings]; rfl⟩
    rw [perform, bind_of_returned ran, bind_of_returned rests, strings]
    rfl

theorem files_are_byte_strings_formatted : ∃ final,
    perform [.write 2 [7, 8], .seek 2 1, .read 2 9] formattedDevice =
      .returned [([], 2), ([], 0), ([8, 0, 0], 3)] final := by
  obtain ⟨final, ran, -⟩ := files_are_byte_strings (placed_of_layout formattedDevice_layout fun _ => rfl)
    [.write 2 [7, 8], .seek 2 1, .read 2 9] (by decide)
  exact ⟨final, ran⟩

/-- After any calls on inodes and files, a write is refused exactly if some open file has denied writes to the inode. -/
theorem write_refused_iff_denied {start : State} {ops : List Filesys.Op} {client : Client} (empty : start.table = .empty)
    (reached : run Client.step ⟨start, []⟩ ops = some client) {file : Nat} {value : File} {found : Inode}
    (there : client.state.table.files file = some value) (here : client.state.table.inodes value.inode = some found)
    (fits : found.data.Fits client.state.size) (plenty : client.state.Plenty) {bytes : List UInt8} (given : bytes ≠ [])
    (room : value.pos < found.data.size) :
    ∃ written final, fileWrite file bytes client.state = .returned written final ∧
      (written = 0 → final.disk = client.state.disk) ∧ (written = 0 ↔ ∃ other handle,
        client.state.table.files other = some handle ∧ handle.inode = value.inode ∧ handle.denyWrite = true) := by
  have balanced : Balanced client.state.table client.held :=
    invariant_of_reached Client.step (fun client => Balanced client.state.table client.held)
      (fun _ _ _ before taken => Client.step_balanced before taken) (by rw [empty]; exact balanced_empty) reached
  obtain ⟨done, allocations, ran, full⟩ := inodeWriteAt_stored here fits plenty bytes value.pos
  -- The count of the inode is the number of its files that deny writes.
  have denied : found.denyWriteCnt = 0 ↔ ∀ other, other ∉ client.state.table.deniersOf value.inode := by
    rw [(balanced.counted _ _ here).denied, Int.natCast_eq_zero, Finset.card_eq_zero, Finset.eq_empty_iff_forall_notMem]
  refine ⟨done, _, by rw [fileWrite, bind_of_returned (fileAt_returned there), bind_of_returned ran]; rfl, fun none => ?_, ?_⟩
  · subst none
    simp
  · have length := List.length_pos_iff.mpr given
    trans ¬found.denyWriteCnt = 0
    · rw [full]
      split <;> omega
    · simp only [denied, not_forall, not_not, mem_deniersOf]
      exact exists_congr fun other => and_iff_right_of_imp fun ⟨_, files, _⟩ => balanced.file_lt files

/-- Two files are open on one inode, and writes are denied through the second. -/
def reopened : Option Client := run Client.step ⟨{ formattedDevice with table := .empty }, []⟩
  [.inodeOpen 0, .fileOpen 1, .fileReopen 2, .fileDenyWrite 3]

theorem write_refused_iff_denied_reopened :
    ∃ client, reopened = some client ∧ ∃ final, fileWrite 2 [7] client.state = .returned 0 final := by
  have ends : reopened.isSome = true := by decide +kernel
  have files : (reopened.get ends).state.table.files 2 = some ⟨1, 0, false⟩ ∧
      (reopened.get ends).state.table.files 3 = some ⟨1, 0, true⟩ := by decide +kernel +revert
  have inode : (reopened.get ends).state.table.inodes 1 = some ⟨0, 2, false, 1, ⟨2, 4⟩⟩ := by decide +kernel +revert
  have fits : InodeDisk.Fits ⟨2, 4⟩ (reopened.get ends).state.size := ⟨by decide, by decide, by decide +kernel +revert, by decide +kernel +revert⟩
  obtain ⟨written, final, ran, -, refused⟩ := write_refused_iff_denied rfl (Option.some_get ends).symm files.1 inode fits
    (fun _ => rfl) (List.cons_ne_nil 7 []) (by decide)
  exact ⟨_, (Option.some_get ends).symm, final, by rw [ran, refused.mpr ⟨3, _, files.2, rfl, rfl⟩]⟩

end Pintos.Filesys.FileContents
