import Pintos.Filesys.Layout
import Pintos.Semantics.Noninterference

/-! `filesys_create` as a whole, and what a call that fails leaves behind.

The call takes a sector for the inode, then sectors for the data, then an entry
of the directory. Its clean-up gives the inode's sector back; the sectors of the
data are given back by nobody. Only allocations and releases change the free
map: reading, writing and searching the directory are transfers, which leave the
map and the structures in memory alone.
-/

set_option autoImplicit false

namespace Pintos.Filesys
open Semantics Computation

section Transfers

theorem Transfer.same {A : Type} {computation : Fs A} (transfer : Transfer computation) {s final : State} {value : A}
    (done : computation s = .returned value final) : final.freeMap = s.freeMap ∧ final.table = s.table :=
  Prod.mk.inj (leaves_returned transfer done)

theorem transfer_readLoop (inode : InodeDisk) (fuel size offset : Nat) (bounce : Bool) (read : List UInt8) :
    Transfer (readLoop inode fuel size offset bounce read) := by
  induction fuel generalizing size offset bounce read with
  | zero => exact leaves_stop fun _ => trivial
  | succ fuel ih =>
    refine leaves_ite (leaves_ite (leaves_pure _) ?_) (leaves_pure _)
    refine leaves_bind (leaves_ite (leaves_pure _) transfer_malloc) fun _ => leaves_ite ?_ (leaves_pure _)
    exact leaves_bind (transfer_blockRead _) fun _ => ih _ _ _ _

theorem transfer_inodeReadAt (inode size offset : Nat) : Transfer (inodeReadAt inode size offset) :=
  leaves_bind (transfer_inodeAt inode) fun _ => transfer_readLoop _ _ _ _ _ _

theorem transfer_zeroLoop (start left : Nat) : Transfer (zeroLoop start left) := by
  induction left generalizing start with
  | zero => exact leaves_pure ()
  | succ left ih => exact leaves_bind (transfer_blockWrite _ _) fun _ => ih (start + 1)

theorem transfer_readEntry (dir ofs : Nat) : Transfer (readEntry dir ofs) :=
  leaves_bind (transfer_inodeReadAt _ _ _) fun _ => leaves_pure _

theorem transfer_lookupLoop (dir : Nat) (name : Name) (fuel ofs : Nat) : Transfer (lookupLoop dir name fuel ofs) := by
  induction fuel generalizing ofs with
  | zero => exact leaves_stop fun _ => trivial
  | succ fuel ih =>
    refine leaves_bind (transfer_readEntry dir ofs) fun read => ?_
    cases read with
    | none => exact leaves_pure none
    | some entry => exact leaves_ite (leaves_pure _) (ih _)

theorem transfer_entryFuel (dir : Nat) : Transfer (entryFuel dir) := leaves_bind (transfer_inodeAt dir) fun _ => leaves_pure _

theorem transfer_freeEntryLoop (dir fuel ofs : Nat) (last : DirEntry) : Transfer (freeEntryLoop dir fuel ofs last) := by
  induction fuel generalizing ofs last with
  | zero => exact leaves_stop fun _ => trivial
  | succ fuel ih =>
    refine leaves_bind (transfer_readEntry dir ofs) fun read => ?_
    cases read with
    | none => exact leaves_pure _
    | some entry => exact leaves_ite (ih _ _) (leaves_pure _)

/-- Whether or not it finds room, `dir_add` takes no sector. -/
theorem transfer_dirAdd (dir : Nat) (name : Name) (sector : Nat) : Transfer (dirAdd dir name sector) := by
  refine leaves_ite (leaves_pure _) ?_
  refine leaves_bind (leaves_bind (transfer_entryFuel dir) fun _ => transfer_lookupLoop _ _ _ _) fun found => ?_
  cases found with
  | some _ => exact leaves_pure false
  | none =>
    refine leaves_bind (transfer_entryFuel dir) fun _ => leaves_bind (transfer_freeEntryLoop _ _ _ _) fun _ => ?_
    exact leaves_bind (transfer_inodeWriteAt _ _ _) fun _ => leaves_pure _

end Transfers

structure Taken (s final : State) (start cnt : Nat) : Prop where
  free : ∀ k, start ≤ k ∧ k < start + cnt → s.freeMap.test k = false
  tests : ∀ k, final.freeMap.test k = if start ≤ k ∧ k < start + cnt then true else s.freeMap.test k

section Allocations
variable {s final : State}

theorem Taken.none (start : Nat) (same : ∀ k, final.freeMap.test k = s.freeMap.test k) : Taken s final start 0 where
  free k inside := by omega
  tests k := by rw [if_neg (by omega), same]

theorem freeMapAllocate_taken {cnt : Nat} {result : Option Nat} (done : freeMapAllocate cnt s = .returned result final) :
    final.table = s.table ∧ Taken s final (result.getD 0) (if result.isSome then cnt else 0) := by
  rw [freeMapAllocate, bind_get] at done
  cases scanned : s.freeMap.scan 0 cnt false with
  | none =>
    rw [scanned] at done
    cases done
    exact ⟨rfl, .none 0 fun _ => rfl⟩
  | some sector =>
    obtain ⟨-, -, free⟩ := Bitmap.scan_some scanned
    have unmarked : ∀ k, sector ≤ k ∧ k < sector + cnt → s.freeMap.test k = false := by
      intro k inside
      obtain ⟨i, rfl⟩ := Nat.exists_eq_add_of_le inside.1
      exact free i (by omega)
    have marked : ∀ k, (s.freeMap.setMultiple sector cnt true).test k = _ := Bitmap.test_setMultiple sector cnt true
    rw [scanned] at done
    simp only [setFreeMap, bind_modify] at done
    split at done
    · obtain ⟨written, between, wrote, rest⟩ := bind_returned.mp done
      obtain ⟨map, table⟩ := transfer_bitmapWrite.same wrote
      cases written with
      | true =>
        cases rest
        exact ⟨table, unmarked, fun k => by rw [map]; exact marked k⟩
      | false =>
        -- the sectors are free again, whatever has reached the file
        cases rest
        refine ⟨table, .none 0 fun k => ?_⟩
        simp only [map, Bitmap.test_setMultiple]
        split <;> rename_i inside
        · exact (unmarked k inside).symm
        · rfl
    · cases done
      exact ⟨rfl, unmarked, marked⟩

theorem freeMapRelease_cleared {sector : Nat} (done : freeMapRelease sector 1 s = .returned () final) :
    final.table = s.table ∧ ∀ k, final.freeMap.test k = if k = sector then false else s.freeMap.test k := by
  rw [freeMapRelease, bind_get] at done
  obtain ⟨_, first, contained, rest⟩ := bind_returned.mp done
  obtain ⟨-, rfl⟩ := require_returned.mp contained
  obtain ⟨_, second, used, tail⟩ := bind_returned.mp rest
  obtain ⟨-, rfl⟩ := require_returned.mp used
  rw [setFreeMap, bind_modify] at tail
  obtain ⟨_, last, wrote, returned⟩ := bind_returned.mp tail
  cases returned
  obtain ⟨map, table⟩ := transfer_bitmapWrite.same wrote
  refine ⟨table, fun k => ?_⟩
  simp only [map, Bitmap.test_setMultiple]
  by_cases same : k = sector
  · rw [if_pos (by omega), if_pos same]
  · rw [if_neg (by omega), if_neg same]

/-- The data of an inode gets the sectors it needs, or the inode is not made. -/
theorem inodeCreate_taken {sector : Nat} {length : Int} {created : Bool}
    (done : inodeCreate sector length s = .returned created final) :
    0 ≤ length ∧ final.table = s.table ∧ ∃ start, Taken s final start (if created then bytesToSectors length else 0) := by
  rw [inodeCreate] at done
  obtain ⟨_, _, asserted, rest⟩ := bind_returned.mp done
  obtain ⟨met, rfl⟩ := require_returned.mp asserted
  refine ⟨of_decide_eq_true met, ?_⟩
  obtain ⟨granted, after, spent, rest⟩ := bind_returned.mp rest
  cases spent
  split at rest
  · obtain ⟨result, allocated, ran, rest⟩ := bind_returned.mp rest
    obtain ⟨table, taken⟩ := freeMapAllocate_taken ran
    cases result with
    | none =>
      cases rest
      exact ⟨table, 0, taken.free, taken.tests⟩
    | some start =>
      obtain ⟨_, stored, wrote, rest⟩ := bind_returned.mp rest
      obtain ⟨_, zeroed, filled, rest⟩ := bind_returned.mp rest
      cases rest
      obtain ⟨mapStored, tableStored⟩ := (transfer_blockWrite _ _).same wrote
      obtain ⟨mapZeroed, tableZeroed⟩ := (transfer_zeroLoop _ _).same filled
      refine ⟨(tableZeroed.trans tableStored).trans table, start, taken.free, fun k => ?_⟩
      rw [mapZeroed, mapStored]
      exact taken.tests k
  · cases rest
    exact ⟨rfl, 0, .none 0 fun _ => rfl⟩

end Allocations

section Root
variable {s final : State} {held : List Nat}

/-- No sectors go with an inode that has not been removed. -/
theorem inodeClose_keeps {inode : Nat} (done : inodeClose inode s = .returned () final)
    (kept : ∀ found, s.table.inodes inode = some found → found.removed = false) : final.freeMap = s.freeMap := by
  rw [inodeClose] at done
  split at done
  · cases done
    rfl
  · obtain ⟨found, _, looked, rest⟩ := bind_returned.mp done
    cases there : s.table.inodes inode with
    | none => simp [inodeAt, there] at looked
    | some value =>
      rw [inodeAt_returned there] at looked
      cases looked
      rw [onTable, bind_modify] at rest
      split at rest
      · simp only [kept _ there, onTable, bind_modify] at rest
        cases rest
        rfl
      · cases rest
        rfl

/-- The root directory is never removed. -/
theorem inodeOpen_root (layout : Layout s held) {inode : Nat} (done : inodeOpen rootDirSector s = .returned inode final) :
    final.freeMap = s.freeMap ∧ ∀ found, final.table.inodes inode = some found → found.removed = false := by
  have kept : ∀ inode found, s.table.inodes inode = some found → found.sector = rootDirSector → found.removed = false := by
    intro inode found there root
    cases gone : found.removed with
    | false => rfl
    | true => exact absurd root ((layout.cached inode found there).removed gone).2.2
  rw [inodeOpen, bind_get] at done
  cases searched : s.table.search rootDirSector with
  | some known =>
    obtain ⟨value, there, root⟩ := search_some searched
    rw [searched, inodeFinish, inodeReopen_returned there (layout.balanced.inode_ne_zero there)] at done
    cases done
    refine ⟨rfl, fun found here => ?_⟩
    cases (Function.update_self ..).symm.trans here
    exact kept _ value there root
  | none =>
    rw [searched, inodeFinish, bind_malloc] at done
    split at done
    · obtain ⟨bytes, read, ran, rest⟩ := bind_returned.mp done
      obtain ⟨map, table⟩ := (transfer_blockRead _).same ran
      cases rest
      refine ⟨map, fun found here => ?_⟩
      cases (Function.update_self ..).symm.trans here
      rfl
    · cases done
      refine ⟨rfl, fun found here => ?_⟩
      rw [layout.balanced.null.1] at here
      cases here

theorem dirOpenRoot_keeps (layout : Layout s held) {dir : Option Nat} (done : dirOpenRoot s = .returned dir final) :
    final.freeMap = s.freeMap ∧
      ∀ inode, dir = some inode → ∀ found, final.table.inodes inode = some found → found.removed = false := by
  obtain ⟨inode, opened, ran, rest⟩ := bind_returned.mp done
  obtain ⟨map, kept⟩ := inodeOpen_root layout ran
  rw [dirOpen, bind_malloc] at rest
  split at rest
  · cases rest
    exact ⟨map, fun _ same => by cases same; exact kept⟩
  · obtain ⟨_, closed, close, last⟩ := bind_returned.mp rest
    cases last
    exact ⟨(inodeClose_keeps close kept).trans map, fun _ none => by cases none⟩

end Root

section Parts

/-- The first two steps of the conjunction in `filesys_create`: whether the inode
was created, and its sector, 0 if none was allocated. -/
def makeInode (initialSize : Int) : Fs (Bool × Nat) := do
  match ← freeMapAllocate 1 with
  | none => return (false, 0)
  | some inodeSector => do
    let created ← inodeCreate inodeSector initialSize
    return (created, inodeSector)

def reachesAdd (initialSize : Int) : Fs Bool := do
  match ← dirOpenRoot with
  | none => return false
  | some _ => do
    let made ← makeInode initialSize
    return made.1

theorem createIn_eq (dir : Nat) (name : Name) (initialSize : Int) (s : State) :
    createIn (some dir) name initialSize s = (makeInode initialSize >>= fun made => do
      if made.1 then do
        let added ← dirAdd dir name made.2
        return (added, made.2)
      else return (false, made.2)) s := by
  rw [createIn, makeInode, bind_bind]
  refine bind_congr fun allocated after _ => ?_
  cases allocated with
  | none => rfl
  | some sector =>
    dsimp only
    rw [bind_bind]
    exact bind_congr fun created _ _ => rfl

end Parts

section Calls
variable {s final : State} {size : Int} {sector : Nat} {created : Bool} {held : List Nat} {name : Name}

theorem makeInode_taken (used : s.freeMap.test 0 = true) (done : makeInode size s = .returned (created, sector) final) :
    final.table = s.table ∧ (created = true → 0 ≤ size) ∧ ∃ start, ∀ after : State,
      (∀ k, after.freeMap.test k = if sector ≠ 0 ∧ k = sector then false else final.freeMap.test k) →
      Taken s after start (if created then bytesToSectors size else 0) := by
  obtain ⟨allocated, between, ran, rest⟩ := bind_returned.mp done
  obtain ⟨table, one⟩ := freeMapAllocate_taken ran
  cases allocated with
  | none =>
    cases rest
    refine ⟨table, (fun made => by cases made), 0, fun after cleared => .none 0 fun k => ?_⟩
    rw [cleared, if_neg (fun both => both.1 rfl), one.tests, if_neg (by simp)]
  | some taken =>
    obtain ⟨made, _, ran, last⟩ := bind_returned.mp rest
    cases last
    obtain ⟨low, same, start, data⟩ := inodeCreate_taken ran
    simp only [Option.getD_some, Option.isSome_some, if_true] at one
    have unmarked : s.freeMap.test sector = false := one.free sector (by omega)
    have nonzero : sector ≠ 0 := by
      rintro rfl
      rw [unmarked] at used
      cases used
    have own : ¬(start ≤ sector ∧ sector < start + if created then bytesToSectors size else 0) := fun inside => by
      have free := data.free sector inside
      rw [one.tests, if_pos (by omega)] at free
      cases free
    refine ⟨same.trans table, fun _ => low, start, fun after cleared => ⟨fun k inside => ?_, fun k => ?_⟩⟩
    · have free := data.free k inside
      have apart : k ≠ sector := fun equal => own (equal ▸ inside)
      rwa [one.tests, if_neg (by omega)] at free
    · rw [cleared, data.tests]
      by_cases equal : k = sector
      · rw [if_pos ⟨nonzero, equal⟩, equal, if_neg own, unmarked]
      · rw [if_neg (fun both => equal both.2), one.tests, if_neg (show ¬(sector ≤ k ∧ k < sector + 1) by omega)]

theorem createIn_failed {dir : Nat} (failed : createIn (some dir) name size s = .returned (false, sector) final) :
    ∃ made between, makeInode size s = .returned (made, sector) between ∧ final.freeMap = between.freeMap ∧
      final.table = between.table := by
  rw [createIn_eq] at failed
  obtain ⟨⟨made, taken⟩, between, ran, rest⟩ := bind_returned.mp failed
  cases made with
  | false =>
    cases rest
    exact ⟨false, _, ran, rfl, rfl⟩
  | true =>
    obtain ⟨added, after, done, last⟩ := bind_returned.mp rest
    cases last
    exact ⟨true, between, ran, (transfer_dirAdd _ _ _).same done⟩

theorem abandon_cleared {dir : Nat} (kept : ∀ found, s.table.inodes dir = some found → found.removed = false)
    (done : (do
      if !false ∧ sector ≠ 0 then freeMapRelease sector 1
      dirClose (some dir)
      return false : Fs Bool) s = .returned false final) (k : Nat) :
    final.freeMap.test k = if sector ≠ 0 ∧ k = sector then false else s.freeMap.test k := by
  by_cases zero : sector = 0
  · rw [if_neg (by simp [zero])] at done
    obtain ⟨_, closed, close, last⟩ := bind_returned.mp done
    cases last
    rw [inodeClose_keeps close kept, if_neg (fun both => both.1 zero)]
  · rw [if_pos ⟨rfl, zero⟩] at done
    obtain ⟨_, between, released, rest⟩ := bind_returned.mp done
    obtain ⟨table, cleared⟩ := freeMapRelease_cleared released
    obtain ⟨_, closed, close, last⟩ := bind_returned.mp rest
    cases last
    rw [inodeClose_keeps close (by rw [table]; exact kept), cleared]
    simp only [ne_eq, zero, not_false_eq_true, true_and]

/-- A call that returned false: the map has kept the data of an inode that was made, and nothing else. -/
theorem filesysCreate_failed (layout : Layout s held) (failed : filesysCreate name size s = .returned false final) :
    ∃ made after, reachesAdd size s = .returned made after ∧ (made = true → 0 ≤ size) ∧
      ∃ start, Taken s final start (if made then bytesToSectors size else 0) := by
  obtain ⟨dir, opened, ran, rest⟩ := bind_returned.mp failed
  obtain ⟨map, kept⟩ := dirOpenRoot_keeps layout ran
  rw [reachesAdd, bind_of_returned ran]
  cases dir with
  | none =>
    cases rest
    exact ⟨false, _, rfl, (fun made => by cases made), 0, .none 0 fun k => by rw [map]⟩
  | some dir =>
    obtain ⟨⟨success, sector⟩, done, tried, rest⟩ := bind_returned.mp rest
    cases success with
    | true =>
      obtain ⟨_, closed, _, last⟩ := bind_returned.mp rest
      cases last
    | false =>
      obtain ⟨made, between, first, sameMap, sameTable⟩ := createIn_failed tried
      have used : opened.freeMap.test 0 = true := by
        rw [map]
        exact layout.sited.used freeMapSector 0 (.inl rfl) (.inl rfl)
      obtain ⟨table, low, start, spec⟩ := makeInode_taken used first
      have cleared := abandon_cleared (by rw [sameTable, table]; exact kept dir rfl) rest
      have taken := spec final fun k => by rw [cleared, sameMap]
      dsimp only
      rw [bind_of_returned first]
      exact ⟨made, between, rfl, low, start, by rw [← map]; exact taken.free, by rw [← map]; exact taken.tests⟩

end Calls

theorem bytesToSectors_eq_zero {size : Int} (low : 0 ≤ size) (high : size < 2 ^ 31) : bytesToSectors size = 0 ↔ size = 0 := by
  by_cases small : size + 511 < 2 ^ 31
  · rw [bytesToSectors_of_small low small]
    omega
  · have many := bytesToSectors_of_large (by omega) high
    omega

def smallDevice : State where
  size := 16
  disk _ := 0
  freeMap := ⟨0, fun _ => 0⟩
  freeMapFile := 0
  table := .empty
  memory _ := true
  allocations := 0

def nameless : Name := ⟨[], List.not_mem_nil⟩

/-- A create with an empty name on the formatted device fails. -/
theorem nameless_create_fails : ∃ s final, filesysInit true smallDevice = .returned () s ∧
    filesysCreate nameless 512 s = .returned false final ∧ s.freeMap.test 5 = false ∧ final.freeMap.test 5 = true := by
  have ran : (filesysInit true smallDevice).passes (fun _ s => (filesysCreate nameless 512 s).passes fun success final =>
      !success && !s.freeMap.test 5 && final.freeMap.test 5) = true := by decide +kernel
  obtain ⟨_, s, formatted, rest⟩ := Execution.passes_iff.mp ran
  obtain ⟨success, final, failed, tests⟩ := Execution.passes_iff.mp rest
  simp only [Bool.and_eq_true, Bool.not_eq_true'] at tests
  obtain ⟨⟨rfl, before⟩, after⟩ := tests
  exact ⟨s, final, formatted, failed, before, after⟩

end Pintos.Filesys
