import Mathlib.Data.Finset.Card
import Mathlib.Data.Finset.Range
import Pintos.Filesys.Directory
import Pintos.Semantics.Noninterference
import Pintos.Semantics.Transition

/-! The table of open inodes.

A handle on an inode is a pointer to it that somebody will close: a pointer
held by a caller, or the one in an open file. The counts in a `struct inode`
are the numbers of its handles and of the files that deny writes to it. What
the operations do to the table is given by pure functions first; the operations
of the source are then shown to have that effect.
-/

set_option autoImplicit false

namespace Pintos.Filesys
open Semantics Computation

namespace Table
variable (table : Table)

def openOn (inode : Nat) : Finset Nat :=
  (Finset.range table.next).filter fun file => (table.files file).any fun found => decide (found.inode = inode)

def deniersOf (inode : Nat) : Finset Nat :=
  (Finset.range table.next).filter fun file =>
    (table.files file).any fun found => decide (found.inode = inode) && found.denyWrite

def close (inode : Nat) : Table :=
  match table.inodes inode with
  | none => table
  | some found =>
    if found.openCnt - 1 = 0 then Table.freeInode { table with openInodes := table.openInodes.erase inode } inode
    else table.setInode inode { found with openCnt := found.openCnt - 1 }

def setDenial (file : Nat) (deny : Bool) : Table :=
  match table.files file with
  | none => table
  | some found =>
    match table.inodes found.inode with
    | none => table
    | some inode =>
      if found.denyWrite = deny then table
      else (table.setFile file { found with denyWrite := deny }).setInode found.inode
        { inode with denyWriteCnt := if deny then inode.denyWriteCnt + 1 else inode.denyWriteCnt - 1 }

end Table

section Maps
variable {V : Type} {map : Nat → Option V} {key other : Nat} {value found : V}

theorem update_some : Function.update map key (some value) other = some found ↔
    (other = key ∧ value = found) ∨ (other ≠ key ∧ map other = some found) := by
  by_cases same : other = key <;> simp [same]

theorem update_none : Function.update map key none other = some found ↔ other ≠ key ∧ map other = some found := by
  by_cases same : other = key <;> simp [same]

theorem isSome_update : (Function.update map key (some value) other).isSome = true ↔
    other = key ∨ (map other).isSome = true := by
  by_cases same : other = key <;> simp [same]

theorem isSome_update_none : (Function.update map key none other).isSome = true ↔
    other ≠ key ∧ (map other).isSome = true := by
  by_cases same : other = key <;> simp [same]

end Maps

structure Sound (table : Table) (held : List Nat) : Prop where
  listed : ∀ inode, inode ∈ table.openInodes ↔ (table.inodes inode).isSome = true
  once : table.openInodes.Nodup
  unique : ∀ first second found other, table.inodes first = some found → table.inodes second = some other →
    found.sector = other.sector → first = second
  backed : ∀ file found, table.files file = some found → (table.inodes found.inode).isSome = true
  holds : ∀ inode ∈ held, (table.inodes inode).isSome = true
  fresh : ∀ address, table.next ≤ address → table.inodes address = none ∧ table.files address = none
  null : table.inodes 0 = none ∧ table.files 0 = none ∧ 0 < table.next

structure Counted (table : Table) (held : List Nat) (inode : Nat) (found : Inode) : Prop where
  opened : found.openCnt = (table.openOn inode).card + held.count inode
  positive : 0 < found.openCnt
  denied : found.denyWriteCnt = (table.deniersOf inode).card

/-- The table between two operations: `held` are the pointers that callers have,
each as often as it is to be closed. -/
structure Balanced (table : Table) (held : List Nat) : Prop extends Sound table held where
  counted : ∀ inode found, table.inodes inode = some found → Counted table held inode found

section Counting
variable {table : Table} {held : List Nat}

variable {inode file : Nat}

theorem mem_openOn : file ∈ table.openOn inode ↔
    file < table.next ∧ ∃ found, table.files file = some found ∧ found.inode = inode := by
  simp [Table.openOn, Option.any_eq_true]

theorem mem_deniersOf : file ∈ table.deniersOf inode ↔
    file < table.next ∧ ∃ found, table.files file = some found ∧ found.inode = inode ∧ found.denyWrite = true := by
  simp [Table.deniersOf, Option.any_eq_true]

theorem Sound.file_lt (sound : Sound table held) {found : File} (there : table.files file = some found) :
    file < table.next := by
  by_contra beyond
  rw [(sound.fresh file (by omega)).2] at there
  cases there

theorem Sound.inode_ne_zero (sound : Sound table held) {found : Inode} (there : table.inodes inode = some found) :
    inode ≠ 0 := by
  rintro rfl
  rw [sound.null.1] at there
  cases there

theorem Sound.file_ne_zero (sound : Sound table held) {found : File} (there : table.files file = some found) :
    file ≠ 0 := by
  rintro rfl
  rw [sound.null.2.1] at there
  cases there

theorem deniersOf_card_le (table : Table) (inode : Nat) : (table.deniersOf inode).card ≤ (table.openOn inode).card := by
  refine Finset.card_le_card fun file inside => ?_
  obtain ⟨below, found, there, on, -⟩ := mem_deniersOf.mp inside
  exact mem_openOn.mpr ⟨below, found, there, on⟩

theorem Balanced.denied_le (balanced : Balanced table held) {found : Inode} (there : table.inodes inode = some found) :
    found.denyWriteCnt ≤ found.openCnt := by
  have fewer := deniersOf_card_le table inode
  rw [(balanced.counted inode found there).denied, (balanced.counted inode found there).opened]
  omega

theorem Balanced.isSome_iff (balanced : Balanced table held) (inode : Nat) :
    (table.inodes inode).isSome = true ↔ 0 < (table.openOn inode).card + held.count inode := by
  constructor
  · intro there
    obtain ⟨found, here⟩ := Option.isSome_iff_exists.mp there
    have positive := (balanced.counted inode found here).positive
    rw [(balanced.counted inode found here).opened] at positive
    omega
  · intro some
    rcases Nat.eq_zero_or_pos (table.openOn inode).card with none | files
    · exact balanced.holds inode (List.count_pos_iff.mp (by omega))
    · obtain ⟨file, inside⟩ := Finset.card_pos.mp files
      obtain ⟨-, found, there, rfl⟩ := mem_openOn.mp inside
      exact balanced.backed file found there

end Counting

section Searching
variable {table : Table} {held : List Nat} {sector inode : Nat}

theorem search_some (found : table.search sector = some inode) :
    ∃ value, table.inodes inode = some value ∧ value.sector = sector := by
  have there := List.find?_some found
  obtain ⟨value, here, same⟩ := (Option.any_eq_true _ _).mp there
  exact ⟨value, here, of_decide_eq_true same⟩

theorem Balanced.search_none (balanced : Balanced table held) (absent : table.search sector = none) {value : Inode}
    (there : table.inodes inode = some value) : value.sector ≠ sector := by
  intro same
  have listed := (balanced.listed inode).mpr (by rw [there]; rfl)
  have missing := List.find?_eq_none.mp absent inode listed
  simp [there, same] at missing

end Searching

section Changes
variable {table : Table} {held : List Nat} {inode : Nat} {found : Inode}

theorem Sound.setInode {later : List Nat} {value : Inode} (sound : Sound table held)
    (counted : ∀ other result, other ≠ inode → table.inodes other = some result → Counted table held other result)
    (there : table.inodes inode = some found) (sector : value.sector = found.sector) (here : Counted table later inode value)
    (others : ∀ other, other ≠ inode → later.count other = held.count other) :
    Balanced (table.setInode inode value) later where
  listed other := by
    rw [Table.setInode, isSome_update]
    refine (sound.listed other).trans ⟨.inr, fun either => either.elim (fun same => ?_) id⟩
    rw [same, there]
    rfl
  once := sound.once
  unique first second one two here also same := by
    rcases update_some.mp here with ⟨rfl, rfl⟩ | ⟨_, old⟩ <;> rcases update_some.mp also with ⟨rfl, rfl⟩ | ⟨_, known⟩
    · rfl
    · exact sound.unique _ _ _ _ there known (sector.symm.trans same)
    · exact sound.unique _ _ _ _ old there (same.trans sector)
    · exact sound.unique _ _ _ _ old known same
  backed file result here := isSome_update.mpr (.inr (sound.backed file result here))
  holds other inside := by
    by_cases mine : other = inode
    · exact isSome_update.mpr (.inl mine)
    · have count := List.count_pos_iff.mpr inside
      rw [others other mine] at count
      exact isSome_update.mpr (.inr (sound.holds other (List.count_pos_iff.mp count)))
  fresh address beyond := by
    have none := sound.fresh address beyond
    have apart : address ≠ inode := by
      rintro rfl
      rw [none.1] at there
      cases there
    exact ⟨by simpa only [Table.setInode, Function.update_of_ne apart] using none.1, none.2⟩
  null := by
    have apart : 0 ≠ inode := (sound.inode_ne_zero there).symm
    exact ⟨by simpa only [Table.setInode, Function.update_of_ne apart] using sound.null.1, sound.null.2⟩
  counted other result found := by
    rcases update_some.mp found with ⟨rfl, rfl⟩ | ⟨apart, old⟩
    · exact ⟨here.opened, here.positive, here.denied⟩
    · have before := counted other result apart old
      exact ⟨by rw [others other apart]; exact before.opened, before.positive, before.denied⟩

section
variable (balanced : Balanced table held)
include balanced

theorem Balanced.setInode {later : List Nat} {value : Inode}
    (there : table.inodes inode = some found) (sector : value.sector = found.sector) (here : Counted table later inode value)
    (others : ∀ other, other ≠ inode → later.count other = held.count other) :
    Balanced (table.setInode inode value) later :=
  balanced.toSound.setInode (fun other result _ => balanced.counted other result) there sector here others

theorem Balanced.reopen (there : table.inodes inode = some found) :
    Balanced (table.setInode inode { found with openCnt := found.openCnt + 1 }) (inode :: held) := by
  have before := balanced.counted inode found there
  have opened := before.opened
  refine balanced.setInode there rfl ⟨?_, Int.lt_add_one_of_le (Int.le_of_lt before.positive), before.denied⟩
    fun other apart => List.count_cons_of_ne (Ne.symm apart)
  simp only [List.count_cons_self]
  omega

theorem Balanced.remove (there : table.inodes inode = some found) :
    Balanced (table.setInode inode { found with removed := true }) held :=
  have before := balanced.counted inode found there
  balanced.setInode there rfl ⟨before.opened, before.positive, before.denied⟩ fun _ _ => rfl

/-- No count depends on the addresses that are not in use yet. -/
theorem Balanced.openOn_later (later : Table) (files : later.files = table.files)
    (next : table.next ≤ later.next) (inode : Nat) : later.openOn inode = table.openOn inode := by
  ext file
  rw [mem_openOn, mem_openOn, files]
  refine and_congr_left fun ⟨found, here, _⟩ => ?_
  exact ⟨fun _ => balanced.file_lt here, fun below => Nat.lt_of_lt_of_le below next⟩

theorem Balanced.deniersOf_later (later : Table) (files : later.files = table.files)
    (next : table.next ≤ later.next) (inode : Nat) : later.deniersOf inode = table.deniersOf inode := by
  ext file
  rw [mem_deniersOf, mem_deniersOf, files]
  refine and_congr_left fun ⟨found, here, _⟩ => ?_
  exact ⟨fun _ => balanced.file_lt here, fun below => Nat.lt_of_lt_of_le below next⟩

theorem Balanced.next_unused : (table.openOn table.next).card = 0 ∧ held.count table.next = 0 := by
  have none := (balanced.fresh table.next (Nat.le_refl _)).1
  have few := (not_congr (balanced.isSome_iff table.next)).mp (by simp [none])
  omega

/-- A new inode: its sector was not in the table. -/
theorem Balanced.insertInode {sector : Nat} (absent : table.search sector = none)
    (data : InodeDisk) : Balanced (table.insert sector data) (table.next :: held) := by
  obtain ⟨noInode, noFile⟩ := balanced.fresh table.next (Nat.le_refl _)
  obtain ⟨unfiled, unheld⟩ := balanced.next_unused
  have openOn := balanced.openOn_later (table.insert sector data) rfl (Nat.le_succ _)
  have deniersOf := balanced.deniersOf_later (table.insert sector data) rfl (Nat.le_succ _)
  refine ⟨⟨fun other => ?_, ?_, ?_, ?_, ?_, ?_, ?_⟩, fun other result here => ?_⟩
  · rw [Table.insert, isSome_update, List.mem_cons]
    exact or_congr_right (balanced.listed other)
  · refine List.nodup_cons.mpr ⟨fun inside => ?_, balanced.once⟩
    have there := (balanced.listed _).mp inside
    rw [noInode] at there
    cases there
  · intro first second one other here there same
    rcases update_some.mp here with ⟨rfl, rfl⟩ | ⟨_, old⟩ <;> rcases update_some.mp there with ⟨rfl, rfl⟩ | ⟨_, known⟩
    · rfl
    · exact absurd same.symm (balanced.search_none absent known)
    · exact absurd same (balanced.search_none absent old)
    · exact balanced.unique _ _ _ _ old known same
  · intro file result here
    exact isSome_update.mpr (.inr (balanced.backed file result here))
  · intro other inside
    exact isSome_update.mpr ((List.mem_cons.mp inside).imp_right (balanced.holds other))
  · intro address beyond
    have later : table.next + 1 ≤ address := beyond
    have none := balanced.fresh address (by omega)
    have apart : address ≠ table.next := by omega
    simpa only [Table.insert, Function.update_of_ne apart] using none
  · have none := balanced.null
    have apart : (0 : Nat) ≠ table.next := by omega
    exact ⟨by simpa only [Table.insert, Function.update_of_ne apart] using none.1, none.2.1, Nat.succ_pos _⟩
  · rcases update_some.mp here with ⟨rfl, rfl⟩ | ⟨apart, old⟩
    · have fewer := deniersOf_card_le table table.next
      refine ⟨?_, Int.one_pos, ?_⟩
      · rw [openOn, unfiled, List.count_cons_self, unheld]
        rfl
      · show (0 : Int) = _
        rw [deniersOf]
        omega
    · have before := balanced.counted other result old
      refine ⟨?_, before.positive, by rw [deniersOf]; exact before.denied⟩
      rw [openOn, List.count_cons_of_ne (Ne.symm apart)]
      exact before.opened

/-- `file_open`: the handle is the file's from now on. -/
theorem Balanced.addFile (inside : inode ∈ held) : Balanced (table.addFile inode) (held.erase inode) := by
  obtain ⟨noInode, noFile⟩ := balanced.fresh table.next (Nat.le_refl _)
  have count := List.count_pos_iff.mpr inside
  have openOn : ∀ other, (table.addFile inode).openOn other =
      if other = inode then insert table.next (table.openOn other) else table.openOn other := by
    intro other
    ext file
    by_cases new : file = table.next
    · subst new
      by_cases mine : other = inode
      · simp [mem_openOn, Table.addFile, mine]
      · simp [mem_openOn, Table.addFile, mine, Ne.symm mine]
    · have below : file < table.next + 1 ↔ file < table.next := by omega
      by_cases mine : other = inode <;> simp [mem_openOn, Table.addFile, mine, new, below]
  have deniersOf : ∀ other, (table.addFile inode).deniersOf other = table.deniersOf other := by
    intro other
    ext file
    by_cases new : file = table.next
    · subst new
      simp [mem_deniersOf, Table.addFile]
    · have below : file < table.next + 1 ↔ file < table.next := by omega
      simp [mem_deniersOf, Table.addFile, new, below]
  refine ⟨⟨balanced.listed, balanced.once, balanced.unique, fun file result here => ?_, fun other member => ?_,
    fun address beyond => ?_, ?_⟩, fun other result here => ?_⟩
  · rcases update_some.mp here with ⟨_, rfl⟩ | ⟨_, old⟩
    · exact balanced.holds inode inside
    · exact balanced.backed file result old
  · exact balanced.holds other (List.mem_of_mem_erase member)
  · have later : table.next + 1 ≤ address := beyond
    have none := balanced.fresh address (by omega)
    have apart : address ≠ table.next := by omega
    simpa only [Table.addFile, Function.update_of_ne apart] using none
  · have none := balanced.null
    have apart : (0 : Nat) ≠ table.next := by omega
    exact ⟨none.1, by simpa only [Table.addFile, Function.update_of_ne apart] using none.2.1, Nat.succ_pos _⟩
  · have before := balanced.counted other result here
    refine ⟨?_, before.positive, by rw [deniersOf]; exact before.denied⟩
    have opened := before.opened
    rw [openOn]
    by_cases mine : other = inode
    · have new : table.next ∉ table.openOn inode := fun member => Nat.lt_irrefl _ (mem_openOn.mp member).1
      rw [mine] at opened ⊢
      rw [if_pos rfl, Finset.card_insert_of_notMem new, List.count_erase_self]
      omega
    · rw [if_neg mine, List.count_erase_of_ne mine]
      exact opened

end

variable {value : File} {file : Nat}

/-- A file that denies nothing hands its inode back when it goes. -/
theorem Balanced.freeFile (balanced : Balanced table held) (there : table.files file = some value)
    (allowed : value.denyWrite = false) :
    Balanced (table.freeFile file) (value.inode :: held) := by
  have openOn : ∀ other, (table.freeFile file).openOn other =
      if other = value.inode then (table.openOn other).erase file else table.openOn other := by
    intro other
    ext member
    by_cases mine : member = file
    · subst mine
      by_cases same : other = value.inode
      · simp [mem_openOn, Table.freeFile, same]
      · simp [mem_openOn, Table.freeFile, same, there, Ne.symm same]
    · by_cases same : other = value.inode <;> simp [mem_openOn, Table.freeFile, same, mine]
  have deniersOf : ∀ other, (table.freeFile file).deniersOf other = table.deniersOf other := by
    intro other
    ext member
    by_cases mine : member = file
    · subst mine
      simp [mem_deniersOf, Table.freeFile, there, allowed]
    · simp [mem_deniersOf, Table.freeFile, mine]
  refine ⟨⟨balanced.listed, balanced.once, balanced.unique, fun member result here => ?_, fun other member => ?_,
    fun address beyond => ?_, ?_⟩, fun other result here => ?_⟩
  · exact balanced.backed member result (update_none.mp here).2
  · rcases List.mem_cons.mp member with rfl | old
    · exact balanced.backed file value there
    · exact balanced.holds other old
  · have none := balanced.fresh address beyond
    refine ⟨none.1, ?_⟩
    rw [Table.freeFile]
    by_cases mine : address = file
    · simp [mine]
    · simp [mine, none.2]
  · have none := balanced.null
    have apart : 0 ≠ file := (balanced.file_ne_zero there).symm
    exact ⟨none.1, by simpa only [Table.freeFile, Function.update_of_ne apart] using none.2.1, none.2.2⟩
  · have before := balanced.counted other result here
    refine ⟨?_, before.positive, by rw [deniersOf]; exact before.denied⟩
    have opened := before.opened
    rw [openOn]
    by_cases mine : other = value.inode
    · have member : file ∈ table.openOn value.inode := mem_openOn.mpr ⟨balanced.file_lt there, value, there, rfl⟩
      have some := Finset.card_pos.mpr ⟨file, member⟩
      rw [mine] at opened ⊢
      rw [if_pos rfl, Finset.card_erase_of_mem member, List.count_cons_self]
      omega
    · rw [if_neg mine, List.count_cons_of_ne (Ne.symm mine)]
      exact opened

theorem Balanced.close (balanced : Balanced table held) (inside : inode ∈ held) :
    Balanced (table.close inode) (held.erase inode) := by
  obtain ⟨found, there⟩ := Option.isSome_iff_exists.mp (balanced.holds inode inside)
  have count := List.count_pos_iff.mpr inside
  have opened := (balanced.counted inode found there).opened
  have others : ∀ other, other ≠ inode → (held.erase inode).count other = held.count other :=
    fun _ apart => List.count_erase_of_ne apart
  simp only [Table.close, there]
  by_cases last : found.openCnt - 1 = 0
  · rw [if_pos last]
    have unfiled : ∀ file, file ∉ table.openOn inode := by
      refine Finset.eq_empty_iff_forall_notMem.mp (Finset.card_eq_zero.mp ?_)
      omega
    have gone : (held.erase inode).count inode = 0 := by
      rw [List.count_erase_self]
      omega
    refine ⟨⟨fun other => ?_, balanced.once.erase _, ?_, ?_, ?_, ?_, ?_⟩, fun other result here => ?_⟩
    · rw [Table.freeInode, isSome_update_none, balanced.once.mem_erase_iff]
      exact and_congr_right fun _ => balanced.listed other
    · intro first second one two here also
      exact balanced.unique _ _ _ _ (update_none.mp here).2 (update_none.mp also).2
    · intro file result here
      refine isSome_update_none.mpr ⟨fun same => ?_, balanced.backed file result here⟩
      exact unfiled file (mem_openOn.mpr ⟨balanced.file_lt here, result, here, same⟩)
    · intro other member
      refine isSome_update_none.mpr ⟨?_, balanced.holds other (List.mem_of_mem_erase member)⟩
      rintro rfl
      exact List.count_eq_zero.mp gone member
    · intro address beyond
      have none := balanced.fresh address beyond
      refine ⟨?_, none.2⟩
      by_cases mine : address = inode <;> simp [Table.freeInode, mine, none.1]
    · have none := balanced.null
      refine ⟨?_, none.2⟩
      by_cases mine : 0 = inode <;> simp [Table.freeInode, mine, none.1]
    · obtain ⟨apart, old⟩ := update_none.mp here
      have before := balanced.counted other result old
      exact ⟨by rw [others other apart]; exact before.opened, before.positive, before.denied⟩
  · rw [if_neg last]
    have positive := (balanced.counted inode found there).positive
    refine balanced.setInode there rfl ⟨?_, ?_, (balanced.counted inode found there).denied⟩ others
    · rw [List.count_erase_self]
      show found.openCnt - 1 = _
      omega
    · show 0 < found.openCnt - 1
      omega

theorem close_freeFile (table : Table) (inode file : Nat) :
    (table.close inode).freeFile file = (table.freeFile file).close inode := by
  simp only [Table.close, Table.freeFile]
  split
  · rfl
  · split <;> rfl

theorem openOn_setFile (changed : File) (there : table.files file = some value) (same : changed.inode = value.inode)
    (other : Nat) : (table.setFile file changed).openOn other = table.openOn other := by
  ext member
  by_cases mine : member = file
  · subst mine
    simp [mem_openOn, Table.setFile, there, same]
  · simp [mem_openOn, Table.setFile, mine]

theorem Sound.setFile (sound : Sound table held) (changed : File) (there : table.files file = some value)
    (same : changed.inode = value.inode) : Sound (table.setFile file changed) held := by
  refine ⟨sound.listed, sound.once, sound.unique, fun member result here => ?_, sound.holds,
    fun address beyond => ⟨(sound.fresh address beyond).1, ?_⟩, sound.null.1, ?_, sound.null.2.2⟩
  · rcases update_some.mp here with ⟨rfl, rfl⟩ | ⟨_, old⟩
    · rw [same]
      exact sound.backed member value there
    · exact sound.backed member result old
  · have apart : address ≠ file := by
      rintro rfl
      exact Nat.not_lt.mpr beyond (sound.file_lt there)
    simpa only [Table.setFile, Function.update_of_ne apart] using (sound.fresh address beyond).2
  · have apart : 0 ≠ file := (sound.file_ne_zero there).symm
    simpa only [Table.setFile, Function.update_of_ne apart] using sound.null.2.1

/-- `file_deny_write` and `file_allow_write`. -/
theorem Balanced.setDenial (balanced : Balanced table held) (file : Nat) (deny : Bool) :
    Balanced (table.setDenial file deny) held := by
  unfold Table.setDenial
  split
  · exact balanced
  rename_i value there
  split
  · exact balanced
  rename_i found backing
  split
  · exact balanced
  rename_i changed
  have deniersOf : ∀ other, (table.setFile file { value with denyWrite := deny }).deniersOf other =
      if other = value.inode then (if deny then insert file (table.deniersOf other) else (table.deniersOf other).erase file)
      else table.deniersOf other := by
    intro other
    ext member
    have below := balanced.file_lt there
    by_cases mine : member = file
    · subst mine
      by_cases same : other = value.inode
      · cases deny <;> simp [mem_deniersOf, Table.setFile, same, below]
      · simp [mem_deniersOf, Table.setFile, same, Ne.symm same, there]
    · by_cases same : other = value.inode <;> cases deny <;> simp [mem_deniersOf, Table.setFile, same, mine]
  have before := balanced.counted value.inode found backing
  have count := before.denied
  -- the count moves with the file in or out of the set
  have denied : (if deny then found.denyWriteCnt + 1 else found.denyWriteCnt - 1) =
      ((table.setFile file { value with denyWrite := deny }).deniersOf value.inode).card := by
    rw [deniersOf, if_pos rfl]
    cases deny with
    | true =>
      have out : file ∉ table.deniersOf value.inode := by simp [mem_deniersOf, there, changed]
      rw [if_pos rfl, if_pos rfl, Finset.card_insert_of_notMem out]
      omega
    | false =>
      have member : file ∈ table.deniersOf value.inode := by
        simpa [mem_deniersOf, there, balanced.file_lt there] using changed
      have some := Finset.card_pos.mpr ⟨file, member⟩
      rw [if_neg (by decide), if_neg (by decide), Finset.card_erase_of_mem member]
      omega
  have sound := balanced.toSound.setFile { value with denyWrite := deny } there rfl
  have openOn := openOn_setFile { value with denyWrite := deny } there rfl
  refine sound.setInode (fun other result apart here => ?_) backing rfl ⟨?_, before.positive, denied⟩ fun _ _ => rfl
  · have counted := balanced.counted other result here
    exact ⟨by rw [openOn]; exact counted.opened, counted.positive, by rw [deniersOf, if_neg apart]; exact counted.denied⟩
  · rw [openOn]
    exact before.opened

end Changes

end Pintos.Filesys
