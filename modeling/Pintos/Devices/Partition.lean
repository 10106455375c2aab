import Mathlib.Data.List.Flatten
import Mathlib.Data.List.Perm.Basic
import Pintos.Semantics.Overlay
import Pintos.Semantics.Words

/-! Scanning a device for partitions (`devices/partition.c`).

A table of four entries is read from a sector; an entry of an extended type
leads to another table. The scan is compared with what the image describes: the
same walk over the tables, each read from its own sector and with sums that do
not wrap around. A walk gets fuel for its depth; a scan that no fuel is enough
for does not end. Allocation is taken to succeed.
-/

set_option autoImplicit false

namespace Pintos.Devices
open Semantics

def blockSectorSize : Nat := 512

/-- `struct partition_table_entry`: what is read of it. -/
structure Entry where
  type : UInt8
  offset : Nat
  size : Nat
  deriving DecidableEq, Repr

def Entry.empty (e : Entry) : Bool := e.size == 0 || e.type == 0

def Entry.extended (e : Entry) : Bool := e.type == 0x05 || e.type == 0x0f || e.type == 0x85 || e.type == 0xc5

structure Image where
  size : Nat
  byte : Nat → UInt8
  bounded : size < 2 ^ 32

def Image.field (image : Image) (sector position count : Nat) : Nat :=
  ofBytes (window image.byte (blockSectorSize * sector + position) count)

def Image.entry (image : Image) (sector index : Nat) : Entry where
  type := image.byte (blockSectorSize * sector + (446 + 16 * index + 4))
  offset := image.field sector (446 + 16 * index + 8) 4
  size := image.field sector (446 + 16 * index + 12) 4

def Image.table (image : Image) (sector : Nat) : Option (List Entry) :=
  if image.field sector 510 2 = 0xaa55 then some ((List.range 4).map (image.entry sector)) else none

inductive BlockType where
  | kernel | filesys | scratch | swap | foreign
  deriving DecidableEq, Repr

structure Part where
  type : UInt8
  start : Nat
  size : Nat
  deriving DecidableEq, Repr

structure Registered where
  partNr : Nat
  kind : BlockType
  part : Part
  deriving DecidableEq, Repr

structure Scan where
  partNr : Nat
  registered : List Registered

def blockTypeOf (partType : UInt8) : BlockType :=
  if partType = 0x20 then .kernel
  else if partType = 0x21 then .filesys
  else if partType = 0x22 then .scratch
  else if partType = 0x23 then .swap
  else .foreign

def foundPartition (image : Image) (part : Part) (partNr : Nat) : List Registered :=
  let past := (part.start + part.size) % 2 ^ 32
  if image.size ≤ part.start then []
  else if past < part.start ∨ image.size < past then []
  else [⟨partNr, blockTypeOf part.type, part⟩]

/-- One turn of the loop over the entries; `nested` reads the table of an extended partition. -/
def readEntry (image : Image) (nested : Nat → Nat → Scan → Option Scan) (sector primary : Nat) (scan : Scan)
    (e : Entry) : Option Scan :=
  if e.empty then some scan
  else if e.extended then
    if sector = 0 then nested e.offset e.offset scan else nested ((e.offset + primary) % 2 ^ 32) primary scan
  else
    let partNr := scan.partNr + 1
    let part := Part.mk e.type ((e.offset + sector) % 2 ^ 32) e.size
    some ⟨partNr, scan.registered ++ foundPartition image part partNr⟩

def readPartitionTable (image : Image) : Nat → Nat → Nat → Scan → Option Scan
  | 0, _, _, _ => none
  | fuel + 1, sector, primary, scan =>
    if image.size ≤ sector then some scan
    else
      -- `block_read (block, 0, pt)`, whatever the sector
      match image.table 0 with
      | none => some scan
      | some entries => entries.foldlM (readEntry image (readPartitionTable image fuel) sector primary) scan

def partitionScan (image : Image) (fuel : Nat) : Option Scan := readPartitionTable image fuel 0 0 ⟨0, []⟩

/-- The sector of the device that `partition_read` and `partition_write` go to. -/
def partitionSector (partition : Registered) (sector : Nat) : Nat := (partition.part.start + sector) % 2 ^ 32

/- The walk over the tables, for a way to read them and to add sector numbers. -/

structure Reading where
  table : Nat → Option (List Entry)
  plus : Nat → Nat → Nat

def gather (each : Entry → Option (List Part)) : List Entry → Option (List Part)
  | [] => some []
  | e :: rest => (each e).bind fun first => (gather each rest).map (first ++ ·)

def Reading.entryParts (reading : Reading) (nested : Nat → Nat → Option (List Part)) (sector primary : Nat)
    (e : Entry) : Option (List Part) :=
  if e.empty then some []
  else if e.extended then
    if sector = 0 then nested e.offset e.offset else nested (reading.plus e.offset primary) primary
  else some [⟨e.type, reading.plus e.offset sector, e.size⟩]

def Reading.parts (reading : Reading) (size : Nat) : Nat → Nat → Nat → Option (List Part)
  | 0, _, _ => none
  | fuel + 1, sector, primary =>
    if size ≤ sector then some []
    else
      match reading.table sector with
      | none => some []
      | some entries => gather (reading.entryParts (reading.parts size fuel) sector primary) entries

def Image.meant (image : Image) : Reading := ⟨image.table, (· + ·)⟩

def Image.Describes (image : Image) (sector primary : Nat) (parts : List Part) : Prop :=
  ∃ fuel, image.meant.parts image.size fuel sector primary = some parts

def Image.holds (image : Image) (part : Part) : Bool := part.start < image.size && part.start + part.size ≤ image.size

/-- The scan ends with exactly those partitions inside the device registered, and no access through
one of them leaves it. -/
def Registers (image : Image) (parts : List Part) : Prop :=
  ∃ fuel scan, partitionScan image fuel = some scan ∧
    (scan.registered.map Registered.part).Perm (parts.filter image.holds) ∧
      ∀ partition ∈ scan.registered, ∀ sector < partition.part.size,
        partition.part.start ≤ partitionSector partition sector ∧ partitionSector partition sector < image.size

def Image.nested (image : Image) (entries : List Entry) : List Entry :=
  entries.filter fun e => !e.empty && e.extended && e.offset < image.size

def Entry.plain (e : Entry) (start : Nat) : List Part := if e.empty || e.extended then [] else [⟨e.type, start, e.size⟩]

def copies (entries : List Entry) (sector : Nat) : List Part :=
  entries.flatMap fun e => e.plain ((e.offset + sector) % 2 ^ 32)

/-- When reading the MBR again for every nested table does no harm: the extended entries do not add up
to a sector of the device, and the primary partitions moved to the nested tables are, inside the device,
the logical partitions those tables describe. With no nested table both hold. -/
def Spared (image : Image) : Prop :=
  ∀ entries, image.table 0 = some entries →
    (∀ e ∈ image.nested entries, ∀ other ∈ entries, other.empty = false → other.extended = true →
      image.size ≤ (other.offset + e.offset) % 2 ^ 32) ∧
    ∃ logical : Entry → List Part, (∀ e ∈ image.nested entries, image.Describes e.offset e.offset (logical e)) ∧
      (((image.nested entries).flatMap fun e => copies entries e.offset).filter image.holds).Perm
        (((image.nested entries).flatMap logical).filter image.holds)

section Gathering

variable {each : Entry → Option (List Part)} {entries : List Entry}

theorem gather_eq_some {parts : List Part} :
    gather each entries = some parts ↔
      (∀ e ∈ entries, (each e).isSome) ∧ parts = entries.flatMap fun e => (each e).getD [] := by
  induction entries generalizing parts with
  | nil =>
    rw [gather, Option.some.injEq]
    exact ⟨fun same => ⟨nofun, same.symm⟩, fun same => same.2.symm⟩
  | cons e rest ih =>
    cases first : each e with
    | none => simp [gather, first]
    | some list =>
      simp only [gather, first, Option.bind_some, Option.map_eq_some_iff, ih, List.mem_cons, forall_eq_or_imp,
        Option.isSome_some, true_and, List.flatMap_cons, Option.getD_some]
      constructor
      · rintro ⟨_, ⟨defined, rfl⟩, rfl⟩
        exact ⟨defined, rfl⟩
      · rintro ⟨defined, rfl⟩
        exact ⟨_, ⟨defined, rfl⟩, rfl⟩

theorem gather_none {e : Entry} (member : e ∈ entries) (undefined : each e = none) : gather each entries = none := by
  cases result : gather each entries with
  | none => rfl
  | some parts =>
    have defined := (gather_eq_some.mp result).1 e member
    simp [undefined] at defined

theorem gather_total {value : Entry → List Part} (defined : ∀ e ∈ entries, each e = some (value e)) :
    gather each entries = some (entries.flatMap value) := by
  refine gather_eq_some.mpr ⟨fun e member => by simp [defined e member], ?_⟩
  exact List.flatMap_congr fun e member => by simp [defined e member]

end Gathering

/-- What the code reads: always the table in sector 0, with sums of 32-bit words. -/
def Image.coded (image : Image) : Reading := ⟨fun _ => image.table 0, fun a b => (a + b) % 2 ^ 32⟩

theorem image_entry_bounds (image : Image) {entries : List Entry} (table : image.table 0 = some entries) :
    ∀ e ∈ entries, e.offset < 2 ^ 32 ∧ e.size < 2 ^ 32 := by
  intro e member
  unfold Image.table at table
  split at table
  · cases table
    obtain ⟨index, -, rfl⟩ := List.mem_map.mp member
    have bound (position : Nat) : image.field 0 position 4 < 2 ^ 32 := by
      have below := ofBytes_lt (window image.byte (blockSectorSize * 0 + position) 4)
      rwa [length_window] at below
    exact ⟨bound _, bound _⟩
  · cases table

section Code
variable {image : Image}

theorem foundPartition_part (part : Part) (partNr : Nat) (small : part.size < 2 ^ 32) :
    (foundPartition image part partNr).map Registered.part = [part].filter image.holds := by
  have bounded := image.bounded
  unfold foundPartition Image.holds
  by_cases inside : part.start < image.size ∧ part.start + part.size ≤ image.size
  · have past : (part.start + part.size) % 2 ^ 32 = part.start + part.size := Nat.mod_eq_of_lt (by omega)
    rw [past, if_neg (by omega), if_neg (by omega)]
    simp [inside.1, inside.2]
  · have outside : (decide (part.start < image.size) && decide (part.start + part.size ≤ image.size)) = false := by
      simpa using fun start => Nat.lt_of_not_le fun fits => inside ⟨start, fits⟩
    rw [List.filter_singleton, outside]
    by_cases start : image.size ≤ part.start
    · rw [if_pos start]
      rfl
    · rw [if_neg start, if_pos]
      · rfl
      · by_cases wraps : part.start + part.size < 2 ^ 32
        · rw [Nat.mod_eq_of_lt wraps]
          omega
        · rw [Nat.mod_eq_sub_mod (by omega), Nat.mod_eq_of_lt (by omega)]
          omega

def Scan.parts (scan : Scan) : List Part := scan.registered.map Registered.part

theorem readEntry_parts {nested : Nat → Nat → Scan → Option Scan} {found : Nat → Nat → Option (List Part)}
    (agree : ∀ sector primary scan, (nested sector primary scan).map Scan.parts =
      (found sector primary).map (scan.parts ++ ·.filter image.holds))
    (sector primary : Nat) (scan : Scan) {e : Entry} (small : e.size < 2 ^ 32) :
    (readEntry image nested sector primary scan e).map Scan.parts =
      (image.coded.entryParts found sector primary e).map (scan.parts ++ ·.filter image.holds) := by
  unfold readEntry Reading.entryParts
  split
  · simp
  · split
    · split
      · exact agree _ _ scan
      · exact agree _ _ scan
    · simp only [Option.map_some, Scan.parts, List.map_append]
      rw [foundPartition_part _ _ small]
      rfl

theorem foldlM_readEntry_parts {nested : Nat → Nat → Scan → Option Scan} {found : Nat → Nat → Option (List Part)}
    (agree : ∀ sector primary scan, (nested sector primary scan).map Scan.parts =
      (found sector primary).map (scan.parts ++ ·.filter image.holds))
    (sector primary : Nat) {entries : List Entry} (small : ∀ e ∈ entries, e.size < 2 ^ 32) (scan : Scan) :
    (entries.foldlM (readEntry image nested sector primary) scan).map Scan.parts =
      (gather (image.coded.entryParts found sector primary) entries).map (scan.parts ++ ·.filter image.holds) := by
  induction entries generalizing scan with
  | nil => simp [gather]
  | cons e rest ih =>
    have first := readEntry_parts agree sector primary scan (small e (by simp))
    have later := ih fun e member => small e (by simp [member])
    rw [List.foldlM_cons, gather]
    cases code : readEntry image nested sector primary scan e with
    | none =>
      rw [code, Option.map_none, eq_comm, Option.map_eq_none_iff] at first
      rw [first]
      rfl
    | some next =>
      rw [code, Option.map_some, eq_comm, Option.map_eq_some_iff] at first
      obtain ⟨list, found, same⟩ := first
      rw [found, Option.bind_eq_bind, Option.bind_some, Option.bind_some, later next, ← same, Option.map_map]
      congr 1
      funext parts
      simp

/-- The scan registers, of what the walk over the coded reading finds, the partitions inside the device. -/
theorem readPartitionTable_parts (image : Image) (fuel sector primary : Nat) (scan : Scan) :
    (readPartitionTable image fuel sector primary scan).map Scan.parts =
      (image.coded.parts image.size fuel sector primary).map (scan.parts ++ ·.filter image.holds) := by
  induction fuel generalizing sector primary scan with
  | zero => rfl
  | succ fuel ih =>
    rw [readPartitionTable, Reading.parts]
    by_cases past : image.size ≤ sector
    · simp [past]
    · rw [if_neg past, if_neg past]
      have reads : image.coded.table sector = image.table 0 := rfl
      rw [reads]
      cases table : image.table 0 with
      | none => simp
      | some entries =>
        exact foldlM_readEntry_parts ih sector primary (fun e member => (image_entry_bounds image table e member).2) scan

end Code

section Walks
variable {reading : Reading} {size : Nat}

variable {sector primary : Nat} {parts : List Part}

theorem Reading.parts_past (past : size ≤ sector) (fuel primary : Nat) :
    reading.parts size (fuel + 1) sector primary = some [] := by
  rw [Reading.parts, if_pos past]

theorem Reading.parts_table {entries : List Entry} (inside : sector < size)
    (table : reading.table sector = some entries) (fuel primary : Nat) :
    reading.parts size (fuel + 1) sector primary =
      gather (reading.entryParts (reading.parts size fuel) sector primary) entries := by
  rw [Reading.parts, if_neg (Nat.not_le.mpr inside), table]

theorem Reading.entryParts_mono {nested more : Nat → Nat → Option (List Part)}
    (agree : ∀ sector primary parts, nested sector primary = some parts → more sector primary = some parts)
    {e : Entry} (result : reading.entryParts nested sector primary e = some parts) :
    reading.entryParts more sector primary e = some parts := by
  revert result
  unfold Reading.entryParts
  split_ifs
  · exact id
  · exact agree _ _ parts
  · exact agree _ _ parts
  · exact id

/-- More fuel does not change a result. -/
theorem Reading.parts_succ {fuel : Nat} (ends : reading.parts size fuel sector primary = some parts) :
    reading.parts size (fuel + 1) sector primary = some parts := by
  induction fuel generalizing sector primary parts with
  | zero => cases ends
  | succ fuel ih =>
    by_cases past : size ≤ sector
    · rw [Reading.parts_past past] at ends ⊢
      exact ends
    · cases table : reading.table sector with
      | none =>
        rw [Reading.parts, if_neg past, table] at ends ⊢
        exact ends
      | some entries =>
        rw [Reading.parts_table (Nat.lt_of_not_le past) table] at ends ⊢
        obtain ⟨defined, rfl⟩ := gather_eq_some.mp ends
        refine gather_total fun e member => ?_
        obtain ⟨value, result⟩ := Option.isSome_iff_exists.mp (defined e member)
        rw [result, Option.getD_some]
        exact Reading.entryParts_mono (fun _ _ _ => ih) result

theorem Reading.parts_unique {first second : Nat} {other : List Part}
    (one : reading.parts size first sector primary = some parts)
    (two : reading.parts size second sector primary = some other) : parts = other := by
  have more (fuel extra : Nat) {list : List Part} (ends : reading.parts size fuel sector primary = some list) :
      reading.parts size (fuel + extra) sector primary = some list := by
    induction extra with
    | zero => exact ends
    | succ extra ih => exact Reading.parts_succ ih
  have left := more first second one
  have right := more second first two
  rw [Nat.add_comm] at right
  exact Option.some.inj (left.symm.trans right)

end Walks

section Rereading
variable {image : Image} {entries : List Entry}

variable {e : Entry}

theorem mem_nested : e ∈ image.nested entries ↔
    e ∈ entries ∧ e.empty = false ∧ e.extended = true ∧ e.offset < image.size := by
  simp [Image.nested, and_assoc]

theorem entryParts_extended (reading : Reading) (nested : Nat → Nat → Option (List Part)) (sector primary : Nat)
    (full : e.empty = false) (extended : e.extended = true) :
    reading.entryParts nested sector primary e =
      if sector = 0 then nested e.offset e.offset else nested (reading.plus e.offset primary) primary := by
  simp [Reading.entryParts, full, extended]

/-- Two extended entries whose sum is a sector of the device send the scan around in circles. -/
theorem coded_endless (table : image.table 0 = some entries) {other : Entry} (nested : e ∈ image.nested entries)
    (member : other ∈ entries) (full : other.empty = false) (extended : other.extended = true)
    (inside : (other.offset + e.offset) % 2 ^ 32 < image.size) (fuel : Nat) :
    (∀ primary, image.coded.parts image.size fuel 0 primary = none) ∧
      image.coded.parts image.size fuel e.offset e.offset = none ∧
        image.coded.parts image.size fuel ((other.offset + e.offset) % 2 ^ 32) e.offset = none := by
  obtain ⟨first, eFull, eExtended, low⟩ := mem_nested.mp nested
  have reads (sector : Nat) : image.coded.table sector = some entries := table
  have adds : image.coded.plus other.offset e.offset = (other.offset + e.offset) % 2 ^ 32 := rfl
  induction fuel with
  | zero => exact ⟨fun _ => rfl, rfl, rfl⟩
  | succ fuel ih =>
    obtain ⟨-, again, around⟩ := ih
    have restart (primary : Nat) : image.coded.parts image.size (fuel + 1) 0 primary = none := by
      rw [Reading.parts_table (by omega) (reads 0)]
      apply gather_none first
      rw [entryParts_extended _ _ _ _ eFull eExtended, if_pos rfl, again]
    -- a table in sector 0 leads to `e`, any other table below `e` to the sum
    have below {sector : Nat} (within : sector < image.size) :
        image.coded.parts image.size (fuel + 1) sector e.offset = none := by
      by_cases zero : sector = 0
      · rw [zero]
        exact restart _
      · rw [Reading.parts_table within (reads sector)]
        apply gather_none member
        rw [entryParts_extended _ _ _ _ full extended, if_neg zero, adds, around]
    exact ⟨restart, below low, below inside⟩

def Image.topParts (image : Image) (entries : List Entry) (nested : Entry → List Part) (e : Entry) : List Part :=
  if e ∈ image.nested entries then nested e else e.plain e.offset

theorem topParts_of_plain {nested : Entry → List Part} (plain : (e.empty || e.extended) = false) :
    image.topParts entries nested e = [⟨e.type, e.offset, e.size⟩] := by
  have outside : e ∉ image.nested entries := by
    intro inside
    simp [mem_nested] at inside
    simp [inside] at plain
  rw [Image.topParts, if_neg outside, Entry.plain, plain]
  rfl

section Ends
variable (table : image.table 0 = some entries)
  (clear : ∀ e ∈ image.nested entries, ∀ other ∈ entries, other.empty = false → other.extended = true →
    image.size ≤ (other.offset + e.offset) % 2 ^ 32)
include table clear

theorem coded_nested {e : Entry} (nested : e ∈ image.nested entries) (fuel : Nat) :
    image.coded.parts image.size (fuel + 2) e.offset e.offset = some (copies entries e.offset) := by
  obtain ⟨member, full, extended, low⟩ := mem_nested.mp nested
  have nonzero : e.offset ≠ 0 := by
    intro zero
    have far := clear e nested e member full extended
    simp only [zero] at far low
    omega
  have reads : image.coded.table e.offset = some entries := table
  rw [Reading.parts_table low reads]
  refine gather_total fun other inside => ?_
  unfold Reading.entryParts Entry.plain
  by_cases empty : other.empty = true
  · simp [empty]
  · rw [Bool.not_eq_true] at empty
    by_cases further : other.extended = true
    · have far : image.size ≤ image.coded.plus other.offset e.offset := clear e nested other inside empty further
      simp [empty, further, nonzero, Reading.parts_past far]
    · simp [empty, further, Image.coded]

theorem coded_top (positive : 0 < image.size) (fuel : Nat) :
    image.coded.parts image.size (fuel + 3) 0 0 =
      some (entries.flatMap (image.topParts entries fun e => copies entries e.offset)) := by
  have reads : image.coded.table 0 = some entries := table
  rw [Reading.parts_table positive reads]
  refine gather_total fun e member => ?_
  have small := (image_entry_bounds image table e member).1
  by_cases plain : (e.empty || e.extended) = false
  · have start : image.coded.plus e.offset 0 = e.offset := Nat.mod_eq_of_lt small
    rw [topParts_of_plain plain]
    simp only [Bool.or_eq_false_iff] at plain
    simp [Reading.entryParts, plain, start]
  · by_cases empty : e.empty = true
    · have outside : e ∉ image.nested entries := fun inside => by simp [mem_nested, empty] at inside
      rw [Image.topParts, if_neg outside]
      simp [Reading.entryParts, Entry.plain, empty]
    · rw [Bool.not_eq_true] at empty
      have extended : e.extended = true := by simpa [empty] using plain
      rw [entryParts_extended _ _ _ _ empty extended, if_pos rfl]
      by_cases past : image.size ≤ e.offset
      · have outside : e ∉ image.nested entries := fun inside => by
          have low := (mem_nested.mp inside).2.2.2
          omega
        rw [Image.topParts, if_neg outside, Reading.parts_past past]
        simp [Entry.plain, extended]
      · have inside : e ∈ image.nested entries := mem_nested.mpr ⟨member, empty, extended, Nat.lt_of_not_le past⟩
        rw [Image.topParts, if_pos inside]
        exact coded_nested table clear inside fuel

end Ends

/-- The partitions an image describes are those of its MBR, with the logical ones in the place of
the nested tables. -/
theorem described_top (table : image.table 0 = some entries) (positive : 0 < image.size) {parts : List Part}
    (described : image.Describes 0 0 parts) :
    ∃ logical : Entry → List Part, (∀ e ∈ image.nested entries, image.Describes e.offset e.offset (logical e)) ∧
      parts = entries.flatMap (image.topParts entries logical) := by
  obtain ⟨fuel, ends⟩ := described
  match fuel with
  | 0 => cases ends
  | fuel + 1 =>
    have reads : image.meant.table 0 = some entries := table
    rw [Reading.parts_table positive reads] at ends
    obtain ⟨defined, rfl⟩ := gather_eq_some.mp ends
    refine ⟨fun e => (image.meant.parts image.size fuel e.offset e.offset).getD [], fun e nested => ⟨fuel, ?_⟩,
      List.flatMap_congr fun e member => ?_⟩
    · obtain ⟨member, full, extended, -⟩ := mem_nested.mp nested
      have found := defined e member
      rw [entryParts_extended _ _ _ _ full extended, if_pos rfl] at found
      obtain ⟨list, result⟩ := Option.isSome_iff_exists.mp found
      simp only [result, Option.getD_some]
    · have found := defined e member
      by_cases inside : e ∈ image.nested entries
      · obtain ⟨-, full, extended, -⟩ := mem_nested.mp inside
        rw [Image.topParts, if_pos inside, entryParts_extended _ _ _ _ full extended, if_pos rfl]
      · rw [Image.topParts, if_neg inside]
        by_cases empty : e.empty = true
        · simp [Reading.entryParts, Entry.plain, empty]
        · rw [Bool.not_eq_true] at empty
          by_cases extended : e.extended = true
          · -- the table is past the end of the device
            have past : image.size ≤ e.offset := by
              by_contra low
              exact inside (mem_nested.mpr ⟨member, empty, extended, Nat.lt_of_not_le low⟩)
            rw [entryParts_extended _ _ _ _ empty extended, if_pos rfl] at found ⊢
            match fuel with
            | 0 => cases found
            | fuel + 1 =>
              rw [Reading.parts_past past]
              simp [Entry.plain, extended]
          · simp [Reading.entryParts, Entry.plain, empty, extended, Image.meant]

theorem topParts_perm (image : Image) (entries : List Entry) (nested : Entry → List Part) :
    (entries.flatMap (image.topParts entries nested)).Perm
      ((entries.filter fun e => !(!e.empty && e.extended && e.offset < image.size)).flatMap (fun e => e.plain e.offset) ++
        (image.nested entries).flatMap nested) := by
  let leads : Entry → Bool := fun e => !e.empty && e.extended && decide (e.offset < image.size)
  have apart := (List.filter_append_perm leads entries).symm.trans List.perm_append_comm
  have flat := apart.flatMap_right (image.topParts entries nested)
  rw [List.flatMap_append] at flat
  refine flat.trans (List.Perm.of_eq (congrArg₂ _ ?_ ?_))
  · refine List.flatMap_congr fun e member => if_neg fun inside => ?_
    have outside := (List.mem_filter.mp member).2
    have within : leads e = true := (List.mem_filter.mp inside).2
    simp [within] at outside
  · exact List.flatMap_congr fun e member => if_pos member

end Rereading

section Results
variable {image : Image}

/-- A scan that ends has registered the partitions inside the device of what its walk found. -/
theorem partitionScan_some {fuel : Nat} {scan : Scan} (ends : partitionScan image fuel = some scan) :
    ∃ found, image.coded.parts image.size fuel 0 0 = some found ∧
      scan.registered.map Registered.part = found.filter image.holds := by
  have agree := readPartitionTable_parts image fuel 0 0 ⟨0, []⟩
  rw [partitionScan] at ends
  rw [ends, Option.map_some, eq_comm, Option.map_eq_some_iff] at agree
  obtain ⟨found, walk, same⟩ := agree
  exact ⟨found, walk, same.symm⟩

theorem partitionScan_ends {fuel : Nat} {found : List Part}
    (walk : image.coded.parts image.size fuel 0 0 = some found) : ∃ scan, partitionScan image fuel = some scan := by
  have agree := readPartitionTable_parts image fuel 0 0 ⟨0, []⟩
  rw [walk, Option.map_some, Option.map_eq_some_iff] at agree
  obtain ⟨scan, ends, -⟩ := agree
  exact ⟨scan, ends⟩

theorem access_inside {partition : Registered} (holds : image.holds partition.part = true) {sector : Nat}
    (below : sector < partition.part.size) :
    partition.part.start ≤ partitionSector partition sector ∧ partitionSector partition sector < image.size := by
  have bounded := image.bounded
  simp only [Image.holds, Bool.and_eq_true, decide_eq_true_eq] at holds
  rw [partitionSector, Nat.mod_eq_of_lt (by omega)]
  omega

theorem registers_iff (parts : List Part) :
    Registers image parts ↔ ∃ fuel found, image.coded.parts image.size fuel 0 0 = some found ∧
      (found.filter image.holds).Perm (parts.filter image.holds) := by
  constructor
  · rintro ⟨fuel, scan, ends, same, -⟩
    obtain ⟨found, walk, registered⟩ := partitionScan_some ends
    exact ⟨fuel, found, walk, registered ▸ same⟩
  · rintro ⟨fuel, found, walk, same⟩
    obtain ⟨scan, ends⟩ := partitionScan_ends walk
    obtain ⟨other, again, registered⟩ := partitionScan_some ends
    obtain rfl := Reading.parts_unique walk again
    refine ⟨fuel, scan, ends, registered ▸ same, fun partition member sector below => access_inside ?_ below⟩
    have listed : partition.part ∈ found.filter image.holds := registered ▸ List.mem_map_of_mem member
    exact (List.mem_filter.mp listed).2

theorem spared_of_empty (empty : image.size = 0) : Spared image := by
  have none (entries : List Entry) : image.nested entries = [] := by
    refine List.filter_eq_nil_iff.mpr fun e _ => ?_
    simp [empty]
  intro entries _
  rw [none]
  exact ⟨nofun, fun _ => [], nofun, List.Perm.refl _⟩

/-- A device of no sectors and an MBR without its signature describe nothing and are found to hold nothing. -/
theorem registers_nothing {parts : List Part} (described : image.Describes 0 0 parts)
    (bare : image.size = 0 ∨ image.table 0 = none) : Registers image parts := by
  have nothing (reading : Reading) (reads : reading.table 0 = image.table 0) (fuel : Nat) :
      reading.parts image.size (fuel + 1) 0 0 = some [] := by
    obtain empty | unsigned := bare
    · exact Reading.parts_past (by omega) fuel 0
    · rw [Reading.parts, reads, unsigned]
      split <;> rfl
  obtain ⟨fuel, ends⟩ := described
  have none := Reading.parts_unique ends (nothing image.meant rfl 0)
  rw [none]
  exact (registers_iff []).mpr ⟨1, [], nothing image.coded rfl 0, List.Perm.refl _⟩

/-- Exactly which images are scanned as they are meant. -/
theorem partitions_registered_iff (image : Image) (parts : List Part) (described : image.Describes 0 0 parts) :
    Registers image parts ↔ Spared image := by
  by_cases positive : 0 < image.size
  case neg =>
    have empty : image.size = 0 := by omega
    exact iff_of_true (registers_nothing described (.inl empty)) (spared_of_empty empty)
  cases table : image.table 0 with
  | none =>
    refine iff_of_true (registers_nothing described (.inr table)) fun entries same => ?_
    simp [table] at same
  | some entries =>
    obtain ⟨logical, nested, rfl⟩ := described_top table positive described
    have meant := (topParts_perm image entries logical).filter image.holds
    have code := (topParts_perm image entries fun e => copies entries e.offset).filter image.holds
    rw [List.filter_append] at meant code
    rw [registers_iff]
    constructor
    · rintro ⟨fuel, found, walk, same⟩ others listed
      obtain rfl : entries = others := Option.some.inj (table.symm.trans listed)
      have clear : ∀ e ∈ image.nested entries, ∀ other ∈ entries, other.empty = false → other.extended = true →
          image.size ≤ (other.offset + e.offset) % 2 ^ 32 := by
        intro e inner other member full extended
        by_contra inside
        have endless := (coded_endless table inner member full extended (Nat.lt_of_not_le inside) fuel).1 0
        simp [endless] at walk
      obtain rfl := Reading.parts_unique walk (coded_top table clear positive 0)
      exact ⟨clear, logical, nested, (List.perm_append_left_iff _).mp (code.symm.trans (same.trans meant))⟩
    · intro spared
      obtain ⟨clear, other, describes, same⟩ := spared entries table
      have agree : (image.nested entries).flatMap other = (image.nested entries).flatMap logical := by
        refine List.flatMap_congr fun e member => ?_
        obtain ⟨_, one⟩ := describes e member
        obtain ⟨_, two⟩ := nested e member
        exact Reading.parts_unique one two
      rw [agree] at same
      exact ⟨3, _, coded_top table clear positive 0, code.trans ((same.append_left _).trans meant.symm)⟩

end Results

def sparse (cells : List (Nat × UInt8)) : Image where
  size := 100
  byte := fun address => ((cells.find? fun cell => cell.1 = address).map Prod.snd).getD 0
  bounded := by decide

def flatCells : List (Nat × UInt8) := [(466, 0x20), (470, 1), (474, 10), (510, 0x55), (511, 0xaa)]

/-- The same with a nested table in a sector: a partition of type 0x21, five sectors from the next sector on. -/
def nestedCells (sector : Nat) : List (Nat × UInt8) :=
  flatCells ++ [(450, 0x05), (454, UInt8.ofNat sector), (458, 20)] ++
    [(450, 0x21), (454, 1), (458, 5), (510, 0x55), (511, 0xaa)].map fun cell => (512 * sector + cell.1, cell.2)

theorem flat_described : (sparse flatCells).Describes 0 0 [⟨0x20, 1, 10⟩] := ⟨1, by decide +kernel⟩

/-- Without a nested table the only partition is registered. -/
theorem flat_image_registered :
    (sparse flatCells).Describes 0 0 [⟨0x20, 1, 10⟩] ∧ Spared (sparse flatCells) ∧
      Registers (sparse flatCells) [⟨0x20, 1, 10⟩] := by
  have spared : Spared (sparse flatCells) := by
    intro entries table
    have none : ((sparse flatCells).table 0).map (sparse flatCells).nested = some [] := by decide +kernel
    rw [table, Option.map_some, Option.some.injEq] at none
    rw [none]
    exact ⟨nofun, fun _ => [], nofun, List.Perm.refl _⟩
  exact ⟨flat_described, spared, (partitions_registered_iff _ _ flat_described).mpr spared⟩

/-- The logical partition at sector 61 is missed and one of the MBR registered in its place; with the
nested table in sector 40 the scan does not end. -/
theorem nested_table_misread :
    ((sparse (nestedCells 60)).Describes 0 0 [⟨0x21, 61, 5⟩, ⟨0x20, 1, 10⟩] ∧
      ((partitionScan (sparse (nestedCells 60)) 3).map Scan.parts = some [⟨0x20, 61, 10⟩, ⟨0x20, 1, 10⟩]) ∧
        ¬ Registers (sparse (nestedCells 60)) [⟨0x21, 61, 5⟩, ⟨0x20, 1, 10⟩]) ∧
    ((sparse (nestedCells 40)).Describes 0 0 [⟨0x21, 41, 5⟩, ⟨0x20, 1, 10⟩] ∧
      ∀ fuel, partitionScan (sparse (nestedCells 40)) fuel = none) := by
  refine ⟨⟨⟨2, by decide +kernel⟩, by decide +kernel, fun registers => ?_⟩, ⟨2, by decide +kernel⟩, fun fuel => ?_⟩
  · obtain ⟨fuel, found, walk, same⟩ := (registers_iff _).mp registers
    have finds : (sparse (nestedCells 60)).coded.parts 100 3 0 0 = some [⟨0x20, 61, 10⟩, ⟨0x20, 1, 10⟩] := by
      decide +kernel
    obtain rfl := Reading.parts_unique walk finds
    have missing := same.mem_iff.mpr (show (⟨0x21, 61, 5⟩ : Part) ∈ _ by decide +kernel)
    revert missing
    decide +kernel
  · cases ends : partitionScan (sparse (nestedCells 40)) fuel with
    | none => rfl
    | some scan =>
      obtain ⟨found, walk, -⟩ := partitionScan_some ends
      let extended := (sparse (nestedCells 40)).entry 0 0
      have table : (sparse (nestedCells 40)).table 0 = some ((List.range 4).map ((sparse (nestedCells 40)).entry 0)) := by
        decide +kernel
      have inside : extended ∈ (sparse (nestedCells 40)).nested ((List.range 4).map ((sparse (nestedCells 40)).entry 0)) := by
        decide +kernel
      have endless := (coded_endless table inside (List.mem_filter.mp inside).1 (by decide +kernel) (by decide +kernel)
        (by decide +kernel) fuel).1 0
      rw [endless] at walk
      cases walk

end Pintos.Devices
