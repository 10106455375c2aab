import Pintos.Filesys.Handles

/-! The file system on its device.

An inode is live while the root directory names it or it is open, and the free
map and the root directory always are. Live inodes keep to sectors of their own,
all of them marked in the free map. This is stated together with what the
structures in memory say about the device, since each depends on the other:
an inode that has been removed is live for as long as it is open.
-/

set_option autoImplicit false

namespace Pintos.Filesys
open Semantics Computation

def InodeDisk.Holds (inode : InodeDisk) (sector : Nat) : Prop :=
  inode.start ≤ sector ∧ sector < inode.start + inode.sectors

instance (inode : InodeDisk) (sector : Nat) : Decidable (inode.Holds sector) := inferInstanceAs (Decidable (_ ∧ _))

section Device
variable (disk : Nat → UInt8)

def diskInode (sector : Nat) : InodeDisk := InodeDisk.decode fun o => disk (blockSectorSize * sector + o)

def Occupies (inode sector : Nat) : Prop := sector = inode ∨ (diskInode disk inode).Holds sector

def rootEntries : Nat := (diskInode disk rootDirSector).size / entrySize

def entryAt (number : Nat) : DirEntry :=
  DirEntry.decode (window disk ((diskInode disk rootDirSector).base + entrySize * number) entrySize)

def Named (sector : Nat) : Prop :=
  ∃ number < rootEntries disk, (entryAt disk number).inUse = true ∧ (entryAt disk number).inodeSector = sector

end Device

def Table.HasOpen (table : Table) (sector : Nat) : Prop :=
  ∃ inode found, table.inodes inode = some found ∧ found.sector = sector

def State.Live (s : State) (sector : Nat) : Prop :=
  sector = freeMapSector ∨ sector = rootDirSector ∨ Named s.disk sector ∨ s.table.HasOpen sector

structure Sited (s : State) : Prop where
  inside : ∀ inode, s.Live inode → inode < s.size
  fits : ∀ inode, s.Live inode → (diskInode s.disk inode).Fits s.size
  used : ∀ inode sector, s.Live inode → Occupies s.disk inode sector → s.freeMap.test sector = true
  apart : ∀ first second sector, s.Live first → s.Live second → Occupies s.disk first sector →
    Occupies s.disk second sector → first = second
  own : ∀ inode, s.Live inode → ¬(diskInode s.disk inode).Holds inode

/-- No two entries name one inode, and none a system one. When memory is never
short, no two have the same name either. -/
structure Directory (s : State) : Prop where
  length : (diskInode s.disk rootDirSector).length = entrySize * rootEntries s.disk
  /-- An entry is stored whole: it is in one sector, or memory is never short. -/
  whole : s.Plenty ∨ entrySize * rootEntries s.disk ≤ blockSectorSize
  distinct : ∀ first < rootEntries s.disk, ∀ second < rootEntries s.disk, (entryAt s.disk first).inUse = true →
    (entryAt s.disk second).inUse = true → (entryAt s.disk first).inodeSector = (entryAt s.disk second).inodeSector →
    first = second
  user : ∀ sector, Named s.disk sector → sector ≠ freeMapSector ∧ sector ≠ rootDirSector
  names : s.Plenty → ∀ first < rootEntries s.disk, ∀ second < rootEntries s.disk, (entryAt s.disk first).inUse = true →
    (entryAt s.disk second).inUse = true → (entryAt s.disk first).name = (entryAt s.disk second).name → first = second

structure Cached (disk : Nat → UInt8) (found : Inode) : Prop where
  data : found.data = diskInode disk found.sector
  removed : found.removed = true →
    ¬Named disk found.sector ∧ found.sector ≠ freeMapSector ∧ found.sector ≠ rootDirSector

structure Granted (table : Table) (freeMapFile file : Nat) (value : File) : Prop where
  allowed : value.denyWrite = false
  user : file ≠ freeMapFile → ∀ found, table.inodes value.inode = some found →
    found.sector ≠ freeMapSector ∧ found.sector ≠ rootDirSector

def Table.MapOpen (table : Table) (freeMapFile : Nat) : Prop :=
  ∃ value found, table.files freeMapFile = some value ∧ table.inodes value.inode = some found ∧ found.sector = freeMapSector

/-- The file holds the map: `bitmap_read` gets it back, whatever the bitmap it reads into held. -/
def State.MapStored (s : State) (data : InodeDisk) : Prop :=
  ∀ fresh : Bitmap, fresh.bitCnt = s.size → ∀ sector < s.size,
    (fresh.load (window s.disk data.base (byteCnt s.size))).test sector = s.freeMap.test sector

structure Layout (s : State) (held : List Nat) : Prop where
  balanced : Balanced s.table held
  bits : s.freeMap.bitCnt = s.size
  small : s.size + 31 < 2 ^ 32
  sited : Sited s
  directory : Directory s
  cached : ∀ inode found, s.table.inodes inode = some found → Cached s.disk found
  granted : ∀ file value, s.table.files file = some value → Granted s.table s.freeMapFile file value
  mapOpen : s.table.MapOpen s.freeMapFile
  mapLength : (diskInode s.disk freeMapSector).size = byteCnt s.size
  stored : s.Plenty → s.MapStored (diskInode s.disk freeMapSector)

/-- The device as `do_format` leaves it: the map lies in sector 2 and the root directory in sector 3. -/
def formattedDevice : State where
  size := 16
  disk address :=
    if address < 512 then (InodeDisk.encode ⟨2, 4⟩).getD address 0
    else if address < 1024 then (InodeDisk.encode ⟨3, 320⟩).getD (address - 512) 0
    else if address = 1024 then 15 else 0
  freeMap := ⟨16, fun element => if element = 0 then 15#32 else 0#32⟩
  freeMapFile := Table.empty.next + 1
  table := (Table.empty.insert freeMapSector ⟨2, 4⟩).addFile Table.empty.next
  memory _ := true
  allocations := 0

theorem formattedDevice_layout : Layout formattedDevice [] := by
  have map : diskInode formattedDevice.disk freeMapSector = ⟨2, 4⟩ := by decide +kernel
  have root : diskInode formattedDevice.disk rootDirSector = ⟨3, 320⟩ := by decide +kernel
  have room : rootEntries formattedDevice.disk = 16 := by decide +kernel
  have unused : ∀ number < 16, (entryAt formattedDevice.disk number).inUse = false := by decide +kernel
  have inodes : ∀ inode found, formattedDevice.table.inodes inode = some found → found = ⟨freeMapSector, 1, false, 0, ⟨2, 4⟩⟩ := by
    intro inode found there
    rcases update_some.mp there with ⟨-, rfl⟩ | ⟨_, old⟩
    · rfl
    · cases old
  have unnamed : ∀ sector, ¬Named formattedDevice.disk sector := by
    rintro sector ⟨number, inside, used, -⟩
    rw [unused number (room ▸ inside)] at used
    cases used
  have live : ∀ sector, formattedDevice.Live sector → sector = freeMapSector ∨ sector = rootDirSector := by
    rintro sector (map | root | named | ⟨inode, found, there, rfl⟩)
    · exact .inl map
    · exact .inr root
    · exact absurd named (unnamed sector)
    · exact .inl (by rw [inodes inode found there])
  have occupies : ∀ inode sector, formattedDevice.Live inode → Occupies formattedDevice.disk inode sector →
      sector = inode ∨ sector = inode + 2 := by
    intro inode sector alive occupied
    have one : bytesToSectors 4 = 1 ∧ bytesToSectors 320 = 1 := by decide +kernel
    have numbers : freeMapSector = 0 ∧ rootDirSector = 1 := ⟨rfl, rfl⟩
    rcases occupied with same | holds
    · exact .inl same
    · rcases live inode alive with rfl | rfl
      · simp only [map, InodeDisk.Holds, InodeDisk.sectors, one.1] at holds
        omega
      · simp only [root, InodeDisk.Holds, InodeDisk.sectors, one.2] at holds
        omega
  have unfilled : ∀ first < rootEntries formattedDevice.disk, (entryAt formattedDevice.disk first).inUse = true → False := by
    intro first inside used
    rw [unused first (room ▸ inside)] at used
    cases used
  refine ⟨?_, rfl, by decide, ⟨?_, ?_, ?_, ?_, ?_⟩, ⟨by rw [root, room]; rfl, .inr (by rw [room]; decide), ?_, ?_, ?_⟩, ?_, ?_, ?_,
    by rw [map]; rfl, ?_⟩
  · have closed : Table.empty.search freeMapSector = none := rfl
    have added := (balanced_empty.insertInode closed ⟨2, 4⟩).addFile (List.mem_cons_self ..)
    rwa [List.erase_cons_head] at added
  · intro inode alive
    rcases live inode alive with rfl | rfl <;> decide
  · intro inode alive
    rcases live inode alive with rfl | rfl
    · rw [map]
      exact ⟨by decide, by decide, by decide +kernel, by decide⟩
    · rw [root]
      exact ⟨by decide, by decide, by decide +kernel, by decide⟩
  · intro inode sector alive occupied
    rcases live inode alive with rfl | rfl <;> rcases occupies _ sector alive occupied with rfl | rfl <;> decide +kernel
  · intro first second sector one two ofFirst ofSecond
    have mine := occupies first sector one ofFirst
    have also := occupies second sector two ofSecond
    have numbers : freeMapSector = 0 ∧ rootDirSector = 1 := ⟨rfl, rfl⟩
    have of := live first one
    have other := live second two
    omega
  · intro inode alive
    rcases live inode alive with rfl | rfl <;> decide +kernel
  · exact fun first one second _ used => (unfilled first one used).elim
  · exact fun sector named => absurd named (unnamed sector)
  · exact fun _ first one second _ used => (unfilled first one used).elim
  · intro inode found there
    rw [inodes inode found there]
    exact ⟨map.symm, fun gone => by cases gone⟩
  · intro file value there
    rcases update_some.mp there with ⟨rfl, rfl⟩ | ⟨_, old⟩
    · exact ⟨rfl, fun other => absurd rfl other⟩
    · cases old
  · exact ⟨⟨Table.empty.next, 0, false⟩, ⟨freeMapSector, 1, false, 0, ⟨2, 4⟩⟩, rfl, rfl, rfl⟩
  · intro _ fresh same sector inside
    rw [map]
    have bytes : window formattedDevice.disk (InodeDisk.mk 2 4).base (byteCnt 16) = formattedDevice.freeMap.bytes := by decide +kernel
    exact bytes ▸ Bitmap.test_load same (by decide) inside

end Pintos.Filesys
