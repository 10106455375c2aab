import Mathlib.Algebra.Group.Int.Defs
import Mathlib.Algebra.Group.Nat.Defs
import Mathlib.Logic.Function.Basic

/-! Virtual addresses and page directories (`threads/vaddr.h`, `threads/pte.h`).

An address is the number it holds, and 0 is the null pointer. Only the pointer
arithmetic that can leave the 32-bit range wraps explicitly. A page directory
is kept as the two levels the hardware walks; what the rest of the model reads
is the single entry `pte` finds for a virtual page.
-/

set_option autoImplicit false

namespace Pintos

def pgSize : Nat := 4096

def blockSectorSize : Nat := 512

def physBase : Nat := 0xc0000000

def pgOfs (va : Nat) : Nat := va % pgSize

def pgNo (va : Nat) : Nat := va / pgSize

def pgRoundDown (va : Nat) : Nat := va - va % pgSize

def isUserVaddr (vaddr : Nat) : Bool := vaddr < physBase

def isKernelVaddr (vaddr : Nat) : Bool := physBase ≤ vaddr

@[irreducible] def ptrSub (pointer count : Nat) : Nat := (pointer + 2 ^ 32 - count) % 2 ^ 32

def ptrAdd (pointer count : Nat) : Nat := (pointer + count) % 2 ^ 32

def pdNo (va : Nat) : Nat := va / 2 ^ 22

def ptNo (va : Nat) : Nat := va / 2 ^ 12 % 2 ^ 10

theorem pgRoundDown_ofs (va : Nat) : pgOfs (pgRoundDown va) = 0 := by
  simp only [pgOfs, pgRoundDown, pgSize]
  omega

theorem pgRoundDown_add_ofs (va : Nat) : pgRoundDown va + pgOfs va = va := by
  simp only [pgRoundDown, pgOfs]
  have := Nat.mod_le va pgSize
  omega

theorem pgNo_roundDown (va : Nat) : pgNo (pgRoundDown va) = pgNo va := by
  simp only [pgNo, pgRoundDown, pgSize]
  omega

theorem pgRoundDown_le (va : Nat) : pgRoundDown va ≤ va := Nat.sub_le _ _

theorem pgOfs_lt (va : Nat) : pgOfs va < pgSize := Nat.mod_lt _ (by decide)

theorem pgRoundDown_aligned {va : Nat} (aligned : pgOfs va = 0) : pgRoundDown va = va := by
  simp only [pgOfs] at aligned
  simp [pgRoundDown, aligned]

theorem eq_of_pgNo {first second : Nat} (alignedFirst : pgOfs first = 0) (alignedSecond : pgOfs second = 0)
    (same : pgNo first = pgNo second) : first = second := by
  simp only [pgOfs, pgNo, pgSize] at *
  omega

/-- Directory and table index together determine the virtual page. -/
theorem pgNo_eq_iff (first second : Nat) :
    pgNo first = pgNo second ↔ pdNo first = pdNo second ∧ ptNo first = ptNo second := by
  simp only [pgNo, pdNo, ptNo, pgSize]
  omega

/-- A page table entry: the flags the kernel and the processor use, and the
frame as its kernel virtual address. The default is the all-zero entry. -/
structure Pte where
  present : Bool := false
  page : Nat := 0
  writable : Bool := false
  accessed : Bool := false
  deriving DecidableEq, Repr

structure Pagedir where
  table : Nat → Option (Nat → Pte)

namespace Pagedir

def empty : Pagedir := ⟨fun _ => none⟩

/-- The entry the walk finds; a missing page table reads as the all-zero entry. -/
def pte (pd : Pagedir) (va : Nat) : Pte :=
  ((pd.table (pdNo va)).map fun table => table (ptNo va)).getD {}

/-- Store an entry, in a fresh zeroed page table when the directory has none there. -/
def setPte (pd : Pagedir) (va : Nat) (entry : Pte) : Pagedir :=
  let table := (pd.table (pdNo va)).getD fun _ => {}
  ⟨Function.update pd.table (pdNo va) (some (Function.update table (ptNo va) entry))⟩

@[simp] theorem pte_empty (va : Nat) : empty.pte va = {} := rfl

theorem pte_eq_of_pgNo (pd : Pagedir) {first second : Nat} (same : pgNo first = pgNo second) :
    pd.pte first = pd.pte second := by
  obtain ⟨directory, table⟩ := (pgNo_eq_iff first second).mp same
  simp only [pte, directory, table]

/-- Storing an entry changes the entry of its own page and of no other page. -/
theorem pte_setPte (pd : Pagedir) (va other : Nat) (entry : Pte) :
    (pd.setPte va entry).pte other = if pgNo other = pgNo va then entry else pd.pte other := by
  by_cases directory : pdNo other = pdNo va
  · by_cases table : ptNo other = ptNo va
    · simp [pte, setPte, pgNo_eq_iff, directory, table]
    · simp only [pte, setPte, pgNo_eq_iff, directory, table, Function.update_self, and_false, if_false,
        Option.map_some, Option.getD_some, Function.update_of_ne table]
      cases pd.table (pdNo va) <;> rfl
  · simp [pte, setPte, pgNo_eq_iff, directory]

end Pagedir

end Pintos
