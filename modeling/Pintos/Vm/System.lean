import Pintos.Semantics.Transition
import Pintos.Vm.Page

/-! Loading an executable, and the paging system as a transition system
(`userprog/process.c` and the processor's own accesses).

A load, a fault, a user access, a system call entry and an exit are one step
each. An access is enabled when the page tables allow it and the corresponding
fault when they do not, so a program's retried instruction is a later event.
An assertion failure has no next state: the kernel has stopped.
-/

set_option autoImplicit false

namespace Pintos.Vm
open Semantics Computation

/-- The members of `struct Elf32_Phdr` that loading reads: 32-bit words of the file. -/
structure Phdr where
  pType : UInt32
  pOffset : UInt32
  pVaddr : UInt32
  pFilesz : UInt32
  pMemsz : UInt32
  pFlags : UInt32
  deriving DecidableEq, Repr

def ptLoad : UInt32 := 1
def ptDynamic : UInt32 := 2
def ptInterp : UInt32 := 3
def ptShlib : UInt32 := 5

namespace Phdr
variable (phdr : Phdr)

def offset : Nat := phdr.pOffset.toNat
def vaddr : Nat := phdr.pVaddr.toNat
def filesz : Nat := phdr.pFilesz.toNat
def memsz : Nat := phdr.pMemsz.toNat

end Phdr

def validateSegment (phdr : Phdr) (fileLength : Nat) : Bool :=
  pgOfs phdr.offset == pgOfs phdr.vaddr
    && decide (phdr.offset ≤ fileLength)
    && decide (phdr.filesz ≤ phdr.memsz)
    && phdr.memsz != 0
    && isUserVaddr phdr.vaddr
    && isUserVaddr (ptrAdd phdr.vaddr phdr.memsz)
    && decide (phdr.vaddr ≤ ptrAdd phdr.vaddr phdr.memsz)
    && decide (pgSize ≤ phdr.vaddr)

/-- `ROUND_UP` to whole pages, in 32-bit words. -/
def roundUp (count : Nat) : Nat := ptrAdd count (pgSize - 1) / pgSize * pgSize

def Phdr.readBytes (phdr : Phdr) : Nat :=
  if 0 < phdr.filesz then ptrAdd (pgOfs phdr.vaddr) phdr.filesz else 0

def Phdr.zeroBytes (phdr : Phdr) : Nat :=
  ptrSub (roundUp (ptrAdd (pgOfs phdr.vaddr) phdr.memsz)) phdr.readBytes

def Phdr.isWritable (phdr : Phdr) : Bool := phdr.pFlags &&& 2 != 0

def loadLoop (cur file : Nat) (writable : Bool) : Nat → Nat → Nat → Nat → Nat → Kernel Unit
  | 0, _, _, _, _ => stop .diverge
  | fuel + 1, ofs, upage, readBytes, zeroBytes => do
    if 0 < readBytes ∨ 0 < zeroBytes then
      let pageReadBytes := if readBytes < pgSize then readBytes else pgSize
      let pageZeroBytes := pgSize - pageReadBytes
      let s ← get
      let entry ← pageBuild {
        upage := upage, file := file, writable := writable, pageReadBytes := pageReadBytes,
        pageZeroBytes := pageZeroBytes, location := .inFilesys, ofs := ofs, pagedir := (s.threads cur).pagedir }
      modify fun s => s.pageAdd cur entry
      loadLoop cur file writable fuel (ptrAdd ofs pgSize) (ptrAdd upage pgSize) (readBytes - pageReadBytes)
        (ptrSub zeroBytes pageZeroBytes)

def loadSegment (cur file ofs upage readBytes zeroBytes : Nat) (writable : Bool) : Kernel Unit := do
  assert (ptrAdd readBytes zeroBytes % pgSize == 0)
  assert (pgOfs upage == 0)
  assert (ofs % pgSize == 0)
  -- `file_seek` asserts that the offset is not negative.
  assert (ofs < 2 ^ 31)
  loadLoop cur file writable ((readBytes + zeroBytes) / pgSize + 1) ofs upage readBytes zeroBytes

def loadHeaders (cur file : Nat) : List Phdr → Kernel Bool
  | [] => return true
  | phdr :: rest => do
    let s ← get
    if phdr.pType = ptDynamic ∨ phdr.pType = ptInterp ∨ phdr.pType = ptShlib then
      return false
    else if phdr.pType = ptLoad then
      if validateSegment phdr (s.files file).length then
        loadSegment cur file (pgRoundDown phdr.offset) (pgRoundDown phdr.vaddr) phdr.readBytes phdr.zeroBytes
          phdr.isWritable
        loadHeaders cur file rest
      else return false
    else loadHeaders cur file rest

/-- What a load is given: the page `pagedir_create` obtained (0 when none), the
opened file, whether file and ELF header were accepted, the program headers,
whether the copy page of `setup_stack` was allocated, whether the arguments fit,
and the bytes `setup_stack` stores in the stack page, by page offset. -/
structure Image where
  pagedir : Nat
  file : Nat
  accepted : Bool
  phdrs : List Phdr
  copyPage : Bool
  argsFit : Bool
  args : Nat → Option UInt8

def stackPage : Nat := physBase - pgSize

/-- `setup_stack`. Without a copy page it returns `TID_ERROR`, which is true. -/
def setupStack (cur : Nat) (image : Image) (env : Env) : Kernel Bool := do
  if !image.copyPage then return true
  else
    let kpage ← frameFindEmpty
    if kpage ≠ 0 then
      let s ← get
      let pd := (s.threads cur).pagedir
      let entry ← pageBuild { upage := stackPage, writable := true, location := .inFrame, pagedir := pd }
      modify fun s => s.pageAdd cur entry
      let _ ← pageInstallToFrame cur entry stackPage kpage pd env
      modify fun s => s.setRam kpage fun o => (image.args o).getD (s.ram kpage o)
      return image.argsFit
    else systemExitHelper cur (-6)

def load (cur : Nat) (image : Image) (env : Env) : Kernel Bool := do
  if image.pagedir = 0 ∨ !image.accepted then return false
  else
    if ← loadHeaders cur image.file image.phdrs then setupStack cur image env else return false

/-- `start_process`: a failed load goes to `thread_exit` with the status still 0. -/
def startProcess (cur : Nat) (image : Image) (env : Env) : Kernel Unit := do
  if !(← load cur image env) then systemExitHelper cur 0

/-- A thread whose `load` has made the empty table and, with a page for it, the new directory. -/
def State.spawn (s : State) (cur pagedir : Nat) : State :=
  let born := s.setThread cur { phase := .running, spt := [], pagedir := pagedir }
  if pagedir = 0 then born
  else
    { born with
      pagedirs := Function.update s.pagedirs pagedir Pagedir.empty
      directories := pagedir :: s.directories }

inductive Event where
  | load (thread : Nat) (image : Image) (env : Env)
  | enter (thread esp : Nat)
  | fault (thread addr esp : Nat) (user write : Bool) (env : Env)
  | read (thread addr : Nat)
  | write (thread addr : Nat) (value : UInt8)
  | exit (thread : Nat)

def State.translate (s : State) (thread addr : Nat) : Pte := s.pte (s.threads thread).pagedir addr

def State.accessible (s : State) (thread addr : Nat) (write : Bool) : Bool :=
  isUserVaddr addr && (s.translate thread addr).present && (!write || (s.translate thread addr).writable)

/-- The byte a running process reads at an address, when the read does not fault. -/
def State.readByte (s : State) (thread addr : Nat) : Option UInt8 :=
  if (s.threads thread).phase = .running ∧ s.accessible thread addr false = true then
    some (s.ram (s.translate thread addr).page (pgOfs addr))
  else none

/-- The processor sets the accessed bit of the entry it used. -/
def State.touch (s : State) (thread addr : Nat) : State :=
  s.setPte (s.threads thread).pagedir addr { s.translate thread addr with accessed := true }

/-- The state kernel code leaves behind when the machine goes on afterwards. -/
def settle {A : Type} : Execution State Halt A → Option State
  | .returned _ s => some s
  | .stopped (.exit _) s => some s
  | .stopped _ _ => none

def step (s : State) : Event → Option State
  | .load t image env =>
      -- `palloc_get_page` never returns a page that is handed out.
      if (s.threads t).phase = .unborn ∧ image.pagedir ∉ s.directories then
        settle (startProcess t image env (s.spawn t image.pagedir))
      else none
  | .enter t esp =>
      if (s.threads t).phase = .running then some (s.setThread t { s.threads t with esp := esp }) else none
  | .fault t addr esp user write env =>
      if (s.threads t).phase = .running ∧ s.accessible t addr write = false then
        settle (pageFault t addr esp (!(s.translate t addr).present) user env s)
      else none
  | .read t addr =>
      if (s.threads t).phase = .running ∧ s.accessible t addr false = true then some (s.touch t addr) else none
  | .write t addr value =>
      if (s.threads t).phase = .running ∧ s.accessible t addr true = true then
        let kpage := (s.translate t addr).page
        some ((s.touch t addr).setRam kpage (Function.update (s.ram kpage) (pgOfs addr) value))
      else none
  | .exit t => if (s.threads t).live then some (s.threadExit t) else none

/-- The states `frame_table_init` and `swap_init` leave before the first process. -/
structure Boot (s : State) : Prop where
  frame : ∀ i < totalPages, s.frameTable i = { kpage := (s.frameTable i).kpage }
  kpage_pos : ∀ i < totalPages, (s.frameTable i).kpage ≠ 0
  kpage_inj : ∀ i < totalPages, ∀ j < totalPages, (s.frameTable i).kpage = (s.frameTable j).kpage → i = j
  occupancy : s.occupancy = 0
  clock : s.clockPointer = firstEvictable
  nextPage : s.nextPage ≠ 0
  unborn : ∀ t, s.threads t = {}
  slots : ∀ slot, s.freeBitmap slot = false

/-- A machine with frames directly above `PHYS_BASE`, 64 swap slots and one
executable of `bytes` bytes equal to 7. -/
def bootState (bytes : Nat) : State where
  frameTable i := { kpage := physBase + pgSize * i }
  occupancy := 0
  clockPointer := firstEvictable
  pages _ := {}
  nextPage := 1
  pagedirs _ := Pagedir.empty
  directories := []
  threads _ := {}
  ram _ _ := 0
  swap _ _ := 0
  freeBitmap _ := false
  slots := 64
  files _ := List.replicate bytes 7

theorem bootState_boot (bytes : Nat) : Boot (bootState bytes) where
  frame _ _ := rfl
  kpage_pos i _ := by simp [bootState, physBase]
  kpage_inj i _ j _ same := by
    simp only [bootState, pgSize] at same
    omega
  occupancy := rfl
  clock := rfl
  nextPage := by simp [bootState]
  unborn _ := rfl
  slots _ := rfl

/-- An executable with one writable segment of two pages, the second of them all zero. -/
def demoImage : Image where
  pagedir := 5
  file := 1
  accepted := true
  phdrs := [{ pType := ptLoad, pOffset := 0, pVaddr := 0x08048000, pFilesz := 4096, pMemsz := 8192, pFlags := 2 }]
  copyPage := true
  argsFit := true
  args _ := none

end Pintos.Vm
