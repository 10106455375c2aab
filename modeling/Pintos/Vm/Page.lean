import Pintos.Vm.Frames

/-! Supplemental page table entries and the page fault handler
(`vm/page.c`, `userprog/exception.c`).

`Env` is what a fault finds of memory beyond the frame table: whether a page
table and the bounce buffer of a file read can be allocated. A null frame from
`frame_find_empty` is followed to its end: the kernel then stores through
address 0, which the page directory of the running process translates or faults.
-/

set_option autoImplicit false

namespace Pintos.Vm
open Semantics Computation

structure Env where
  /-- `palloc_get_page` for a missing page table succeeds. -/
  pageTable : Bool := true
  /-- `malloc` of the bounce buffer in `inode_read_at` succeeds. -/
  bounce : Bool := true
  deriving DecidableEq, Repr

/-- `page_build`: the new entry's address. -/
def pageBuild (page : Page) : Kernel Nat := fun s =>
  .returned s.nextPage { s.setPage s.nextPage { page with kpage := 0, swapLocation := noSlot } with
    nextPage := s.nextPage + 1 }

/-- `page_add`: `hash_insert` keeps the entry the table already has for the same page. -/
def State.pageAdd (s : State) (cur page : Nat) : State :=
  match s.hashFind cur (s.pages page).upage with
  | some _ => s
  | none => s.setThread cur { s.threads cur with spt := page :: (s.threads cur).spt }

/-- Bytes `inode_read_at` delivers. Without a bounce buffer it stops at the first
sector it cannot copy as a whole. -/
def readAmount (length ofs size : Nat) (bounce : Bool) : Nat :=
  let available := min size (length - ofs)
  if bounce then available
  else if ofs % blockSectorSize = 0 then available / blockSectorSize * blockSectorSize
  else 0

/-- The frame behind a kernel store to the start of `kpage`. A null `kpage` is the
user page at address 0: mapped, it is written; else the nested fault ends the process. -/
def storeFrame (cur kpage : Nat) : Kernel Nat := do
  let s ← get
  if kpage ≠ 0 then return kpage
  else if (s.pte (s.threads cur).pagedir 0).present then return (s.pte (s.threads cur).pagedir 0).page
  else systemExitHelper cur (-1)

/-- Store `count` bytes at offset `start` of the frame at `kpage`. -/
def storeBytes (cur kpage start count : Nat) (bytes : Nat → UInt8) : Kernel Unit := do
  if count ≠ 0 then
    let frame ← storeFrame cur kpage
    modify fun s => s.setRam frame fun o =>
      if start ≤ o ∧ o < start + count then bytes (o - start) else s.ram frame o

def fileReadAt (cur file ofs kpage size : Nat) (env : Env) : Kernel Nat := do
  assert (ofs < 2 ^ 31)
  let s ← get
  let amount := readAmount (s.files file).length ofs size env.bounce
  storeBytes cur kpage 0 amount fun o => (s.files file).getD (ofs + o) 0
  return amount

def pageInstallToFrame (cur target upage kpage pagedir : Nat) (env : Env) : Kernel Bool := do
  let s ← get
  let success ← frameInstall cur upage kpage pagedir (s.pages target).writable target env.pageTable
  if !success then
    modify fun s => s.frameFree kpage
    systemExitHelper cur (-532)
  else
    modify fun s => s.setPage target { s.pages target with location := .inFrame, kpage := kpage }
    return success

def pageReadInstall (cur target : Nat) (env : Env) : Kernel Unit := do
  let kpage ← frameFindEmpty
  let s ← get
  let page := s.pages target
  let amount ← fileReadAt cur page.file page.ofs kpage page.pageReadBytes env
  if amount ≠ page.pageReadBytes then
    modify fun s => s.frameFree kpage
    systemExitHelper cur (-35)
  else
    storeBytes cur kpage page.pageReadBytes page.pageZeroBytes fun _ => 0
    let _ ← pageInstallToFrame cur target page.upage kpage page.pagedir env

/-- The swap branch. Reading into a null frame happens with `frame_lock` held, so
the nested fault reaches the assertion in `thread_exit`; with page 0 mapped the
assertion in `pagedir_set_page` fails instead. -/
def pageSwapInstall (cur target : Nat) (env : Env) : Kernel Unit := do
  let kpage ← frameFindEmpty
  assert (kpage != 0)
  swapRead kpage target
  let s ← get
  let _ ← pageInstallToFrame cur target (s.pages target).upage kpage (s.pages target).pagedir env

def pageGrowStack (cur upage : Nat) (env : Env) : Kernel Unit := do
  let kpage ← frameFindEmpty
  if kpage ≠ 0 then
    let s ← get
    let pd := (s.threads cur).pagedir
    let entry ← pageBuild { upage := upage, writable := true, location := .inFrame, pagedir := pd }
    modify fun s => s.pageAdd cur entry
    let _ ← pageInstallToFrame cur entry upage kpage pd env

/-- The test that decides between stack growth and a bad access. -/
def State.growsStack (s : State) (cur faultAddr esp : Nat) (user : Bool) : Prop :=
  ptrSub (if user then esp else (s.threads cur).esp) 32 ≤ faultAddr

instance (s : State) (cur faultAddr esp : Nat) (user : Bool) : Decidable (s.growsStack cur faultAddr esp user) :=
  inferInstanceAs (Decidable (_ ≤ _))

def pageFaultIdentifier (cur faultAddr esp : Nat) (user : Bool) (env : Env) : Kernel Unit := do
  let s ← get
  match s.hashFind cur (pgRoundDown faultAddr) with
  | none =>
    if s.growsStack cur faultAddr esp user then pageGrowStack cur (pgRoundDown faultAddr) env
    else systemExitHelper cur (-1)
  | some target =>
    match (s.pages target).location with
    | .inSwap => pageSwapInstall cur target env
    | .inFilesys => pageReadInstall cur target env
    | _ => return ()

def pageFault (cur faultAddr esp : Nat) (notPresent user : Bool) (env : Env) : Kernel Unit := do
  if faultAddr = 0 ∨ isKernelVaddr faultAddr ∨ !notPresent then systemExitHelper cur (-1)
  else pageFaultIdentifier cur faultAddr esp user env

def State.clearPage (s : State) (page : Nat) : State :=
  if (s.pages page).location = .inFrame then
    let freed := s.frameFree (s.pages page).kpage
    freed.setPage page { s.pages page with kpage := 0, location := .cleared }
  else s

def State.pageClearAll (s : State) (cur : Nat) : State :=
  let cleared := (s.threads cur).spt.foldl State.clearPage s
  cleared.setThread cur { cleared.threads cur with spt := [] }

/-- `process_exit`: the directory and its page tables go back to `palloc`. -/
def State.processExit (s : State) (cur : Nat) : State :=
  let pd := (s.threads cur).pagedir
  if pd = 0 then s
  else
    { s.setThread cur { s.threads cur with pagedir := 0 } with
      pagedirs := Function.update s.pagedirs pd Pagedir.empty
      directories := s.directories.erase pd }

/-- `thread_exit`, as far as memory is concerned. -/
def State.threadExit (s : State) (cur : Nat) : State :=
  let left := (s.pageClearAll cur).processExit cur
  left.setThread cur { left.threads cur with phase := .gone }

end Pintos.Vm
