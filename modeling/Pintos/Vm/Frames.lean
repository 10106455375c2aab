import Pintos.Vm.State

/-! Page directory operations, swap slots and the frame table
(`userprog/pagedir.c`, `vm/swap.c`, `vm/frames.c`).

Each function is the source's, in one kernel computation; the lock operations
are no part of it, since a caller that is one atomic step never waits on them.
A page table allocation that can fail takes its outcome as an argument.
-/

set_option autoImplicit false

namespace Pintos.Vm
open Semantics Computation

section Pagedirs

/-- `lookup_page` asserts that there is a directory before it walks it. -/
def lookupPage (pd : Nat) : Kernel Unit := assert (pd != 0)

def pagedirGetPage (pd uaddr : Nat) : Kernel Nat := do
  assert (isUserVaddr uaddr)
  lookupPage pd
  let s ← get
  let entry := s.pte pd uaddr
  return if entry.present then entry.page + pgOfs uaddr else 0

def pagedirSetPage (pd upage kpage : Nat) (writable allocated : Bool) : Kernel Bool := do
  assert (pgOfs upage == 0)
  assert (pgOfs kpage == 0)
  assert (isUserVaddr upage)
  assert (isKernelVaddr kpage)
  lookupPage pd
  let s ← get
  -- A page table is only allocated when the directory has none for this page.
  if ((s.pagedirs pd).table (pdNo upage)).isSome || allocated then
    assert !(s.pte pd upage).present
    modify fun s => s.setPte pd upage { present := true, page := kpage, writable := writable }
    return true
  else
    return false

def pagedirClearPage (pd upage : Nat) : Kernel Unit := do
  assert (pgOfs upage == 0)
  assert (isUserVaddr upage)
  lookupPage pd
  modify fun s =>
    if (s.pte pd upage).present then s.setPte pd upage { s.pte pd upage with present := false } else s

def pagedirIsAccessed (pd vpage : Nat) : Kernel Bool := do
  lookupPage pd
  let s ← get
  return (s.pte pd vpage).accessed

def pagedirSetAccessed (pd vpage : Nat) (accessed : Bool) : Kernel Unit := do
  lookupPage pd
  modify fun s =>
    if ((s.pagedirs pd).table (pdNo vpage)).isSome then
      s.setPte pd vpage { s.pte pd vpage with accessed := accessed }
    else s

end Pagedirs

section Swap

def State.freeSlot (s : State) : Option Nat := (List.range s.slots).find? fun slot => !s.freeBitmap slot

/-- Setting the bit of `BITMAP_ERROR` fails `bitmap_set`'s assertion on the index. -/
def swapGetFree : Kernel Nat := do
  let s ← get
  match s.freeSlot with
  | some slot =>
    modify fun s => s.setSlot slot true
    return slot * 8
  | none => stop .panic

/-- One `block_read` of the loop in `swap_read`: sector `sector + i` into the
`i`-th 512 bytes of the frame. -/
def State.sectorIn (kpage sector : Nat) (s : State) (i : Nat) : State :=
  s.setRam kpage fun o =>
    if o / blockSectorSize = i then s.swap (sector + i) (o % blockSectorSize) else s.ram kpage o

def State.sectorOut (kpage sector : Nat) (s : State) (i : Nat) : State :=
  { s with swap := Function.update s.swap (sector + i) fun o => s.ram kpage (blockSectorSize * i + o) }

def swapRead (kpage page : Nat) : Kernel Unit := do
  let s ← get
  let slot := (s.pages page).swapLocation
  modify fun s => (List.range 8).foldl (State.sectorIn kpage slot) s
  assert (slot / 8 < s.slots)
  modify fun s => s.setSlot (slot / 8) false
  modify fun s => s.setPage page { s.pages page with swapLocation := noSlot }

def swapWrite (kpage page : Nat) : Kernel Unit := do
  let sector ← swapGetFree
  modify fun s => s.setPage page { s.pages page with swapLocation := sector }
  modify fun s => (List.range 8).foldl (State.sectorOut kpage sector) s

end Swap

section Frames

def State.freeAt (kpage : Nat) (s : State) (i : Nat) : State :=
  if (s.frameTable i).kpage = kpage then
    { s.setFrame i { kpage := (s.frameTable i).kpage } with occupancy := s.occupancy - 1 }
  else s

@[irreducible] def State.frameFree (s : State) (kpage : Nat) : State := (List.range totalPages).foldl (State.freeAt kpage) s

/-- `install_page` in the page directory of the running process. -/
def installPage (cur upage kpage : Nat) (writable allocated : Bool) : Kernel Bool := do
  let s ← get
  let pd := (s.threads cur).pagedir
  if (← pagedirGetPage pd upage) = 0 then pagedirSetPage pd upage kpage writable allocated else return false

/-- The loop in `frame_install` from the given indices on. An occupied entry ends
the process: the page at this point should be free. -/
def installLoop (cur upage kpage pagedir page : Nat) : List Nat → Kernel Unit
  | [] => return ()
  | i :: rest => do
    let s ← get
    if (s.frameTable i).kpage = kpage then
      if (s.frameTable i).upage ≠ 0 then
        systemExitHelper cur (-1)
      else
        modify fun s =>
          { s.setFrame i { kpage := (s.frameTable i).kpage, upage := upage, pagedir := pagedir, pagePointer := page } with
            occupancy := s.occupancy + 1 }
    installLoop cur upage kpage pagedir page rest

def frameInstall (cur upage kpage pagedir : Nat) (writable : Bool) (page : Nat) (allocated : Bool) :
    Kernel Bool := do
  let success ← installPage cur upage kpage writable allocated
  if success then installLoop cur upage kpage pagedir page (List.range totalPages)
  return success

def State.advanceClock (s : State) : State :=
  { s with clockPointer := if s.clockPointer + 1 = totalPages then firstEvictable else s.clockPointer + 1 }

def evictSelect : Nat → Kernel Unit
  | 0 => stop .diverge
  | fuel + 1 => do
    let s ← get
    let frame := s.frameTable s.clockPointer
    if ← pagedirIsAccessed frame.pagedir frame.upage then
      pagedirSetAccessed frame.pagedir frame.upage false
      modify State.advanceClock
      evictSelect fuel

def State.evicted (s : State) : State :=
  let frame := s.frameTable s.clockPointer
  let cleared := s.setFrame s.clockPointer { kpage := frame.kpage }
  let moved := cleared.setPage frame.pagePointer
    { s.pages frame.pagePointer with location := .inSwap, kpage := 0 }
  { moved with occupancy := s.occupancy - 1 }.advanceClock

/-- One round clears every accessed bit in the clock's range, so a second visit finds a victim. -/
def evictFuel : Nat := totalPages

def frameEvict : Kernel Nat := do
  evictSelect evictFuel
  let s ← get
  let frame := s.frameTable s.clockPointer
  pagedirClearPage frame.pagedir frame.upage
  swapWrite frame.kpage frame.pagePointer
  modify State.evicted
  return frame.kpage

def State.firstFree (s : State) : Option Nat := (List.range totalPages).find? fun i => (s.frameTable i).upage = 0

def frameFindEmpty : Kernel Nat := do
  let s ← get
  if s.occupancy < totalPages then
    match s.firstFree with
    | some i => return (s.frameTable i).kpage
    | none => return 0
  else frameEvict

end Frames

end Pintos.Vm
