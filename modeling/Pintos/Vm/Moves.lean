import Pintos.Vm.Eviction

/-! The changes of state that the paging code is made of.

Whatever functions a step of the system runs through, the state it leaves is a
chain of these moves. `Fits` is what the code has made sure of when it makes
one. A page that is brought in has no location while its frame is being filled,
so that every move keeps the invariants of the modules that follow.
-/

set_option autoImplicit false

namespace Pintos.Vm
open Semantics

def State.Owns (s : State) (t p : Nat) : Prop := p ∈ (s.threads t).spt

def State.Vacant (s : State) (i : Nat) : Prop := i < totalPages ∧ (s.frameTable i).upage = 0

/-- Byte `o` of a page as the executable defines it. -/
def State.segmentByte (s : State) (page : Page) (o : Nat) : UInt8 :=
  if o < page.pageReadBytes then (s.files page.file).getD (page.ofs + o) 0 else 0

/-- Byte `o` of the page that starts at the given sector of the swap device. -/
def State.slotByte (s : State) (sector o : Nat) : UInt8 :=
  s.swap (sector + o / blockSectorSize) (o % blockSectorSize)

def State.slotFreed (s : State) (p : Nat) (location : Location) : State :=
  (s.setSlot ((s.pages p).swapLocation / 8) false).setPage p
    { s.pages p with swapLocation := noSlot, location := location }

def State.fetched (s : State) (p i : Nat) (location : Location) : State :=
  let kpage := (s.frameTable i).kpage
  let filled := s.setRam kpage fun o =>
    if o / blockSectorSize < 8 then s.slotByte (s.pages p).swapLocation o else s.ram kpage o
  filled.slotFreed p location

def State.built (s : State) (t : Nat) (page : Page) : State :=
  State.pageAdd { s.setPage s.nextPage page with nextPage := s.nextPage + 1 } t s.nextPage

def stackEntry (upage pagedir : Nat) (location : Location) : Page :=
  { upage := upage, writable := true, location := location, swapLocation := noSlot, pagedir := pagedir }

def State.left (s : State) (t : Nat) : State :=
  let bare := (s.setThread t { s.threads t with spt := [] }).processExit t
  bare.setThread t { bare.threads t with phase := .gone }

inductive Move where
  | glance (pagedirs : Nat → Pagedir) (clock : Nat)
  | pageOut (slot : Nat)
  | fill (i : Nat) (bytes : Nat → UInt8)
  | store (t p : Nat) (bytes : Nat → UInt8)
  | fileIn (t p i : Nat) (bytes : Nat → UInt8)
  | swapIn (t p i : Nat)
  | growIn (t upage i : Nat)
  /-- `frame_free` of a frame that was never installed. -/
  | unmatched (i : Nat)
  | ending (t : Nat) (status : Int)
  | drop (p : Nat)
  | build (t : Nat) (page : Page)
  | clear (p : Nat)
  | leave (t : Nat)
  | spawn (t pagedir : Nat)
  /-- A load that got no page directory. -/
  | stillborn (t : Nat)
  | enter (t esp : Nat)

def State.act (s : State) : Move → State
  | .glance pagedirs clock => { s with pagedirs := pagedirs, clockPointer := clock }
  | .pageOut slot => s.pageOut slot
  | .fill i bytes => s.setRam (s.frameTable i).kpage bytes
  | .store _ p bytes => s.setRam (s.pages p).kpage bytes
  | .fileIn t p i bytes => (s.setRam (s.frameTable i).kpage bytes).installed t p i
  | .swapIn t p i => (s.fetched p i .cleared).installed t p i
  | .growIn t upage i => (s.built t (stackEntry upage (s.threads t).pagedir .cleared)).installed t s.nextPage i
  | .unmatched i => s.released i
  | .ending t status => s.ending t status
  | .drop p => s.slotFreed p .inSwap
  | .build t page => s.built t page
  | .clear p => s.clearPage p
  | .leave t => s.left t
  | .spawn t pagedir => s.spawn t pagedir
  | .stillborn t => (s.spawn t 0).ending t 0
  | .enter t esp => s.setThread t { s.threads t with esp := esp }

/-- What `page_install_to_frame` relies on. -/
structure Installable (s : State) (t p i : Nat) : Prop where
  running : (s.threads t).phase = .running
  owned : s.Owns t p
  outside : (s.pages p).location ≠ .inFrame
  vacant : s.Vacant i
  absent : (s.pte (s.threads t).pagedir (s.pages p).upage).present = false

structure Buildable (s : State) (t : Nat) (page : Page) : Prop where
  live : (s.threads t).live
  directory : (s.threads t).pagedir ≠ 0
  pagedir : page.pagedir = (s.threads t).pagedir
  aligned : pgOfs page.upage = 0
  user : page.upage < physBase
  kpage : page.kpage = 0
  slot : page.location ≠ .inSwap
  frame : page.location = .inFrame → (s.threads t).phase ≠ .running
  whole : page.location = .inFilesys → page.pageReadBytes + page.pageZeroBytes = pgSize

def Move.Fits (s : State) : Move → Prop
  | .glance pagedirs clock =>
      Glanced s { s with pagedirs := pagedirs, clockPointer := clock } ∧ firstEvictable ≤ clock ∧ clock < totalPages
  | .pageOut slot =>
      (firstEvictable ≤ s.clockPointer ∧ s.clockPointer < totalPages) ∧
        (s.frameTable s.clockPointer).pagedir ≠ 0 ∧ s.freeSlot = some slot
  | .fill i _ => s.Vacant i
  | .store t p _ => (s.threads t).phase = .running ∧ s.Owns t p ∧ (s.pages p).location = .inFrame
  | .fileIn t p i bytes =>
      Installable s t p i ∧ (s.pages p).location = .inFilesys ∧
        ∀ o < (s.pages p).pageReadBytes + (s.pages p).pageZeroBytes, bytes o = s.segmentByte (s.pages p) o
  | .swapIn t p i => Installable s t p i ∧ (s.pages p).location = .inSwap
  | .growIn t upage i =>
      Buildable s t (stackEntry upage (s.threads t).pagedir .cleared) ∧ (s.threads t).phase = .running ∧
        s.Vacant i ∧ s.hashFind t upage = none ∧ (s.pte (s.threads t).pagedir upage).present = false
  | .unmatched i => s.Vacant i
  | .ending t _ => (s.threads t).live
  | .drop p => ∃ t, (s.threads t).phase = .exiting ∧ s.Owns t p ∧ (s.pages p).location = .inSwap ∧
      (s.pages p).swapLocation ≠ noSlot
  | .build t page => Buildable s t page
  | .clear p => ∃ t, (s.threads t).phase = .exiting ∧ s.Owns t p
  | .leave t => (s.threads t).phase = .exiting ∧ ∀ p, s.Owns t p → (s.pages p).location ≠ .inFrame
  | .spawn t pagedir => (s.threads t).phase = .unborn ∧ pagedir ≠ 0 ∧ pagedir ∉ s.directories
  | .stillborn t => (s.threads t).phase = .unborn
  | .enter t _ => (s.threads t).phase = .running

end Pintos.Vm
