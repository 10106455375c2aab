import Pintos.Vm.Agreement

/-! Page faults of several processes, interleaved (`vm/page.c`, `vm/frames.c`, `vm/swap.c`).

Here a fault is not one step. The handler of each process stops wherever the
source can lose the processor: before and after every operation on `frame_lock`
and at every access to a block device. The code in between works on the same
kernel state as the atomic model and reuses its functions. What a handler keeps
in local variables is part of its program counter.
-/

set_option autoImplicit false

namespace Pintos.Vm.Interleaved
open Semantics Computation

/-- The page-in a fault has decided on: a new stack page, or a page of the
supplemental page table from its executable or from swap. -/
inductive Task where
  | grow (upage : Nat)
  | file (page : Nat)
  | swap (page : Nat)
  deriving DecidableEq, Repr

inductive Pc where
  | user
  /-- In `frame_find_empty`, before `lock_acquire`. -/
  | find (task : Task)
  | scan (task : Task)
  /-- The loop is left with a result, before `lock_release`. -/
  | found (task : Task) (kpage : Nat)
  | full (task : Task)
  /-- At the start of `frame_evict`. -/
  | evict (task : Task)
  /-- In `swap_write` of the entry picked at `index`, with `count` sectors written. -/
  | write (task : Task) (index kpage sector count : Nat)
  /-- `frame_find_empty` has returned. -/
  | ready (task : Task) (kpage : Nat)
  /-- In `file_read`, which delivers `amount` bytes, with `count` sectors read. -/
  | fileRead (page kpage amount count : Nat)
  | swapEnter (page kpage : Nat)
  | swapRead (page kpage count : Nat)
  | swapLeave (page kpage : Nat)
  /-- In `frame_install`, before `lock_acquire`. -/
  | install (page upage kpage pagedir : Nat)
  | installing (page upage kpage pagedir : Nat)
  | installed (page kpage : Nat) (success : Bool)
  /-- In `frame_free` of a failed page-in. -/
  | free (kpage : Nat) (status : Int)
  | freeing (kpage : Nat) (status : Int)
  | freed (status : Int)
  /-- In the loop of `page_clear_all`. -/
  | clear (rest : List Nat)
  | clearing (page : Nat) (rest : List Nat)
  | cleared (page : Nat) (rest : List Nat)
  | gone
  deriving DecidableEq, Repr

/-- `n` processes on one kernel state. -/
structure Machine (n : Nat) where
  vm : State
  frameLock : Option (Fin n)
  pcs : Fin n → Pc

namespace Machine
variable {n : Nat} (m : Machine n) (t : Fin n)

def goto (vm : State) (pc : Pc) : Machine n := { m with vm := vm, pcs := Function.update m.pcs t pc }

def acquire (pc : Pc) : Option (Machine n) :=
  if m.frameLock = none then some { m.goto t m.vm pc with frameLock := some t } else none

def release (vm : State) (pc : Pc) : Machine n := { m.goto t vm pc with frameLock := none }

def die (vm : State) (status : Int) : Machine n :=
  m.goto t (vm.ending t status) (.clear (vm.threads t).spt)

end Machine

def scanBody (s : State) (task : Task) : Pc :=
  if s.occupancy < totalPages then
    match s.firstFree with
    | some i => .found task (s.frameTable i).kpage
    | none => .found task 0
  else .full task

def evictPick : Kernel (Nat × Nat × Nat) := do
  evictSelect evictFuel
  let s ← get
  let frame := s.frameTable s.clockPointer
  pagedirClearPage frame.pagedir frame.upage
  let sector ← swapGetFree
  modify fun s => s.setPage frame.pagePointer { s.pages frame.pagePointer with swapLocation := sector }
  return (s.clockPointer, frame.kpage, sector)

def State.fileSector (s : State) (page : Page) (kpage amount count : Nat) : State :=
  s.setRam kpage fun o =>
    if o / blockSectorSize = count ∧ o < amount then (s.files page.file).getD (page.ofs + o) 0 else s.ram kpage o

def State.zeroTail (s : State) (page : Page) (kpage : Nat) : State :=
  s.setRam kpage fun o =>
    if page.pageReadBytes ≤ o ∧ o < page.pageReadBytes + page.pageZeroBytes then 0 else s.ram kpage o

def Machine.begin {n : Nat} (m : Machine n) (t : Fin n) (kpage : Nat) (env : Env) : Task → Option (Machine n)
  | .grow upage =>
      if kpage = 0 then some (m.goto t m.vm .user)
      else
        let pagedir := (m.vm.threads t).pagedir
        some (m.goto t (m.vm.built t (stackEntry upage pagedir .inFrame)) (.install m.vm.nextPage upage kpage pagedir))
  | .file p =>
      let page := m.vm.pages p
      if ¬page.ofs < 2 ^ 31 then none
      else if kpage = 0 then
        -- Page 0 mapped, the bytes go there until `pagedir_set_page` fails its assertion.
        if (m.vm.translate t 0).present then none else some (m.die t m.vm (-1))
      else
        let amount := readAmount (m.vm.files page.file).length page.ofs page.pageReadBytes env.bounce
        some (m.goto t m.vm (.fileRead p kpage amount 0))
  | .swap p => if kpage = 0 then none else some (m.goto t m.vm (.swapEnter p kpage))

def advance {n : Nat} (m : Machine n) (t : Fin n) (env : Env) : Option (Machine n) :=
  match m.pcs t with
  | .user | .gone => none
  | .find task => m.acquire t (.scan task)
  | .scan task => some (m.goto t m.vm (scanBody m.vm task))
  | .found task kpage => some (m.release t m.vm (.ready task kpage))
  | .full task => some (m.release t m.vm (.evict task))
  | .evict task =>
      match evictPick m.vm with
      | .returned (index, kpage, sector) vm => some (m.goto t vm (.write task index kpage sector 0))
      | .stopped _ _ => none
  | .write task index kpage sector count =>
      if count < 8 then
        some (m.goto t (m.vm.sectorOut kpage sector count) (.write task index kpage sector (count + 1)))
      else
        -- The rest of `frame_evict` goes by where the clock hand is now.
        let frame := m.vm.frameTable m.vm.clockPointer
        if frame.pagePointer = 0 then none else some (m.goto t m.vm.evicted (.ready task frame.kpage))
  | .ready task kpage => m.begin t kpage env task
  | .fileRead p kpage amount count =>
      let page := m.vm.pages p
      if count * blockSectorSize < amount then
        some (m.goto t (State.fileSector m.vm page kpage amount count) (.fileRead p kpage amount (count + 1)))
      else if amount ≠ page.pageReadBytes then some (m.goto t m.vm (.free kpage (-35)))
      else some (m.goto t (State.zeroTail m.vm page kpage) (.install p page.upage kpage page.pagedir))
  | .swapEnter p kpage => m.acquire t (.swapRead p kpage 0)
  | .swapRead p kpage count =>
      let slot := (m.vm.pages p).swapLocation
      if count < 8 then some (m.goto t (m.vm.sectorIn kpage slot count) (.swapRead p kpage (count + 1)))
      else if slot / 8 < m.vm.slots then
        let freed := m.vm.setSlot (slot / 8) false
        some (m.goto t (freed.setPage p { m.vm.pages p with swapLocation := noSlot }) (.swapLeave p kpage))
      else none
  | .swapLeave p kpage =>
      some (m.release t m.vm (.install p (m.vm.pages p).upage kpage (m.vm.pages p).pagedir))
  | .install p upage kpage pagedir => m.acquire t (.installing p upage kpage pagedir)
  | .installing p upage kpage pagedir =>
      match frameInstall t upage kpage pagedir (m.vm.pages p).writable p env.pageTable m.vm with
      | .returned success vm => some (m.goto t vm (.installed p kpage success))
      | .stopped (.exit _) vm => some (m.release t vm (.clear (vm.threads t).spt))
      | .stopped _ _ => none
  | .installed p kpage success =>
      if success then
        some (m.release t (m.vm.setPage p { m.vm.pages p with location := .inFrame, kpage := kpage }) .user)
      else some (m.release t m.vm (.free kpage (-532)))
  | .free kpage status => m.acquire t (.freeing kpage status)
  | .freeing kpage status => some (m.goto t (m.vm.frameFree kpage) (.freed status))
  | .freed status => some (m.release t (m.vm.ending t status) (.clear (m.vm.threads t).spt))
  | .clear [] => some (m.goto t (m.vm.left t) .gone)
  | .clear (p :: rest) =>
      if (m.vm.pages p).location = .inFrame then m.acquire t (.clearing p rest)
      else some (m.goto t m.vm (.clear rest))
  | .clearing p rest => some (m.goto t (m.vm.frameFree (m.vm.pages p).kpage) (.cleared p rest))
  | .cleared p rest =>
      some (m.release t (m.vm.setPage p { m.vm.pages p with kpage := 0, location := .cleared }) (.clear rest))

inductive Event (n : Nat) where
  | fault (thread : Fin n) (addr esp : Nat) (user write : Bool)
  | read (thread : Fin n) (addr : Nat)
  | write (thread : Fin n) (addr : Nat) (value : UInt8)
  | exit (thread : Fin n) (status : Int)
  /-- The process has the processor until its next switch point. -/
  | advance (thread : Fin n) (env : Env)

/-- `page_fault` and `page_fault_identifier` up to `frame_find_empty`. -/
def pageFault {n : Nat} (m : Machine n) (t : Fin n) (addr esp : Nat) (user : Bool) : Machine n :=
  if addr = 0 ∨ isKernelVaddr addr ∨ (m.vm.translate t addr).present then m.die t m.vm (-1)
  else
    match m.vm.hashFind t (pgRoundDown addr) with
    | none =>
      if m.vm.growsStack t addr esp user then m.goto t m.vm (.find (.grow (pgRoundDown addr)))
      else m.die t m.vm (-1)
    | some p =>
      match (m.vm.pages p).location with
      | .inSwap => m.goto t m.vm (.find (.swap p))
      | .inFilesys => m.goto t m.vm (.find (.file p))
      | .inFrame | .cleared => m

def step {n : Nat} (m : Machine n) : Event n → Option (Machine n)
  | .fault t addr esp user write =>
      if m.pcs t = .user ∧ (m.vm.threads t).phase = .running ∧ m.vm.accessible t addr write = false then
        some (pageFault m t addr esp user)
      else none
  | .read t addr =>
      if m.pcs t = .user ∧ (m.vm.threads t).phase = .running ∧ m.vm.accessible t addr false = true then
        some { m with vm := m.vm.touch t addr }
      else none
  | .write t addr value =>
      if m.pcs t = .user ∧ (m.vm.threads t).phase = .running ∧ m.vm.accessible t addr true = true then
        let kpage := (m.vm.translate t addr).page
        some { m with vm := (m.vm.touch t addr).setRam kpage (Function.update (m.vm.ram kpage) (pgOfs addr) value) }
      else none
  | .exit t status =>
      if m.pcs t = .user ∧ (m.vm.threads t).phase = .running then some (m.die t m.vm status) else none
  | .advance t env => Interleaved.advance m t env

def Pc.holds : Pc → Option Nat
  | .found _ kpage | .ready _ kpage | .fileRead _ kpage _ _ | .swapEnter _ kpage | .swapRead _ kpage _
  | .swapLeave _ kpage | .install _ _ kpage _ | .installing _ _ kpage _ | .installed _ kpage false
  | .free kpage _ | .freeing kpage _ => if kpage = 0 then none else some kpage
  | _ => none

def Pc.evicts : Pc → Option Nat
  | .write _ index _ _ _ => some index
  | _ => none

end Pintos.Vm.Interleaved
