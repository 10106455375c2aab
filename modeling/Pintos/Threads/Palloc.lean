import Pintos.Filesys.Bitmap
import Pintos.Semantics.Runs
import Pintos.Semantics.Transition

/-! The page allocator (`threads/palloc.c`).

Memory from 1 MB on is split into a kernel pool and a user pool, each with its
bitmap in its first pages. Addresses are kernel virtual ones, and the pages of a
pool are counted from its `base`. What the pages hold is left out. The live
allocations are recorded beside the state of the program, each as the run of
pages of its pool that it has.
-/

set_option autoImplicit false

namespace Pintos.Threads.Palloc
open Semantics Filesys

def pgSize : Nat := 4096

def physBase : Nat := 0xc0000000

def ptov (paddr : Nat) : Nat := paddr + physBase

def pgNo (va : Nat) : Nat := va / pgSize

def pgOfs (va : Nat) : Nat := va % pgSize

structure Pool where
  usedMap : Bitmap
  base : Nat

/-- With a `struct bitmap` of 8 bytes. -/
def bitmapBufSize (bitCnt : Nat) : Nat := 8 + byteCnt bitCnt

def bitmapCreateInBuf (bitCnt blockSize : Nat) (block : Nat → BitVec 32) : Option Bitmap :=
  if blockSize < bitmapBufSize bitCnt then none else some ((⟨bitCnt, block⟩ : Bitmap).setMultiple 0 bitCnt false)

def bmPages (pageCnt : Nat) : Nat := (bitmapBufSize pageCnt + pgSize - 1) / pgSize

def initPool (base pageCnt : Nat) (memory : Nat → BitVec 32) : Option Pool :=
  if bmPages pageCnt > pageCnt then none
  else (bitmapCreateInBuf (pageCnt - bmPages pageCnt) (bmPages pageCnt * pgSize) memory).map fun usedMap =>
    ⟨usedMap, base + bmPages pageCnt * pgSize⟩

abbrev Pools := Bool → Pool

def freeStart : Nat := ptov (1024 * 1024)

def freePages (initRamPages : Nat) : Nat := (ptov (initRamPages * pgSize) - freeStart) / pgSize

def userPages (initRamPages userPageLimit : Nat) : Nat := min (freePages initRamPages / 2) userPageLimit

def kernelPages (initRamPages userPageLimit : Nat) : Nat :=
  freePages initRamPages - userPages initRamPages userPageLimit

def initPools (start kernelPages userPages : Nat) (memory : Bool → Nat → BitVec 32) : Option Pools :=
  match initPool start kernelPages (memory false), initPool (start + kernelPages * pgSize) userPages (memory true) with
  | some kernelPool, some userPool => some fun user => if user then userPool else kernelPool
  | _, _ => none

def pallocInit (initRamPages userPageLimit : Nat) (memory : Bool → Nat → BitVec 32) : Option Pools :=
  initPools freeStart (kernelPages initRamPages userPageLimit) (userPages initRamPages userPageLimit) memory

structure Flags where
  assert : Bool
  user : Bool
  deriving DecidableEq, Repr

def bitmapScanAndFlip (map : Bitmap) (start cnt : Nat) (value : Bool) : Bitmap × Option Nat :=
  match map.scan start cnt value with
  | some idx => (map.setMultiple idx cnt !value, some idx)
  | none => (map, none)

/-- The pools afterwards and the address, if any. -/
def pallocGetMultiple (pools : Pools) (user : Bool) (pageCnt : Nat) : Pools × Option Nat :=
  if pageCnt = 0 then (pools, none)
  else
    match bitmapScanAndFlip (pools user).usedMap 0 pageCnt false with
    | (usedMap, some idx) =>
      (Function.update pools user { pools user with usedMap := usedMap }, some ((pools user).base + pgSize * idx))
    | (_, none) => (pools, none)

def pageFromPool (pool : Pool) (page : Nat) : Bool :=
  pgNo pool.base ≤ pgNo page ∧ pgNo page < pgNo pool.base + pool.usedMap.bitCnt

/-- `none` when an assertion fails. -/
def pallocFreeMultiple (pools : Pools) (pages pageCnt : Nat) : Option Pools :=
  if pgOfs pages ≠ 0 then none
  else if pages = 0 ∨ pageCnt = 0 then some pools
  else
    let from? := if pageFromPool (pools false) pages then some false
      else if pageFromPool (pools true) pages then some true
      else none
    from?.bind fun user =>
      let pool := pools user
      let pageIdx := pgNo pages - pgNo pool.base
      if pageIdx + pageCnt ≤ pool.usedMap.bitCnt ∧ pool.usedMap.all pageIdx pageCnt then
        some (Function.update pools user { pool with usedMap := pool.usedMap.setMultiple pageIdx pageCnt false })
      else none

structure State where
  pools : Pools
  live : Bool → List Run

def State.address (s : State) (user : Bool) (r : Run) : Nat := (s.pools user).base + pgSize * r.start

inductive Event where
  | get (flags : Flags) (pageCnt : Nat)
  /-- Frees a live allocation. -/
  | free (user : Bool) (r : Run)
  /-- Frees no page. -/
  | freeNothing (pages pageCnt : Nat)
  deriving DecidableEq, Repr

/-- `none` if the event may not happen, or the kernel panics. -/
def step (s : State) : Event → Option State
  | .get flags pageCnt =>
    match pallocGetMultiple s.pools flags.user pageCnt with
    | (pools, some address) =>
      some ⟨pools, Function.update s.live flags.user
        (⟨(address - (s.pools flags.user).base) / pgSize, pageCnt⟩ :: s.live flags.user)⟩
    | (pools, none) => if flags.assert ∧ pageCnt ≠ 0 then none else some ⟨pools, s.live⟩
  | .free user r =>
    if r ∈ s.live user then
      (pallocFreeMultiple s.pools (s.address user r) r.cnt).map fun pools =>
        ⟨pools, Function.update s.live user ((s.live user).erase r)⟩
    else none
  | .freeNothing pages pageCnt =>
    if pgOfs pages = 0 ∧ (pages = 0 ∨ pageCnt = 0) then
      (pallocFreeMultiple s.pools pages pageCnt).map fun pools => ⟨pools, s.live⟩
    else none

end Pintos.Threads.Palloc
