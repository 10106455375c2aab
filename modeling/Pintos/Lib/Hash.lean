import Mathlib.Algebra.Group.Int.Defs
import Mathlib.Algebra.Group.Nat.Defs
import Mathlib.Data.List.Basic
import Mathlib.Data.Nat.Bitwise

/-! Hash tables (`lib/kernel/hash.c`), and the functions the supplemental page
table gives them (`vm/page.c`).

An element is linked into one of the buckets, and the number of buckets follows
the number of elements; the allocation of new buckets may fail. `elem_cnt` is a
`Nat`: an element takes more than one byte of memory, so that it cannot wrap.
-/

set_option autoImplicit false

namespace Pintos.Lib

structure Hash (α : Type) where
  elemCnt : Nat
  bucketCnt : Nat
  buckets : Nat → List α

namespace Hash
variable {α : Type} (hash : α → UInt32) (less : α → α → Bool)

def init : Hash α := ⟨0, 4, fun _ => []⟩

def findBucket (h : Hash α) (e : α) : Nat := (hash e).toNat &&& (h.bucketCnt - 1)

def findElem (bucket : List α) (e : α) : Option α := bucket.find? fun hi => !less hi e && !less e hi

def turnOffLeast1bit (x : Nat) : Nat := x &&& (x - 1)

def isPowerOf2 (x : Nat) : Bool := x != 0 && turnOffLeast1bit x == 0

theorem turnOffLeast1bit_lt {x : Nat} (positive : x ≠ 0) : turnOffLeast1bit x < x :=
  Nat.lt_of_le_of_lt Nat.and_le_right (Nat.sub_lt (Nat.pos_of_ne_zero positive) Nat.one_pos)

/-- The loop over `new_bucket_cnt`, which does not get to 0. -/
def powerOf2 (x : Nat) : Nat :=
  if isPowerOf2 x then x else if _positive : x ≠ 0 then powerOf2 (turnOffLeast1bit x) else 0
termination_by x
decreasing_by exact turnOffLeast1bit_lt _positive

def bestElemsPerBucket : Nat := 2

def newBucketCnt (h : Hash α) : Nat :=
  let cnt := h.elemCnt / bestElemsPerBucket
  powerOf2 (if cnt < 4 then 4 else cnt)

def pushFront (buckets : Nat → List α) (index : Nat) (e : α) : Nat → List α :=
  fun other => if other = index then e :: buckets other else buckets other

def moveAll (old new : Hash α) : Hash α :=
  (List.range old.bucketCnt).foldl (fun new i =>
    (old.buckets i).foldl (fun new e => { new with buckets := pushFront new.buckets (new.findBucket hash e) e }) new) new

/-- `allocated`: the allocation of new buckets succeeds. -/
def rehash (h : Hash α) (allocated : Bool) : Hash α :=
  let cnt := h.newBucketCnt
  if cnt = h.bucketCnt then h
  else if allocated then moveAll hash h ⟨h.elemCnt, cnt, fun _ => []⟩
  else h

def insertElem (h : Hash α) (bucket : Nat) (e : α) : Hash α :=
  { h with elemCnt := h.elemCnt + 1, buckets := pushFront h.buckets bucket e }

section Elements
variable [DecidableEq α]

def removeElem (h : Hash α) (e : α) : Hash α :=
  { h with elemCnt := h.elemCnt - 1, buckets := fun i => (h.buckets i).erase e }

def insert (h : Hash α) (new : α) (allocated : Bool) : Hash α × Option α :=
  let bucket := h.findBucket hash new
  let old := findElem less (h.buckets bucket) new
  let h := match old with
    | none => h.insertElem bucket new
    | some _ => h
  (h.rehash hash allocated, old)

def replace (h : Hash α) (new : α) (allocated : Bool) : Hash α × Option α :=
  let bucket := h.findBucket hash new
  let old := findElem less (h.buckets bucket) new
  let h := match old with
    | some old => h.removeElem old
    | none => h
  ((h.insertElem bucket new).rehash hash allocated, old)

def find (h : Hash α) (e : α) : Option α := findElem less (h.buckets (h.findBucket hash e)) e

def delete (h : Hash α) (e : α) (allocated : Bool) : Hash α × Option α :=
  match findElem less (h.buckets (h.findBucket hash e)) e with
  | some found => ((h.removeElem found).rehash hash allocated, some found)
  | none => (h, none)

end Elements

/-- A `hash_iterator`: its bucket, and what comes after the current element there. -/
structure Iterator (α : Type) where
  bucket : Nat
  rest : List α

def first (h : Hash α) : Iterator α := ⟨0, h.buckets 0⟩

def next (h : Hash α) (i : Iterator α) : Iterator α × Option α :=
  match i.rest with
  | e :: rest => (⟨i.bucket, rest⟩, some e)
  | [] =>
    if i.bucket + 1 < h.bucketCnt then next h ⟨i.bucket + 1, h.buckets (i.bucket + 1)⟩
    else (⟨i.bucket + 1, []⟩, none)
termination_by h.bucketCnt - i.bucket

def nexts (h : Hash α) : Nat → Iterator α → List (Option α)
  | 0, _ => []
  | count + 1, i => (h.next i).2 :: h.nexts count (h.next i).1

end Hash

def hashBytes (buf : List UInt8) : UInt32 :=
  buf.foldl (fun hash byte => hash * 16777619 ^^^ byte.toUInt32) 2166136261

def hashInt (i : UInt32) : UInt32 :=
  hashBytes [i.toUInt8, (i >>> 8).toUInt8, (i >>> 16).toUInt8, (i >>> 24).toUInt8]

structure PageEntry where
  address : UInt32
  upage : UInt32
  deriving DecidableEq

def pageHash (p : PageEntry) : UInt32 := hashInt p.upage

def pageLess (a b : PageEntry) : Bool := a.upage < b.upage

end Pintos.Lib
