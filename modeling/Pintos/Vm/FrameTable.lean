import Mathlib.Data.List.Perm.Subperm
import Pintos.Threads.Pools
import Pintos.Vm.Progress

/-! The frame table that `frame_table_init` fills from the user pool.

The table has a fixed number of entries and the pool is as large as memory and
the `-ul` option make it. The loop asks whether `malloc` gave it an entry, not
whether `palloc_get_page` gave it a page, so with too small a pool it goes on
with null frames. `malloc` takes its pages from the kernel pool, which may be in
any state: the user pool is not touched before.
-/

set_option autoImplicit false

namespace Pintos.Vm
open Semantics Computation
open Threads.Palloc (Pool Pools pallocInit pallocGetMultiple userPages bmPages)

/-- One iteration: the new entry, and the pools afterwards. `heap` is the kernel pool after the
call of `malloc`, if that succeeded; storing into a null entry ends the boot. -/
def initEntry (pools : Pools) (heap : Option Pool) : Option (Pools × FrameTableElem) :=
  heap.map fun kernelPool =>
    let (pools, kpage) := pallocGetMultiple (Function.update pools false kernelPool) true 1
    (pools, { kpage := kpage.getD 0 })

def initLoop (malloc : Nat → Option Pool) :
    Nat → Nat → Pools → List FrameTableElem → Option (Pools × List FrameTableElem)
  | 0, _, pools, table => some (pools, table)
  | more + 1, i, pools, table =>
    (initEntry pools (malloc i)).bind fun (pools, x) => initLoop malloc more (i + 1) pools (table ++ [x])

def frameTableInit (pools : Pools) (malloc : Nat → Option Pool) : Option (Pools × List FrameTableElem) :=
  initLoop malloc totalPages 0 pools []

def PoolPage (pool : Pool) (kpage : Nat) : Prop :=
  ∃ i < pool.usedMap.bitCnt, kpage = pool.base + Threads.Palloc.pgSize * i

def State.HasTable (s : State) (table : List FrameTableElem) : Prop :=
  ∀ i (inside : i < table.length), (s.frameTable i).kpage = (table.get ⟨i, inside⟩).kpage

/-- Every entry has a page of the pool of its own, and so has what `frame_find_empty` returns. -/
structure RealFrames (pool : Pool) (table : List FrameTableElem) : Prop where
  length : table.length = totalPages
  real : ∀ x ∈ table, x.kpage ≠ 0 ∧ PoolPage pool x.kpage
  distinct : (table.map FrameTableElem.kpage).Nodup
  found : ∀ (s after : State) (kpage : Nat), s.HasTable table →
    firstEvictable ≤ s.clockPointer ∧ s.clockPointer < totalPages → frameFindEmpty s = .returned kpage after →
    kpage ≠ 0 → PoolPage pool kpage

/-! ## Filling the table -/

/-- The pages of the user pool handed out so far, by their number in the pool. -/
structure HandedOut (pool : Pool) (pools : Pools) (indices : List Nat) : Prop where
  base : (pools true).base = pool.base
  bitCnt : (pools true).usedMap.bitCnt = pool.usedMap.bitCnt
  distinct : indices.Nodup
  used : ∀ i < pool.usedMap.bitCnt, (pools true).usedMap.test i = true ↔ i ∈ indices

section Filling
variable {pool : Pool} {pools : Pools} {indices : List Nat}

def poolEntry (pool : Pool) (i : Nat) : FrameTableElem := { kpage := pool.base + Threads.Palloc.pgSize * i }

section
variable (handed : HandedOut pool pools indices)
include handed

theorem HandedOut.heap (kernelPool : Pool) : HandedOut pool (Function.update pools false kernelPool) indices := by
  have same : Function.update pools false kernelPool true = pools true := Function.update_of_ne (by decide) _ _
  refine ⟨?_, ?_, handed.distinct, ?_⟩ <;> rw [same]
  · exact handed.base
  · exact handed.bitCnt
  · exact handed.used

theorem HandedOut.take {i : Nat} (unused : i ∉ indices) : HandedOut pool (Function.update pools true
      { pools true with usedMap := (pools true).usedMap.setMultiple i 1 true }) (indices ++ [i]) := by
  refine ⟨?_, ?_, ?_, fun j inside => ?_⟩
  · rw [Function.update_self]
    exact handed.base
  · rw [Function.update_self]
    exact (Filesys.Bitmap.bitCnt_setMultiple _ _ _).trans handed.bitCnt
  · refine List.nodup_append.mpr ⟨handed.distinct, List.nodup_singleton i, fun a inside b new same => unused ?_⟩
    rw [← List.mem_singleton.mp new, ← same]
    exact inside
  · rw [Function.update_self]
    dsimp only
    rw [Filesys.Bitmap.test_setMultiple, List.mem_append, List.mem_singleton, ← handed.used j inside]
    by_cases here : j = i
    · subst here
      simp
    · rw [if_neg (by omega)]
      simp [here]

/-- As long as fewer pages are handed out than the pool has, an entry gets a new one. -/
theorem HandedOut.next (room : indices.length < pool.usedMap.bitCnt) (kernelPool : Pool) :
    ∃ after i, i < pool.usedMap.bitCnt ∧ HandedOut pool after (indices ++ [i]) ∧
      initEntry pools (some kernelPool) = some (after, poolEntry pool i) := by
  have ready := handed.heap kernelPool
  rcases Threads.Palloc.pallocGetMultiple_cases (Function.update pools false kernelPool) true Nat.one_pos with
    ⟨i, fits, free, got⟩ | ⟨_, full⟩
  · rw [ready.bitCnt] at fits
    have unused : i ∉ indices := by
      have clear := free 0 Nat.one_pos
      rw [Nat.add_zero] at clear
      rw [← ready.used i fits, clear]
      decide
    refine ⟨_, i, fits, ready.take unused, ?_⟩
    rw [initEntry, Option.map_some, got, ready.base]
    rfl
  · -- Every page would be handed out.
    have all : List.range pool.usedMap.bitCnt ⊆ indices := by
      intro i inside
      have bound := List.mem_range.mp inside
      obtain ⟨offset, zero, taken⟩ := full i (by rw [ready.bitCnt]; exact bound)
      rw [Nat.lt_one_iff.mp zero] at taken
      exact (ready.used i bound).mp taken
    have atLeast := (List.nodup_range.subperm all).length_le
    rw [List.length_range] at atLeast
    omega

theorem initLoop_fills {malloc : Nat → Option Pool} {more i : Nat} {table result : List FrameTableElem} {after : Pools}
    (room : indices.length + more ≤ pool.usedMap.bitCnt)
    (inside : ∀ k ∈ indices, k < pool.usedMap.bitCnt) (made : table = indices.map (poolEntry pool))
    (done : initLoop malloc more i pools table = some (after, result)) :
    ∃ all : List Nat, all.Nodup ∧ all.length = indices.length + more ∧ (∀ k ∈ all, k < pool.usedMap.bitCnt) ∧
      result = all.map (poolEntry pool) := by
  induction more generalizing pools indices table i with
  | zero =>
    cases done
    exact ⟨indices, handed.distinct, rfl, inside, made⟩
  | succ more ih =>
    unfold initLoop at done
    cases allocated : malloc i with
    | none =>
      rw [allocated] at done
      cases done
    | some kernelPool =>
      obtain ⟨next, k, bound, handed', entry⟩ := handed.next (by omega) kernelPool
      rw [allocated, entry] at done
      obtain ⟨all, distinct, length, inside', filled⟩ := ih handed'
        (by rw [List.length_append, List.length_singleton]; omega)
        (fun j member => by
          rcases List.mem_append.mp member with old | new
          · exact inside j old
          · rw [List.mem_singleton.mp new]
            exact bound)
        (by rw [made, List.map_append]; rfl) done
      refine ⟨all, distinct, ?_, inside', filled⟩
      rw [length, List.length_append, List.length_singleton]
      omega

end

theorem initLoop_returns (malloc : Nat → Option Pool) (allocated : ∀ i, (malloc i).isSome = true) (more i : Nat)
    (pools : Pools) (table : List FrameTableElem) :
    ∃ after result, initLoop malloc more i pools table = some (after, result) := by
  induction more generalizing pools i table with
  | zero => exact ⟨pools, table, rfl⟩
  | succ more ih =>
    obtain ⟨kernelPool, got⟩ := Option.isSome_iff_exists.mp (allocated i)
    unfold initLoop
    rw [got]
    exact ih _ _ _

end Filling

/-! ## Tables of real frames -/

section Real
variable {pool : Pool} {table : List FrameTableElem}

/-- With a page for each entry, the kpages are pages of the pool: the table needs as many. -/
theorem RealFrames.room (real : RealFrames pool table) : totalPages ≤ pool.usedMap.bitCnt := by
  have inside : table.map FrameTableElem.kpage ⊆
      (List.range pool.usedMap.bitCnt).map fun i => pool.base + Threads.Palloc.pgSize * i := by
    intro kpage member
    obtain ⟨x, listed, rfl⟩ := List.mem_map.mp member
    obtain ⟨_, i, bound, same⟩ := real.real x listed
    exact List.mem_map.mpr ⟨i, List.mem_range.mpr bound, same.symm⟩
  have atMost := (real.distinct.subperm inside).length_le
  simpa [real.length] using atMost

theorem frames_of_table {s : State} (length : table.length = totalPages) (real : ∀ x ∈ table, x.kpage ≠ 0)
    (distinct : (table.map FrameTableElem.kpage).Nodup) (has : s.HasTable table)
    (clock : firstEvictable ≤ s.clockPointer ∧ s.clockPointer < totalPages) : Frames s := by
  refine ⟨fun i bound => ?_, fun i boundI j boundJ same => ?_, clock⟩
  · rw [has i (length.symm ▸ bound)]
    exact real _ (List.get_mem _ _)
  · have insideI : i < (table.map FrameTableElem.kpage).length := by rw [List.length_map, length]; exact boundI
    have insideJ : j < (table.map FrameTableElem.kpage).length := by rw [List.length_map, length]; exact boundJ
    rw [has i (length.symm ▸ boundI), has j (length.symm ▸ boundJ)] at same
    have equal : (table.map FrameTableElem.kpage)[i] = (table.map FrameTableElem.kpage)[j] := by simpa using same
    exact distinct.getElem_inj_iff.mp equal

theorem findEmpty_kpage {s after : State} {kpage : Nat} (length : table.length = totalPages) (frames : Frames s)
    (has : s.HasTable table) (done : frameFindEmpty s = .returned kpage after) :
    kpage = 0 ∨ ∃ x ∈ table, kpage = x.kpage := by
  have listed : ∀ i < totalPages, ∃ x ∈ table, (s.frameTable i).kpage = x.kpage :=
    fun i bound => ⟨_, List.get_mem _ _, has i (length.symm ▸ bound)⟩
  cases frameFindEmpty_returned frames done with
  | nothing => exact .inl rfl
  | free i bound => exact .inr (listed i bound)
  | @evicted _ slot _ stop evicted =>
    rw [evicted.kpage, evicted.glanced.frameTable]
    exact .inr (listed _ evicted.range.2)

theorem realFrames_of_indices {indices : List Nat} (positive : 0 < pool.base) (distinct : indices.Nodup)
    (length : indices.length = totalPages) (inside : ∀ i ∈ indices, i < pool.usedMap.bitCnt) :
    RealFrames pool (indices.map (poolEntry pool)) := by
  have long : (indices.map (poolEntry pool)).length = totalPages := by rw [List.length_map, length]
  have real : ∀ x ∈ indices.map (poolEntry pool), x.kpage ≠ 0 ∧ PoolPage pool x.kpage := by
    intro x member
    obtain ⟨i, listed, rfl⟩ := List.mem_map.mp member
    refine ⟨?_, i, inside i listed, rfl⟩
    simp only [poolEntry]
    omega
  have different : ((indices.map (poolEntry pool)).map FrameTableElem.kpage).Nodup := by
    rw [List.map_map]
    refine distinct.map fun i j same => ?_
    simp only [Function.comp, poolEntry, Threads.Palloc.pgSize] at same
    omega
  refine ⟨long, real, different, fun s after kpage has clock done given => ?_⟩
  have frames := frames_of_table long (fun x member => (real x member).1) different has clock
  obtain ⟨x, member, rfl⟩ := (findEmpty_kpage long frames has done).resolve_left given
  exact (real x member).2

end Real

/-! ## The size of the pool -/

section Boot
variable {initRamPages userPageLimit : Nat} {memory : Bool → Nat → BitVec 32} {pools : Pools}

theorem userPool_size (least : 256 ≤ initRamPages) (most : initRamPages < 2 ^ 18)
    (accepted : pallocInit initRamPages userPageLimit memory = some pools) :
    0 < (pools true).base ∧ (pools true).usedMap.bitCnt =
        userPages initRamPages userPageLimit - bmPages (userPages initRamPages userPageLimit) ∧
      ∀ i < (pools true).usedMap.bitCnt, (pools true).usedMap.test i = false := by
  obtain ⟨regions, clear⟩ := Threads.Palloc.pallocInit_regions least most accepted
  have made := (Threads.Palloc.initPools_some accepted).2
  have small : userPages initRamPages userPageLimit < 2 ^ 20 := by
    rw [userPages, Threads.Palloc.freePages_eq]
    omega
  refine ⟨?_, (Threads.Palloc.initPool_some small made).2.1, clear true⟩
  have positive := regions.pgNo_pos true
  rw [regions.aligned true]
  exact Nat.mul_pos positive (by decide)

/-- With a page for each entry, the table consists of different pages of the user pool. -/
theorem frameTableInit_fills {kernelPool : Pool} {malloc : Nat → Option Pool} {after : Pools}
    {table : List FrameTableElem} (least : 256 ≤ initRamPages) (most : initRamPages < 2 ^ 18)
    (accepted : pallocInit initRamPages userPageLimit memory = some pools)
    (done : frameTableInit (Function.update pools false kernelPool) malloc = some (after, table))
    (room : totalPages ≤ (pools true).usedMap.bitCnt) :
    ∃ indices : List Nat, indices.Nodup ∧ indices.length = totalPages ∧
      (∀ i ∈ indices, i < (pools true).usedMap.bitCnt) ∧ table = indices.map (poolEntry (pools true)) := by
  obtain ⟨_, _, clear⟩ := userPool_size least most accepted
  have start : HandedOut (pools true) pools [] :=
    ⟨rfl, rfl, List.nodup_nil, fun i inside => by simp [clear i inside]⟩
  obtain ⟨indices, distinct, length, inside, filled⟩ := initLoop_fills (start.heap kernelPool)
    (by rw [List.length_nil, Nat.zero_add]; exact room) (fun _ member => by cases member) rfl done
  exact ⟨indices, distinct, by rw [length, List.length_nil, Nat.zero_add], inside, filled⟩

/-- Whatever memory and the limit on user pages are: the frames of the table are pages of the user
pool, each a different one, exactly if the pool has a page for each entry. -/
theorem frame_table_real_iff (kernelPool : Pool) (malloc : Nat → Option Pool) (after : Pools)
    (table : List FrameTableElem) (least : 256 ≤ initRamPages) (most : initRamPages < 2 ^ 18)
    (accepted : pallocInit initRamPages userPageLimit memory = some pools)
    (done : frameTableInit (Function.update pools false kernelPool) malloc = some (after, table)) :
    RealFrames (pools true) table ↔
      totalPages ≤ userPages initRamPages userPageLimit - bmPages (userPages initRamPages userPageLimit) := by
  obtain ⟨positive, size, _⟩ := userPool_size least most accepted
  rw [← size]
  refine ⟨RealFrames.room, fun room => ?_⟩
  obtain ⟨indices, distinct, length, inside, rfl⟩ := frameTableInit_fills least most accepted done room
  exact realFrames_of_indices positive distinct length inside

/-- A machine with 4 MB and no limit has a page for each entry. -/
theorem frame_table_real_iff_default :
    ∃ pools after table, pallocInit 1024 (2 ^ 32 - 1) (fun _ _ => 0) = some pools ∧
      frameTableInit (Function.update pools false (pools false)) (fun _ => some (pools false)) = some (after, table) ∧
      RealFrames (pools true) table := by
  obtain ⟨pools, accepted⟩ := Option.isSome_iff_exists.mp
    (by decide +kernel : (pallocInit 1024 (2 ^ 32 - 1) (fun _ _ => 0)).isSome = true)
  obtain ⟨after, table, done⟩ := initLoop_returns (fun _ => some (pools false)) (fun _ => rfl) totalPages 0
    (Function.update pools false (pools false)) []
  refine ⟨pools, after, table, accepted, done, ?_⟩
  exact (frame_table_real_iff (pools false) _ after table (by decide) (by decide) accepted done).mpr (by decide)

/-- With `-ul=367` one page goes to the bitmap of the pool, and the table has more entries than frames. -/
theorem limit_leaves_null_frame :
    ∃ pools after table, pallocInit 1024 totalPages (fun _ _ => 0) = some pools ∧
      frameTableInit (Function.update pools false (pools false)) (fun _ => some (pools false)) = some (after, table) ∧
      ¬RealFrames (pools true) table := by
  obtain ⟨pools, accepted⟩ := Option.isSome_iff_exists.mp
    (by decide +kernel : (pallocInit 1024 totalPages (fun _ _ => 0)).isSome = true)
  obtain ⟨after, table, done⟩ := initLoop_returns (fun _ => some (pools false)) (fun _ => rfl) totalPages 0
    (Function.update pools false (pools false)) []
  refine ⟨pools, after, table, accepted, done, fun real => ?_⟩
  have room := real.room
  rw [(userPool_size (by decide) (by decide) accepted).2.1] at room
  exact absurd room (by decide)

end Boot

end Pintos.Vm
