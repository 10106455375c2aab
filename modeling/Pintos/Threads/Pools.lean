import Pintos.Threads.Palloc

/-! What the page allocator keeps.

Memory from 1 MB to the end of RAM is the kernel pool's bitmap, the kernel pool,
the user pool's bitmap and the user pool, in that order and without gaps. Each
bitmap accounts for the live allocations of its pool.
-/

set_option autoImplicit false

namespace Pintos.Threads.Palloc
open Semantics Filesys

section Regions
variable {initRamPages userPageLimit : Nat}

structure Regions (initRamPages userPageLimit : Nat) (pools : Pools) : Prop where
  kernel : pgNo (pools false).base = pgNo freeStart + bmPages (kernelPages initRamPages userPageLimit)
  user : pgNo (pools true).base =
    pgNo (pools false).base + (pools false).usedMap.bitCnt + bmPages (userPages initRamPages userPageLimit)
  last : pgNo (pools true).base + (pools true).usedMap.bitCnt = pgNo physBase + initRamPages
  aligned : ∀ user, (pools user).base = pgNo (pools user).base * pgSize

theorem bmPages_enough (pageCnt : Nat) : bitmapBufSize pageCnt ≤ bmPages pageCnt * pgSize := by
  unfold bmPages pgSize
  omega

theorem byteCnt_mono {small large : Nat} (le : small ≤ large) (bound : large < 2 ^ 20) : byteCnt small ≤ byteCnt large := by
  unfold byteCnt elemCnt elemBits
  omega

theorem initPool_some {base pageCnt : Nat} {memory : Nat → BitVec 32} {pool : Pool} (bound : pageCnt < 2 ^ 20)
    (made : initPool base pageCnt memory = some pool) :
    bmPages pageCnt ≤ pageCnt ∧ pool.usedMap.bitCnt = pageCnt - bmPages pageCnt ∧
      pool.base = base + bmPages pageCnt * pgSize ∧ ∀ i < pool.usedMap.bitCnt, pool.usedMap.test i = false := by
  unfold initPool at made
  split at made <;> rename_i room
  · cases made
  · have enough : ¬bmPages pageCnt * pgSize < bitmapBufSize (pageCnt - bmPages pageCnt) := by
      have whole := bmPages_enough pageCnt
      have less := byteCnt_mono (Nat.sub_le pageCnt (bmPages pageCnt)) bound
      unfold bitmapBufSize at whole ⊢
      omega
    rw [bitmapCreateInBuf, if_neg enough, Option.map_some] at made
    cases made
    refine ⟨by omega, Bitmap.bitCnt_setMultiple _ _ _, rfl, fun i inside => ?_⟩
    rw [Bitmap.bitCnt_setMultiple] at inside
    have below : i < pageCnt - bmPages pageCnt := inside
    rw [Bitmap.test_setMultiple, if_pos (by omega)]

theorem pgNo_mul (page : Nat) : pgNo (page * pgSize) = page := Nat.mul_div_cancel page (by decide)

/-- 1 MB is the page 256 after `PHYS_BASE`. -/
theorem freeStart_eq : ∃ first, first = pgNo physBase + 256 ∧ freeStart = first * pgSize :=
  ⟨_, rfl, by decide⟩

theorem freePages_eq (initRamPages : Nat) : freePages initRamPages = initRamPages - 256 := by
  have start : freeStart = physBase + 256 * pgSize := by decide
  have shift : initRamPages * pgSize + physBase - (physBase + 256 * pgSize) = (initRamPages - 256) * pgSize := by
    rw [Nat.sub_mul]
    omega
  unfold freePages ptov
  rw [start, shift]
  exact pgNo_mul _

theorem initPools_some {start kernel user : Nat} {memory : Bool → Nat → BitVec 32} {pools : Pools}
    (made : initPools start kernel user memory = some pools) :
    initPool start kernel (memory false) = some (pools false) ∧
      initPool (start + kernel * pgSize) user (memory true) = some (pools true) := by
  unfold initPools at made
  split at made <;> rename_i kernelMade userMade
  · cases made
    exact ⟨kernelMade, userMade⟩
  · cases made

theorem pallocInit_regions {memory : Bool → Nat → BitVec 32} {pools : Pools} (least : 256 ≤ initRamPages)
    (most : initRamPages < 2 ^ 18) (accepted : pallocInit initRamPages userPageLimit memory = some pools) :
    Regions initRamPages userPageLimit pools ∧
      ∀ user, ∀ i < (pools user).usedMap.bitCnt, (pools user).usedMap.test i = false := by
  have whole : kernelPages initRamPages userPageLimit + userPages initRamPages userPageLimit = initRamPages - 256 := by
    rw [kernelPages, userPages, freePages_eq]
    omega
  obtain ⟨first, firstPage, start⟩ := freeStart_eq
  rw [pallocInit, start] at accepted
  obtain ⟨kernelMade, userMade⟩ := initPools_some accepted
  obtain ⟨kernelRoom, kernelCnt, kernelBase, kernelClear⟩ := initPool_some (by omega) kernelMade
  obtain ⟨userRoom, userCnt, userBase, userClear⟩ := initPool_some (by omega) userMade
  have kernelPage : (pools false).base = (first + bmPages (kernelPages initRamPages userPageLimit)) * pgSize := by
    rw [kernelBase, Nat.add_mul]
  have userPage : (pools true).base = (first + kernelPages initRamPages userPageLimit +
      bmPages (userPages initRamPages userPageLimit)) * pgSize := by
    rw [userBase, Nat.add_mul, Nat.add_mul]
  refine ⟨⟨?_, ?_, ?_, fun user => ?_⟩, fun user => ?_⟩
  · rw [start, kernelPage, pgNo_mul, pgNo_mul]
  · rw [kernelPage, userPage, kernelCnt, pgNo_mul, pgNo_mul]
    omega
  · rw [userPage, userCnt, pgNo_mul]
    omega
  · cases user with
    | false => rw [kernelPage, pgNo_mul]
    | true => rw [userPage, pgNo_mul]
  · cases user with
    | false => exact kernelClear
    | true => exact userClear

end Regions

structure Sound (initRamPages userPageLimit : Nat) (s : State) : Prop where
  regions : Regions initRamPages userPageLimit s.pools
  accounted : ∀ user, Accounted (s.pools user).usedMap.test (s.pools user).usedMap.bitCnt (s.live user)

section Steps
variable {initRamPages userPageLimit : Nat} {s : State}

variable {pools : Pools} {user : Bool}

theorem Regions.setMap (regions : Regions initRamPages userPageLimit pools) {map : Bitmap}
    (same : map.bitCnt = (pools user).usedMap.bitCnt) :
    Regions initRamPages userPageLimit (Function.update pools user { pools user with usedMap := map }) := by
  have base (other : Bool) : (Function.update pools user { pools user with usedMap := map } other).base = (pools other).base := by
    by_cases here : other = user
    · rw [here, Function.update_self]
    · rw [Function.update_of_ne here]
  have bitCnt (other : Bool) : (Function.update pools user { pools user with usedMap := map } other).usedMap.bitCnt =
      (pools other).usedMap.bitCnt := by
    by_cases here : other = user
    · rw [here, Function.update_self]
      exact same
    · rw [Function.update_of_ne here]
  constructor <;> simp only [base, bitCnt]
  · exact regions.kernel
  · exact regions.user
  · exact regions.last
  · exact regions.aligned

theorem Sound.update (sound : Sound initRamPages userPageLimit s) {map : Bitmap} {live : List Run}
    (same : map.bitCnt = (s.pools user).usedMap.bitCnt) (accounted : Accounted map.test map.bitCnt live) :
    Sound initRamPages userPageLimit
      ⟨Function.update s.pools user { s.pools user with usedMap := map }, Function.update s.live user live⟩ := by
  refine ⟨sound.regions.setMap same, fun other => ?_⟩
  by_cases here : other = user
  · subst here
    simp only [Function.update_self]
    exact accounted
  · simp only [Function.update_of_ne here]
    exact sound.accounted other

theorem pallocGetMultiple_cases (pools : Pools) (user : Bool) {pageCnt : Nat} (positive : 0 < pageCnt) :
    (∃ idx, idx + pageCnt ≤ (pools user).usedMap.bitCnt ∧ (∀ i < pageCnt, (pools user).usedMap.test (idx + i) = false) ∧
      pallocGetMultiple pools user pageCnt =
        (Function.update pools user { pools user with usedMap := (pools user).usedMap.setMultiple idx pageCnt true },
          some ((pools user).base + pgSize * idx))) ∨
    pallocGetMultiple pools user pageCnt = (pools, none) ∧
      ∀ start, start + pageCnt ≤ (pools user).usedMap.bitCnt → ∃ i < pageCnt, (pools user).usedMap.test (start + i) = true := by
  unfold pallocGetMultiple bitmapScanAndFlip
  rw [if_neg (by omega)]
  cases scanned : (pools user).usedMap.scan 0 pageCnt false with
  | some idx =>
    obtain ⟨-, fits, free⟩ := Bitmap.scan_some scanned
    exact .inl ⟨idx, fits, free, rfl⟩
  | none =>
    refine .inr ⟨rfl, fun start fits => ?_⟩
    obtain ⟨i, inside, taken⟩ := Bitmap.scan_none scanned (Nat.le_trans (Nat.le_add_left _ _) fits) (Nat.zero_le start) fits
    exact ⟨i, inside, by simpa using taken⟩

theorem get_sound (sound : Sound initRamPages userPageLimit s) {flags : Flags} {pageCnt : Nat} {next : State}
    (taken : step s (.get flags pageCnt) = some next) : Sound initRamPages userPageLimit next := by
  simp only [step] at taken
  by_cases positive : 0 < pageCnt
  · obtain ⟨idx, fits, free, got⟩ | ⟨got, -⟩ := pallocGetMultiple_cases s.pools flags.user positive
    · rw [got] at taken
      cases taken
      have start : ((s.pools flags.user).base + pgSize * idx - (s.pools flags.user).base) / pgSize = idx := by
        rw [Nat.add_sub_cancel_left]
        exact Nat.mul_div_cancel_left idx (by decide)
      rw [start]
      refine sound.update (Bitmap.bitCnt_setMultiple _ _ _) ?_
      rw [Bitmap.bitCnt_setMultiple]
      refine (sound.accounted flags.user).add positive fits (fun i covers => ?_) fun i => Bitmap.test_setMultiple _ _ _ _
      obtain ⟨offset, rfl⟩ := Nat.exists_eq_add_of_le covers.1
      exact free offset (Nat.lt_of_add_lt_add_left covers.2)
    · rw [got] at taken
      split at taken
      · rename_i shape
        cases shape
      · rename_i shape
        cases shape
        split at taken
        · cases taken
        · cases taken
          exact ⟨sound.regions, sound.accounted⟩
  · rw [pallocGetMultiple, if_pos (by omega)] at taken
    dsimp only at taken
    split at taken
    · cases taken
    · cases taken
      exact ⟨sound.regions, sound.accounted⟩

theorem Regions.pgNo_pos (regions : Regions initRamPages userPageLimit pools) (user : Bool) :
    0 < pgNo (pools user).base := by
  have start : 0 < pgNo freeStart := by decide
  have kernel := regions.kernel
  have order := regions.user
  cases user <;> omega

theorem pageFromPool_iff (regions : Regions initRamPages userPageLimit pools) {i : Nat}
    (inside : i < (pools user).usedMap.bitCnt) (other : Bool) :
    pageFromPool (pools other) ((pgNo (pools user).base + i) * pgSize) = true ↔ other = user := by
  have order := regions.user
  unfold pageFromPool
  rw [pgNo_mul, decide_eq_true_eq]
  cases other <;> cases user <;> simp only [reduceCtorEq, iff_false, iff_true] <;> omega

theorem State.address_eq (regions : Regions initRamPages userPageLimit s.pools) (user : Bool) (r : Run) :
    s.address user r = (pgNo (s.pools user).base + r.start) * pgSize := by
  have aligned := regions.aligned user
  rw [State.address, Nat.add_mul, ← aligned, Nat.mul_comm pgSize]

section
variable (sound : Sound initRamPages userPageLimit s)
include sound

/-- A live allocation can be freed, which clears its bits. -/
theorem pallocFreeMultiple_live {r : Run} (live : r ∈ s.live user) :
    pallocFreeMultiple s.pools (s.address user r) r.cnt =
      some (Function.update s.pools user
        { s.pools user with usedMap := (s.pools user).usedMap.setMultiple r.start r.cnt false }) := by
  have positive := (sound.accounted user).positive r live
  have fits := (sound.accounted user).fits r live
  have set : (s.pools user).usedMap.all r.start r.cnt = true := by
    rw [Bitmap.all_iff]
    intro i inside
    exact ((sound.accounted user).bits _ (by omega)).mpr ⟨r, live, by unfold Run.Covers; omega⟩
  have pool (other : Bool) : pageFromPool (s.pools other) (s.address user r) = decide (other = user) := by
    have inside : r.start < (s.pools user).usedMap.bitCnt := by omega
    have belongs := pageFromPool_iff sound.regions inside other
    rw [← State.address_eq sound.regions] at belongs
    rw [Bool.eq_iff_iff, belongs, decide_eq_true_eq]
  have aligned : pgOfs (s.address user r) = 0 := by
    rw [State.address_eq sound.regions]
    exact Nat.mul_mod_left _ _
  have somewhere : s.address user r ≠ 0 := by
    have first := sound.regions.pgNo_pos user
    rw [State.address_eq sound.regions]
    exact Nat.mul_ne_zero (by omega) (by decide)
  have idx : pgNo (s.address user r) - pgNo (s.pools user).base = r.start := by
    rw [State.address_eq sound.regions, pgNo_mul, Nat.add_sub_cancel_left]
  unfold pallocFreeMultiple
  rw [if_neg (by simp [aligned]), if_neg (by omega)]
  dsimp only
  simp only [pool]
  cases user <;> simp [idx, fits, set]

theorem free_sound {r : Run} (live : r ∈ s.live user) :
    ∃ next, step s (.free user r) = some next ∧ Sound initRamPages userPageLimit next ∧
      next = ⟨Function.update s.pools user
        { s.pools user with usedMap := (s.pools user).usedMap.setMultiple r.start r.cnt false },
          Function.update s.live user ((s.live user).erase r)⟩ := by
  simp only [step]
  rw [if_pos live, pallocFreeMultiple_live sound live]
  refine ⟨_, rfl, sound.update (Bitmap.bitCnt_setMultiple _ _ _) ?_, rfl⟩
  rw [Bitmap.bitCnt_setMultiple]
  exact (sound.accounted user).remove live fun i => Bitmap.test_setMultiple _ _ _ _

theorem step_sound {event : Event} {next : State}
    (taken : step s event = some next) : Sound initRamPages userPageLimit next := by
  cases event with
  | get flags pageCnt => exact get_sound sound taken
  | free user r =>
    by_cases live : r ∈ s.live user
    · obtain ⟨made, done, kept, -⟩ := free_sound sound live
      cases done.symm.trans taken
      exact kept
    · simp only [step, if_neg live] at taken
      cases taken
  | freeNothing pages pageCnt =>
    simp only [step] at taken
    split at taken <;> rename_i nothing
    · rw [pallocFreeMultiple, if_neg (by simp [nothing.1]), if_pos nothing.2] at taken
      cases taken
      exact ⟨sound.regions, sound.accounted⟩
    · cases taken

end

end Steps

def State.Holds (s : State) (user : Bool) (r : Run) (page : Nat) : Prop :=
  r ∈ s.live user ∧ ∃ i, r.Covers i ∧ page = pgNo (s.pools user).base + i

structure Allocated (s : State) : Prop where
  /-- An allocation starts at the address the caller got, on a page boundary, and has at least one page. -/
  whole : ∀ user, ∀ r ∈ s.live user, 0 < r.cnt ∧ s.address user r = (pgNo (s.pools user).base + r.start) * pgSize
  disjoint : ∀ user r other q page, s.Holds user r page → s.Holds other q page → user = other ∧ r = q
  inPool : ∀ user r page, s.Holds user r page →
    pgNo (s.pools user).base ≤ page ∧ page < pgNo (s.pools user).base + (s.pools user).usedMap.bitCnt
  attributed : ∀ user r page, s.Holds user r page → ∀ other, pageFromPool (s.pools other) (page * pgSize) = true ↔ other = user
  /-- A page of a pool is available exactly if no allocation holds it. -/
  available : ∀ user, ∀ i < (s.pools user).usedMap.bitCnt, (s.pools user).usedMap.test i = false ↔
    ∀ r, ¬s.Holds user r (pgNo (s.pools user).base + i)
  /-- Freeing a live allocation succeeds and makes its pages available, and no others. -/
  freed : ∀ user, ∀ r ∈ s.live user, ∃ next, step s (.free user r) = some next ∧
    ∀ other i, (next.pools other).usedMap.test i = false ↔
      (s.pools other).usedMap.test i = false ∨ other = user ∧ r.Covers i
  /-- A request is refused only if no run of so many pages is available. -/
  refused : ∀ user pageCnt, 0 < pageCnt → (pallocGetMultiple s.pools user pageCnt).2 = none →
    ∀ start, start + pageCnt ≤ (s.pools user).usedMap.bitCnt → ∃ i < pageCnt, ∃ r,
      s.Holds user r (pgNo (s.pools user).base + start + i)

section Runs
variable {initRamPages userPageLimit : Nat} {s : State}

variable {user : Bool}

section
variable (sound : Sound initRamPages userPageLimit s)
include sound

theorem Sound.inPool {r : Run} {page : Nat} (holds : s.Holds user r page) :
    ∃ i, r.Covers i ∧ i < (s.pools user).usedMap.bitCnt ∧ page = pgNo (s.pools user).base + i := by
  obtain ⟨live, i, covers, rfl⟩ := holds
  exact ⟨i, covers, Nat.lt_of_lt_of_le covers.2 ((sound.accounted user).fits r live), rfl⟩

theorem Sound.disjoint {other : Bool} {r q : Run} {page : Nat}
    (mine : s.Holds user r page) (theirs : s.Holds other q page) : user = other ∧ r = q := by
  obtain ⟨i, covers, inside, here⟩ := sound.inPool mine
  obtain ⟨j, covers', inside', there⟩ := sound.inPool theirs
  -- the page says which pool it is of
  have pools : user = other := by
    rw [← pageFromPool_iff sound.regions inside', ← there, here, pageFromPool_iff sound.regions inside]
  subst pools
  have same : i = j := Nat.add_left_cancel (here.symm.trans there)
  subst same
  refine ⟨rfl, ?_⟩
  by_contra different
  exact (sound.accounted user).apart_of_mem mine.1 theirs.1 different i covers covers'

theorem Sound.taken_iff {i : Nat} (inside : i < (s.pools user).usedMap.bitCnt) :
    (s.pools user).usedMap.test i = true ↔ ∃ r, s.Holds user r (pgNo (s.pools user).base + i) := by
  rw [(sound.accounted user).bits i inside]
  constructor
  · rintro ⟨r, live, covers⟩
    exact ⟨r, live, i, covers, rfl⟩
  · rintro ⟨r, live, j, covers, same⟩
    obtain rfl : i = j := Nat.add_left_cancel same
    exact ⟨r, live, covers⟩

theorem Sound.allocated : Allocated s := by
  refine ⟨fun user r live => ⟨(sound.accounted user).positive r live, State.address_eq sound.regions user r⟩,
    fun user r other q page => sound.disjoint, fun user r page holds => ?_, fun user r page holds other => ?_,
    fun user i inside => ?_, fun user r live => ?_, fun user pageCnt positive refused start fits => ?_⟩
  · obtain ⟨i, -, inside, rfl⟩ := sound.inPool holds
    omega
  · obtain ⟨i, -, inside, rfl⟩ := sound.inPool holds
    exact pageFromPool_iff sound.regions inside other
  · rw [← not_exists, ← sound.taken_iff inside, Bool.not_eq_true]
  · obtain ⟨next, done, -, rfl⟩ := free_sound sound live
    refine ⟨_, done, fun other i => ?_⟩
    by_cases here : other = user
    · subst here
      simp only [Function.update_self, Bitmap.test_setMultiple, true_and]
      change (if r.Covers i then false else _) = false ↔ _ ∨ r.Covers i
      split <;> rename_i covers
      · simp [covers]
      · simp [covers]
    · simp [here]
  · obtain ⟨idx, -, -, got⟩ | ⟨-, full⟩ := pallocGetMultiple_cases s.pools user positive
    · rw [got] at refused
      cases refused
    · obtain ⟨i, inside, taken⟩ := full start fits
      obtain ⟨r, holds⟩ := (sound.taken_iff (by omega)).mp taken
      exact ⟨i, inside, r, by rw [Nat.add_assoc]; exact holds⟩

end

end Runs

/-- For every size of memory and every limit that `palloc_init` accepts: memory is split as described, and the live
allocations are as they should be in every state of every run. -/
theorem palloc_allocates (initRamPages userPageLimit : Nat) (memory : Bool → Nat → BitVec 32) (pools : Pools)
    (events : List Event) (final : State) (least : 256 ≤ initRamPages) (most : initRamPages < 2 ^ 18)
    (accepted : pallocInit initRamPages userPageLimit memory = some pools)
    (ran : run step ⟨pools, fun _ => []⟩ events = some final) :
    Regions initRamPages userPageLimit final.pools ∧ Allocated final := by
  obtain ⟨regions, clear⟩ := pallocInit_regions least most accepted
  have sound : Sound initRamPages userPageLimit final :=
    invariant_of_reached step (Sound initRamPages userPageLimit) (fun _ _ _ sound => step_sound sound)
      ⟨regions, fun user => .empty (clear user)⟩ ran
  exact ⟨sound.regions, sound.allocated⟩

/-- With 260 pages of memory each pool has one page beside that of its bitmap. -/
theorem palloc_allocates_least_memory :
    ∃ pools final, pallocInit 260 1000 (fun _ _ => 0xffffffff#32) = some pools ∧
      run step ⟨pools, fun _ => []⟩ [.get ⟨true, true⟩ 1, .get ⟨false, true⟩ 1, .get ⟨true, false⟩ 1] = some final ∧
        final.live true = [⟨0, 1⟩] ∧ Allocated final := by
  have ends : (pallocInit 260 1000 (fun _ _ => 0xffffffff#32)).any (fun pools =>
      (run step ⟨pools, fun _ => []⟩ [.get ⟨true, true⟩ 1, .get ⟨false, true⟩ 1, .get ⟨true, false⟩ 1]).any fun final =>
        decide (final.live true = [⟨0, 1⟩])) = true := by
    decide +kernel
  obtain ⟨pools, accepted, goes⟩ := (Option.any_eq_true _ _).mp ends
  obtain ⟨final, ran, held⟩ := (Option.any_eq_true _ _).mp goes
  exact ⟨pools, final, accepted, ran, of_decide_eq_true held,
    (palloc_allocates 260 1000 _ pools _ final (by decide) (by decide) accepted ran).2⟩

end Pintos.Threads.Palloc
