import Pintos.Semantics.Clock
import Pintos.Vm.Occupancy

/-! `frame_evict` gives every frame in the clock's range a second chance.

The loop is simulated by the sweep of an abstract clock whose positions are the
indices of the frame table and whose bits are the accessed bits of the pages in
them. Different entries have different pages, so the bit of one is never cleared
for another.
-/

set_option autoImplicit false

namespace Pintos.Vm
open Semantics Computation

variable {s stop : State}

/-- Every entry of the frame table has a user page of some page directory, and no two have the same. -/
structure FullTable (s : State) : Prop where
  upage : ∀ i < totalPages, (s.frameTable i).upage ≠ 0
  aligned : ∀ i < totalPages, pgOfs (s.frameTable i).upage = 0
  user : ∀ i < totalPages, (s.frameTable i).upage < physBase
  pagedir : ∀ i < totalPages, (s.frameTable i).pagedir ≠ 0
  distinct : ∀ i < totalPages, ∀ j < totalPages, (s.frameTable i).pagedir = (s.frameTable j).pagedir →
    (s.frameTable i).upage = (s.frameTable j).upage → i = j

def State.EntryFor (s : State) (i pd va : Nat) : Prop :=
  (s.frameTable i).pagedir = pd ∧ pgNo (s.frameTable i).upage = pgNo va

def State.frameAccessed (s : State) (i : Nat) : Bool := (s.pte (s.frameTable i).pagedir (s.frameTable i).upage).accessed

def evictable : Nat := totalPages - firstEvictable

def clockPosition (start count : Nat) : Nat := firstEvictable + (start - firstEvictable + count) % evictable

def nextFrame (i : Nat) : Nat := if i + 1 = totalPages then firstEvictable else i + 1

/-! ## The order of the clock -/

section Order
variable {start : Nat} (range : firstEvictable ≤ start ∧ start < totalPages)
include range

theorem iterate_nextFrame (count : Nat) : nextFrame^[count] start = clockPosition start count := by
  induction count with
  | zero =>
    simp only [Function.iterate_zero, id_eq, clockPosition, evictable, totalPages, firstEvictable] at range ⊢
    omega
  | succ count ih =>
    rw [Function.iterate_succ_apply', ih]
    unfold nextFrame
    by_cases last : clockPosition start count + 1 = totalPages
    · rw [if_pos last]
      simp only [clockPosition, evictable, totalPages, firstEvictable] at range last ⊢
      omega
    · rw [if_neg last]
      simp only [clockPosition, evictable, totalPages, firstEvictable] at range last ⊢
      omega

theorem clock_round : Round nextFrame start evictable := by
  refine ⟨by decide, ?_, fun i boundI j boundJ same => ?_⟩
  · rw [iterate_nextFrame range]
    simp only [clockPosition, evictable, totalPages, firstEvictable] at range ⊢
    omega
  · rw [iterate_nextFrame range, iterate_nextFrame range] at same
    simp only [clockPosition, evictable, totalPages, firstEvictable] at range same boundI boundJ
    omega

end Order

theorem nextFrame_range {i : Nat} (range : firstEvictable ≤ i ∧ i < totalPages) :
    firstEvictable ≤ nextFrame i ∧ nextFrame i < totalPages := by
  unfold nextFrame
  by_cases last : i + 1 = totalPages
  · rw [if_pos last]
    decide
  · rw [if_neg last]
    omega

theorem clockPosition_range (start count : Nat) :
    firstEvictable ≤ clockPosition start count ∧ clockPosition start count < totalPages := by
  simp only [clockPosition, evictable, totalPages, firstEvictable]
  omega

/-! ## The loop and the sweep -/

theorem FullTable.holds_iff (full : FullTable s) {i j : Nat} (boundI : i < totalPages) (boundJ : j < totalPages) :
    s.EntryFor i (s.frameTable j).pagedir (s.frameTable j).upage ↔ i = j := by
  constructor
  · rintro ⟨pagedir, page⟩
    exact full.distinct i boundI j boundJ pagedir (eq_of_pgNo (full.aligned i boundI) (full.aligned j boundJ) page)
  · rintro rfl
    exact ⟨rfl, rfl⟩

theorem FullTable.of_frameTable {after : State} (full : FullTable s) (same : after.frameTable = s.frameTable) :
    FullTable after := by
  refine ⟨?_, ?_, ?_, ?_, ?_⟩ <;> rw [same]
  · exact full.upage
  · exact full.aligned
  · exact full.user
  · exact full.pagedir
  · exact full.distinct

/-- What one look at an accessed frame leaves: its bit is clear, every other bit is as it was, and
the hand is one further. -/
theorem evictSelect_pass (full : FullTable s) (range : s.clockPointer < totalPages) (fuel : Nat)
    (accessed : s.frameAccessed s.clockPointer = true) :
    ∃ after, evictSelect (fuel + 1) s = evictSelect fuel after ∧ Glanced s after ∧
      after.clockPointer = nextFrame s.clockPointer ∧
      ∀ pd va, (after.pte pd va).accessed =
        if pd = (s.frameTable s.clockPointer).pagedir ∧ pgNo va = pgNo (s.frameTable s.clockPointer).upage then false
        else (s.pte pd va).accessed := by
  have directory := full.pagedir _ range
  obtain ⟨after, cleared, glanced, clock⟩ :=
    pagedirSetAccessed_apply s (s.frameTable s.clockPointer).upage false directory
  obtain ⟨same, cleared', _, _, bits⟩ := setAccessed_false s (s.frameTable s.clockPointer).upage directory
  cases cleared.symm.trans cleared'
  refine ⟨after.advanceClock, ?_, glanced.trans (glanced_advanceClock after), ?_, bits⟩
  · have looked : pagedirIsAccessed (s.frameTable s.clockPointer).pagedir (s.frameTable s.clockPointer).upage s =
        .returned true s := by
      rw [pagedirIsAccessed_apply, if_neg directory]
      exact congrArg (Execution.returned · s) accessed
    rw [evictSelect, bind_get, bind_of_returned looked, if_pos rfl, bind_of_returned cleared, bind_modify]
  · unfold State.advanceClock nextFrame
    rw [clock]

theorem evictSelect_stop (full : FullTable s) (range : s.clockPointer < totalPages) (fuel : Nat)
    (clear : s.frameAccessed s.clockPointer = false) : evictSelect (fuel + 1) s = .returned () s := by
  have looked : pagedirIsAccessed (s.frameTable s.clockPointer).pagedir (s.frameTable s.clockPointer).upage s =
      .returned false s := by
    rw [pagedirIsAccessed_apply, if_neg (full.pagedir _ range)]
    exact congrArg (Execution.returned · s) clear
  rw [evictSelect, bind_get, bind_of_returned looked, if_neg (by decide)]
  rfl

/-- The frame table that the loop leaves: what the clock found and the bits it left. -/
structure Swept (s stop : State) (victim : Nat) (left : Nat → Bool) : Prop where
  glanced : Glanced s stop
  clock : stop.clockPointer = victim
  bits : ∀ i, firstEvictable ≤ i → i < totalPages → stop.frameAccessed i = left i
  others : ∀ pd va, (∀ i, firstEvictable ≤ i → i < totalPages → ¬s.EntryFor i pd va) →
    (stop.pte pd va).accessed = (s.pte pd va).accessed

/-- The loop of `frame_evict` follows the sweep of the abstract clock over the accessed bits. -/
theorem evictSelect_sweep {fuel victim : Nat} {used left : Nat → Bool} (full : FullTable s)
    (range : firstEvictable ≤ s.clockPointer ∧ s.clockPointer < totalPages)
    (reads : ∀ i, firstEvictable ≤ i → i < totalPages → s.frameAccessed i = used i)
    (stops : sweep nextFrame fuel used s.clockPointer = some (victim, left)) :
    ∃ stop, evictSelect fuel s = .returned () stop ∧ Swept s stop victim left := by
  induction fuel generalizing s used with
  | zero => cases stops
  | succ fuel ih =>
    have here := reads _ range.1 range.2
    unfold sweep at stops
    cases bit : used s.clockPointer with
    | false =>
      rw [bit, if_neg (by decide)] at stops
      cases stops
      exact ⟨s, evictSelect_stop full range.2 fuel (here.trans bit), .refl s, rfl, reads, fun _ _ _ => rfl⟩
    | true =>
      rw [bit, if_pos rfl] at stops
      obtain ⟨after, goes, glanced, clock, bits⟩ := evictSelect_pass full range.2 fuel (here.trans bit)
      have table := glanced.frameTable
      rw [← clock] at stops
      have range' : firstEvictable ≤ after.clockPointer ∧ after.clockPointer < totalPages := by
        rw [clock]
        exact nextFrame_range range
      have reads' : ∀ i, firstEvictable ≤ i → i < totalPages →
          after.frameAccessed i = Function.update used s.clockPointer false i := by
        intro i low bound
        unfold State.frameAccessed
        rw [table, bits]
        by_cases same : i = s.clockPointer
        · subst same
          rw [if_pos ⟨rfl, rfl⟩, Function.update_self]
        · have apart := fun equal => same ((full.holds_iff bound range.2).mp equal)
          rw [if_neg fun equal => apart ⟨equal.1, equal.2⟩, Function.update_of_ne same]
          exact reads i low bound
      obtain ⟨stop, selected, swept⟩ := ih (full.of_frameTable table) range' reads' stops
      refine ⟨stop, goes.trans selected, glanced.trans swept.glanced, swept.clock, swept.bits, fun pd va outside => ?_⟩
      rw [swept.others pd va fun i low bound entry => outside i low bound ?_, bits, if_neg]
      · rintro ⟨pagedir, page⟩
        exact outside _ range.1 range.2 ⟨pagedir.symm, page.symm⟩
      · unfold State.EntryFor at entry
        rw [table] at entry
        exact entry

/-! ## The victim -/

/-- What `frame_evict` has done when it returns `kpage`, having passed over `passed` frames. -/
structure ChanceGiven (s : State) (passed kpage : Nat) (final : State) : Prop where
  within : passed ≤ evictable
  accessed : ∀ k < passed, s.frameAccessed (clockPosition s.clockPointer k) = true
  victim : passed < evictable → s.frameAccessed (clockPosition s.clockPointer passed) = false
  start : passed = evictable → clockPosition s.clockPointer passed = s.clockPointer
  frame : kpage = (s.frameTable (clockPosition s.clockPointer passed)).kpage
  cleared : ∀ k < passed, ∀ pd va, s.EntryFor (clockPosition s.clockPointer k) pd va →
    (final.pte pd va).accessed = false
  kept : ∀ pd va, (∀ k < passed, ¬s.EntryFor (clockPosition s.clockPointer k) pd va) →
    (final.pte pd va).accessed = (s.pte pd va).accessed
  unmapped : ∀ pd va, s.EntryFor (clockPosition s.clockPointer passed) pd va → (final.pte pd va).present = false
  mapped : ∀ pd va, ¬s.EntryFor (clockPosition s.clockPointer passed) pd va →
    (final.pte pd va).present = (s.pte pd va).present ∧ (final.pte pd va).page = (s.pte pd va).page ∧
      (final.pte pd va).writable = (s.pte pd va).writable
  vacated : final.frameTable (clockPosition s.clockPointer passed) = { kpage := kpage }
  entries : ∀ i, i ≠ clockPosition s.clockPointer passed → final.frameTable i = s.frameTable i
  clock : final.clockPointer = clockPosition s.clockPointer (passed + 1)

theorem Swept.accessed {passed : Nat} (full : FullTable s)
    (range : firstEvictable ≤ s.clockPointer ∧ s.clockPointer < totalPages)
    (swept : Swept s stop (clockPosition s.clockPointer passed)
      (passedOver nextFrame s.frameAccessed s.clockPointer passed)) (pd va : Nat) :
    (stop.pte pd va).accessed = true ↔
      (s.pte pd va).accessed = true ∧ ∀ k < passed, ¬s.EntryFor (clockPosition s.clockPointer k) pd va := by
  by_cases inside : ∃ i, firstEvictable ≤ i ∧ i < totalPages ∧ s.EntryFor i pd va
  · obtain ⟨i, low, bound, rfl, page⟩ := inside
    have entry : ∀ state : State, state.pte (s.frameTable i).pagedir va =
        state.pte (s.frameTable i).pagedir (s.frameTable i).upage :=
      fun state => Pagedir.pte_eq_of_pgNo _ page.symm
    have bit := swept.bits i low bound
    unfold State.frameAccessed at bit
    rw [swept.glanced.frameTable] at bit
    have only : ∀ k, s.EntryFor (clockPosition s.clockPointer k) (s.frameTable i).pagedir va ↔
        nextFrame^[k] s.clockPointer = i := by
      intro k
      rw [iterate_nextFrame range, ← full.holds_iff (clockPosition_range _ k).2 bound]
      unfold State.EntryFor
      rw [page]
    rw [entry stop, entry s, bit]
    simp only [passedOver, Bool.and_eq_true, Bool.not_eq_true', decide_eq_false_iff_not, only,
      not_exists, not_and]
  · have outside : ∀ i, firstEvictable ≤ i → i < totalPages → ¬s.EntryFor i pd va :=
      fun i low bound entry => inside ⟨i, low, bound, entry⟩
    rw [swept.others pd va outside]
    refine ⟨fun set => ⟨set, fun k _ => ?_⟩, And.left⟩
    exact outside _ (clockPosition_range _ k).1 (clockPosition_range _ k).2

/-- With every frame in use and a free swap slot, `frame_evict` returns, and its victim is the one
that second chance picks. -/
theorem frame_evict_second_chance (full : FullTable s)
    (range : firstEvictable ≤ s.clockPointer ∧ s.clockPointer < totalPages) (available : s.freeSlot.isSome = true) :
    ∃ passed kpage final, frameEvict s = .returned kpage final ∧ ChanceGiven s passed kpage final := by
  obtain ⟨passed, chance, stops⟩ :=
    sweep_stops s.frameAccessed (clock_round range) (by decide : evictable < evictFuel)
  rw [iterate_nextFrame range] at stops
  obtain ⟨stop, selected, swept⟩ := evictSelect_sweep full range (fun _ _ _ => rfl) stops
  have table := swept.glanced.frameTable
  have clock := swept.clock
  obtain ⟨slot, free⟩ := Option.isSome_iff_exists.mp available
  have free' : stop.freeSlot = some slot := by
    unfold State.freeSlot at free ⊢
    rw [swept.glanced.slots, swept.glanced.freeBitmap]
    exact free
  have bound := (clockPosition_range s.clockPointer passed).2
  have valid : pgOfs (stop.frameTable stop.clockPointer).upage = 0 ∧
      (stop.frameTable stop.clockPointer).upage < physBase ∧ (stop.frameTable stop.clockPointer).pagedir ≠ 0 := by
    rw [table, clock]
    exact ⟨full.aligned _ bound, full.user _ bound, full.pagedir _ bound⟩
  have done := frameEvict_of_select selected
  rw [if_pos valid, free'] at done
  have bits : ∀ pd va, ((stop.pageOut slot).pte pd va).accessed = (stop.pte pd va).accessed := by
    intro pd va
    rw [pte_pageOut]
    split <;> rfl
  have reached := swept.accessed full range
  refine ⟨passed, _, _, done, ?_⟩
  constructor
  case within => exact chance.within
  case accessed =>
    intro k less
    rw [← iterate_nextFrame range]
    exact chance.passed k less
  case victim =>
    intro less
    rw [← iterate_nextFrame range]
    exact chance.victim less
  case start =>
    rintro rfl
    rw [← iterate_nextFrame range]
    exact (clock_round range).closed
  case frame => rw [table, clock]
  case cleared =>
    intro k less pd va entry
    rw [bits, ← Bool.not_eq_true, reached]
    exact fun both => both.2 k less entry
  case kept =>
    intro pd va outside
    rw [bits, Bool.eq_iff_iff, reached]
    exact ⟨And.left, fun set => ⟨set, outside⟩⟩
  case unmapped =>
    rintro pd va ⟨rfl, page⟩
    rw [pte_pageOut, table, clock, if_pos ⟨rfl, page.symm⟩]
  case mapped =>
    intro pd va other
    rw [pte_pageOut, table, clock, if_neg fun same => other ⟨same.1.symm, same.2.symm⟩]
    exact ⟨swept.glanced.present pd va, swept.glanced.page pd va, swept.glanced.writable pd va⟩
  case vacated =>
    rw [← clock]
    exact pageOut_frame_self
  case entries =>
    intro i other
    rw [← clock] at other
    rw [pageOut_frame_other other, table]
  case clock =>
    rw [pageOut_eq, ← iterate_nextFrame range, Function.iterate_succ_apply', iterate_nextFrame range, ← clock]
    rfl

def fullState : State :=
  { bootState 0 with
    frameTable := fun i => { kpage := physBase + pgSize * i, upage := pgSize * (i + 1), pagedir := 5, pagePointer := i + 1 }
    pagedirs := fun _ => ⟨fun _ => some fun i => { present := true, accessed := i % 2 == 1 }⟩
    clockPointer := totalPages - 1 }

theorem fullState_full : FullTable fullState := by
  refine ⟨fun i _ => ?_, fun i _ => ?_, fun i bound => ?_, fun i _ => ?_, fun i _ j _ _ same => ?_⟩
  · simp [fullState, pgSize]
  · simp [fullState, pgOfs]
  · simp only [fullState, physBase, pgSize, totalPages] at bound ⊢
    omega
  · simp [fullState]
  · simp only [fullState, pgSize] at same
    omega

theorem frame_evict_wraps :
    FullTable fullState ∧ ∃ passed kpage final, frameEvict fullState = .returned kpage final ∧
      ChanceGiven fullState passed kpage final :=
  ⟨fullState_full, frame_evict_second_chance fullState_full (by decide) (by decide)⟩

end Pintos.Vm
