import Pintos.Vm.Residency

/-! Swap slots and the pages that are in them, over every move.

A page in swap has a slot of its own, unless its process died while the page was
being read back. `Slots` holds in every run; that every used slot also has a
page is `Accounted`, which a process that exits with pages in swap breaks.
-/

set_option autoImplicit false

namespace Pintos.Vm
open Semantics

variable {s : State} {m : Move}

structure HasSlot (s : State) (t p slot : Nat) : Prop where
  owned : s.Owns t p
  located : (s.pages p).location = .inSwap
  sector : (s.pages p).swapLocation = slot * 8

structure Slots (s : State) : Prop where
  placed : ∀ {t p}, s.Owns t p → (s.pages p).location = .inSwap →
    (∃ slot, HasSlot s t p slot) ∨ ((s.pages p).swapLocation = noSlot ∧ (s.threads t).phase ≠ .running)
  used : ∀ {t p slot}, HasSlot s t p slot → slot < s.slots ∧ s.freeBitmap slot = true
  exclusive : ∀ {t u p q slot}, HasSlot s t p slot → HasSlot s u q slot → p = q

theorem noSlot_ne (slot : Nat) : slot * 8 ≠ noSlot := by
  unfold noSlot
  omega

variable {after : State} {slot t p : Nat}

theorem Slots.of_fewer (slots : Slots s) (size : after.slots = s.slots)
    (kept : ∀ {t p}, after.Owns t p → (after.pages p).location = .inSwap → (s.Owns t p ∧ (s.pages p).location = .inSwap ∧ (after.pages p).swapLocation = (s.pages p).swapLocation ∧ ((after.threads t).phase = .running → (s.threads t).phase = .running)) ∨ ((after.pages p).swapLocation = noSlot ∧ (after.threads t).phase ≠ .running))
    (bits : ∀ {t p slot}, HasSlot s t p slot → HasSlot after t p slot → after.freeBitmap slot = s.freeBitmap slot) :
    Slots after := by
  have older : ∀ {t p slot}, HasSlot after t p slot → HasSlot s t p slot := by
    intro t p slot has
    rcases kept has.owned has.located with ⟨owned, located, sector, _⟩ | ⟨none, _⟩
    · exact ⟨owned, located, sector ▸ has.sector⟩
    · exact absurd (has.sector.symm.trans none) (noSlot_ne slot)
  constructor
  case placed =>
    intro t p owned located
    rcases kept owned located with ⟨owned', located', sector, running⟩ | none
    · rcases slots.placed owned' located' with ⟨slot, has⟩ | ⟨none, ended⟩
      · exact Or.inl ⟨slot, owned, located, sector.trans has.sector⟩
      · exact Or.inr ⟨sector.trans none, fun run => ended (running run)⟩
    · exact Or.inr none
  case used =>
    intro t p slot has
    rw [size, bits (older has) has]
    exact slots.used (older has)
  case exclusive => exact fun first second => slots.exclusive (older first) (older second)

theorem Slots.of_same (slots : Slots s) (same : SameTables s after)
    (location : ∀ p, (after.pages p).location = .inSwap → (s.pages p).location = .inSwap)
    (sector : ∀ p, (after.pages p).swapLocation = (s.pages p).swapLocation) (bits : after.freeBitmap = s.freeBitmap)
    (size : after.slots = s.slots) : Slots after :=
  slots.of_fewer size
    (fun owned located => Or.inl ⟨same.owns.mp owned, location _ located, sector _, same.running _⟩)
    (fun _ _ => by rw [bits])

/-! ## Eviction -/

theorem freeSlot_some (found : s.freeSlot = some slot) : slot < s.slots ∧ s.freeBitmap slot = false := by
  unfold State.freeSlot at found
  have here := List.find?_some found
  have member := List.mem_of_find?_eq_some found
  exact ⟨List.mem_range.mp member, by simpa using here⟩

theorem pageOut_freeBitmap (s : State) (slot : Nat) :
    (s.pageOut slot).freeBitmap = Function.update s.freeBitmap slot true := by
  rw [pageOut_eq]

/-- Slots after an eviction: the victim has the new one, other pages keep theirs. -/
theorem hasSlot_pageOut {other : Nat} (has : HasSlot (s.pageOut slot) t p other) :
    (p = (s.frameTable s.clockPointer).pagePointer ∧ other = slot) ∨
      (p ≠ (s.frameTable s.clockPointer).pagePointer ∧ HasSlot s t p other) := by
  by_cases victim : p = (s.frameTable s.clockPointer).pagePointer
  · have sector := has.sector
    rw [victim, pageOut_page_self] at sector
    exact Or.inl ⟨victim, by simp only at sector; omega⟩
  · have same : (s.pageOut slot).pages p = s.pages p := pageOut_page_other victim
    exact Or.inr ⟨victim, owns_pageOut.mp has.owned, same ▸ has.located, same ▸ has.sector⟩

theorem Slots.pageOut (slots : Slots s) (found : s.freeSlot = some slot) : Slots (s.pageOut slot) := by
  obtain ⟨bound, free⟩ := freeSlot_some found
  have taken : ∀ {t p other}, HasSlot s t p other → other ≠ slot := by
    rintro t p other has rfl
    rw [(slots.used has).2] at free
    cases free
  have size : (s.pageOut slot).slots = s.slots := by rw [pageOut_eq]
  constructor
  case placed =>
    intro t p owned located
    by_cases victim : p = (s.frameTable s.clockPointer).pagePointer
    · refine Or.inl ⟨slot, owned, located, ?_⟩
      rw [victim, pageOut_page_self]
    · rw [pageOut_page_other victim] at located ⊢
      rw [pageOut_threads]
      rcases slots.placed (owns_pageOut.mp owned) located with ⟨other, has⟩ | none
      · refine Or.inl ⟨other, owned, ?_, ?_⟩
        · rw [pageOut_page_other victim]; exact located
        · rw [pageOut_page_other victim]; exact has.sector
      · exact Or.inr none
  case used =>
    intro t p other has
    rw [pageOut_freeBitmap, size]
    rcases hasSlot_pageOut has with ⟨_, rfl⟩ | ⟨_, before⟩
    · exact ⟨bound, Function.update_self _ _ _⟩
    · rw [Function.update_of_ne (taken before)]
      exact slots.used before
  case exclusive =>
    intro t u p q other first second
    rcases hasSlot_pageOut first with ⟨victim, rfl⟩ | ⟨_, before⟩ <;>
      rcases hasSlot_pageOut second with ⟨victim', isSlot⟩ | ⟨_, before'⟩
    · exact victim.trans victim'.symm
    · exact absurd rfl (taken before')
    · exact absurd isSlot (taken before)
    · exact slots.exclusive before before'

/-! ## Other moves -/

theorem slotFreed_page_other (s : State) (p : Nat) (location : Location) {q : Nat} (different : q ≠ p) :
    (s.slotFreed p location).pages q = s.pages q :=
  Function.update_of_ne different _ _

theorem slotFreed_page_self (s : State) (p : Nat) (location : Location) :
    (s.slotFreed p location).pages p = { s.pages p with swapLocation := noSlot, location := location } :=
  Function.update_self _ _ _

theorem HasSlot.slotFreed_bits (has : HasSlot s t p slot) (location : Location) :
    (s.slotFreed p location).freeBitmap = Function.update s.freeBitmap slot false := by
  unfold State.slotFreed
  rw [has.sector, Nat.mul_div_cancel _ (by decide)]
  rfl

theorem Slots.slotFreed (slots : Slots s) (has : HasSlot s t p slot) (tables : Tables s) {location : Location}
    (allowed : location ≠ .inSwap ∨ (s.threads t).phase ≠ .running) :
    Slots (s.slotFreed p location) := by
  have same := SameTables.slotFreed s p location
  refine slots.of_fewer rfl (fun {u q} owned located => ?_) (fun {u q other} before after => ?_)
  · by_cases here : q = p
    · subst here
      rw [slotFreed_page_self] at located ⊢
      have isOwner := tables.owner (same.owns.mp owned) has.owned
      subst isOwner
      rcases allowed with outside | ended
      · exact absurd located outside
      · exact Or.inr ⟨rfl, ended⟩
    · rw [slotFreed_page_other s p location here] at located ⊢
      exact Or.inl ⟨same.owns.mp owned, located, rfl, same.running u⟩
  · have different : other ≠ slot := by
      rintro rfl
      have here := slots.exclusive before has
      subst here
      have sector := after.sector
      rw [slotFreed_page_self] at sector
      exact noSlot_ne other sector.symm
    rw [has.slotFreed_bits, Function.update_of_ne different]

theorem Slots.installed (slots : Slots s) (t p i : Nat) : Slots (s.installed t p i) := by
  refine slots.of_same (.installed s t p i) (fun q located => ?_) (fun q => ?_) rfl rfl
  · by_cases here : q = p
    · subst here
      rw [installed_page_self] at located
      cases located
    · rw [installed_page_other s t p i here] at located
      exact located
  · by_cases here : q = p
    · subst here
      rw [installed_page_self]
    · rw [installed_page_other s t p i here]

theorem Slots.built (slots : Slots s) (tables : Tables s) {page : Page} (outside : page.location ≠ .inSwap) :
    Slots (s.built t page) := by
  have size : (s.built t page).slots = s.slots := by rw [built_eq]
  have bits : (s.built t page).freeBitmap = s.freeBitmap := by rw [built_eq]
  refine slots.of_fewer size (fun {u q} owned located => ?_) (fun _ _ => by rw [bits])
  rcases (owns_built tables t page u q).mp owned with older | ⟨_, rfl, _⟩
  · rw [built_old tables t page older] at located ⊢
    exact Or.inl ⟨older, located, rfl, fun run => (built_thread tables t page u).1 ▸ run⟩
  · rw [built_new] at located
    exact absurd located outside

theorem Slots.clear (slots : Slots s) (p : Nat) : Slots (s.clearPage p) := by
  rw [clearPage_eq]
  split <;> rename_i inFrame
  · have cleared : Slots (s.setPage p { s.pages p with kpage := 0, location := .cleared }) := by
      refine slots.of_same (.setPage rfl rfl) (fun q located => ?_) (fun q => ?_) rfl rfl
      · by_cases here : q = p
        · simp [here] at located
        · simpa [here] using located
      · by_cases here : q = p
        · simp [here]
        · simp [here]
    exact cleared.of_same (.of_eq rfl rfl rfl rfl) (fun _ located => located) (fun _ => rfl) rfl rfl
  · exact slots

theorem Replaced.slots {value : Thread} (replaced : Replaced s after t value) (slots : Slots s)
    (bits : after.freeBitmap = s.freeBitmap) (size : after.slots = s.slots) : Slots after := by
  refine slots.of_fewer size (fun {u q} owned located => ?_) (fun _ _ => by rw [bits])
  obtain ⟨different, older⟩ := replaced.owns.mp owned
  rw [replaced.pages] at located ⊢
  rw [replaced.other different]
  exact Or.inl ⟨older, located, rfl, fun run => run⟩

theorem Slots.hasSlot (slots : Slots s) (running : (s.threads t).phase = .running) (owned : s.Owns t p)
    (located : (s.pages p).location = .inSwap) : ∃ slot, HasSlot s t p slot := by
  rcases slots.placed owned located with has | ⟨_, ended⟩
  · exact has
  · exact absurd running ended

theorem HasSlot.filled (has : HasSlot s t p slot) {kpage : Nat} {bytes : Nat → UInt8} :
    HasSlot (s.setRam kpage bytes) t p slot :=
  ⟨has.owned, has.located, has.sector⟩

theorem Slots.fetched (slots : Slots s) (tables : Tables s) {i : Nat} (running : (s.threads t).phase = .running)
    (owned : s.Owns t p) (located : (s.pages p).location = .inSwap) : Slots (s.fetched p i .cleared) := by
  obtain ⟨slot, has⟩ := slots.hasSlot running owned located
  have filled : ∀ bytes, Slots (s.setRam (s.frameTable i).kpage bytes) := fun _ =>
    slots.of_same (.of_eq rfl rfl rfl rfl) (fun _ there => there) (fun _ => rfl) rfl rfl
  exact (filled _).slotFreed has.filled (tables.of_same (.of_eq rfl rfl rfl rfl)) (Or.inl (by decide))

theorem Slots.act (slots : Slots s) (tables : Tables s) (fits : m.Fits s) : Slots (s.act m) := by
  cases m with
  | glance | fill | store | unmatched =>
    exact slots.of_same (.of_eq rfl rfl rfl rfl) (fun _ located => located) (fun _ => rfl) rfl rfl
  | pageOut slot => exact slots.pageOut fits.2.2
  | fileIn t p i bytes =>
    have filled : Slots (s.setRam (s.frameTable i).kpage bytes) :=
      slots.of_same (.of_eq rfl rfl rfl rfl) (fun _ located => located) (fun _ => rfl) rfl rfl
    exact filled.installed t p i
  | swapIn t p i => exact (slots.fetched tables fits.1.running fits.1.owned fits.2).installed t p i
  | growIn t upage i => exact (slots.built tables fits.1.slot).installed t s.nextPage i
  | ending t status =>
    exact slots.of_same (.ending fits status) (fun _ located => located) (fun _ => rfl) rfl rfl
  | drop p =>
    obtain ⟨t, exiting, owned, located, given⟩ := fits
    rcases slots.placed owned located with ⟨slot, has⟩ | ⟨none, _⟩
    · exact slots.slotFreed has tables (Or.inr (by rw [exiting]; decide))
    · exact absurd none given
  | build t page => exact slots.built tables fits.slot
  | clear p => exact slots.clear p
  | leave t => exact (replaced_left s t).slots slots (by rw [left_eq]) (by rw [left_eq])
  | spawn t pagedir =>
    have eq := spawn_eq s t fits.2.1
    exact (replaced_spawn s t fits.2.1).slots slots (by rw [eq]) (by rw [eq])
  | stillborn t =>
    have eq := stillborn_eq s t
    exact (replaced_stillborn s t).slots slots (by rw [eq]) (by rw [eq])
  | enter t esp =>
    exact slots.of_same (.setThread rfl rfl Iff.rfl fun run => run) (fun _ located => located) (fun _ => rfl) rfl rfl

end Pintos.Vm
