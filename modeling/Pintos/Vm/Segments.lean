import Pintos.Vm.Events

/-! The pages that `load_segment` makes of a program header (`userprog/process.c`).

What `validate_segment` accepts leaves no room for a wrapped size or address, so
the loop makes one entry for each page between the two ends of the segment. The
file offset is another matter: it goes on with the pages and is stored in 32
bits, whatever the length of the file.
-/

set_option autoImplicit false

namespace Pintos.Vm
open Semantics Computation

variable {phdr : Phdr} {fileLength : Nat}

/-! ## Accepted headers -/

/-- What `validate_segment` has made sure of, with sums that do not wrap. -/
structure Accepted (phdr : Phdr) (fileLength : Nat) : Prop where
  congruent : pgOfs phdr.offset = pgOfs phdr.vaddr
  offset : phdr.offset ≤ fileLength
  filesz : phdr.filesz ≤ phdr.memsz
  nonempty : 0 < phdr.memsz
  bottom : pgSize ≤ phdr.vaddr
  top : phdr.vaddr + phdr.memsz < physBase

theorem validateSegment_iff : validateSegment phdr fileLength = true ↔ Accepted phdr fileLength := by
  have vaddr : phdr.vaddr < 2 ^ 32 := UInt32.toNat_lt _
  have memsz : phdr.memsz < 2 ^ 32 := UInt32.toNat_lt _
  simp only [validateSegment, Bool.and_eq_true, beq_iff_eq, bne_iff_ne, decide_eq_true_eq, isUserVaddr]
  unfold ptrAdd
  constructor
  · rintro ⟨⟨⟨⟨⟨⟨⟨congruent, offset⟩, filesz⟩, nonempty⟩, user⟩, top⟩, order⟩, bottom⟩
    refine ⟨congruent, offset, filesz, by omega, bottom, ?_⟩
    simp only [physBase] at *
    omega
  · rintro ⟨congruent, offset, filesz, nonempty, bottom, top⟩
    simp only [physBase] at *
    refine ⟨⟨⟨⟨⟨⟨⟨congruent, offset⟩, filesz⟩, ?_⟩, ?_⟩, ?_⟩, ?_⟩, bottom⟩ <;> omega

def Phdr.pageCnt (phdr : Phdr) : Nat := (pgOfs phdr.vaddr + phdr.memsz + (pgSize - 1)) / pgSize

namespace Accepted
variable (accepted : Accepted phdr fileLength)
include accepted

theorem pageCnt_pos : 0 < phdr.pageCnt := by
  have nonempty := accepted.nonempty
  unfold Phdr.pageCnt
  simp only [pgSize]
  omega

/-- The pages cover the segment, from its first page to the end of its last one. -/
theorem covers : pgSize ≤ pgRoundDown phdr.vaddr ∧ phdr.vaddr + phdr.memsz ≤ pgRoundDown phdr.vaddr + pgSize * phdr.pageCnt ∧
    pgRoundDown phdr.vaddr + pgSize * phdr.pageCnt < phdr.vaddr + phdr.memsz + pgSize ∧
    pgRoundDown phdr.vaddr + pgSize * phdr.pageCnt ≤ physBase := by
  have bottom := accepted.bottom
  have top := accepted.top
  unfold Phdr.pageCnt pgRoundDown pgOfs
  simp only [pgSize, physBase] at *
  omega

theorem readBytes : phdr.readBytes = if 0 < phdr.filesz then pgOfs phdr.vaddr + phdr.filesz else 0 := by
  have filesz := accepted.filesz
  have top := accepted.top
  unfold Phdr.readBytes ptrAdd pgOfs
  simp only [pgSize, physBase] at *
  split <;> omega

/-- The first page of a segment of a file is at an offset that fits an `off_t`. -/
theorem first_offset (short : fileLength < 2 ^ 31) : pgRoundDown phdr.offset < 2 ^ 31 :=
  Nat.lt_of_le_of_lt ((pgRoundDown_le _).trans accepted.offset) short

theorem total : phdr.readBytes + phdr.zeroBytes = pgSize * phdr.pageCnt := by
  have filesz := accepted.filesz
  have top := accepted.top
  have read := accepted.readBytes
  unfold Phdr.zeroBytes roundUp ptrAdd ptrSub
  rw [read]
  unfold Phdr.pageCnt pgOfs
  simp only [pgSize, physBase] at *
  split <;> omega

end Accepted

/-! ## The loop -/

/-- The entry for the page with the given number, counted from `upage` on. -/
def pageEntry (file pagedir : Nat) (writable : Bool) (ofs upage readBytes k : Nat) : Page :=
  segmentEntry (upage + pgSize * k) file pagedir ((ofs + pgSize * k) % 2 ^ 32) (min pgSize (readBytes - pgSize * k))
    (pgSize - min pgSize (readBytes - pgSize * k)) writable

def pageEntries (file pagedir : Nat) (writable : Bool) (ofs upage readBytes cnt : Nat) : List Page :=
  (List.range cnt).map (pageEntry file pagedir writable ofs upage readBytes)

def pageBuildWithin (room : Nat) (page : Page) : Kernel Nat := do
  assert (room != 0)
  pageBuild page

def loadLoopWithin (cur file : Nat) (writable : Bool) : Nat → Nat → Nat → Nat → Nat → Nat → Kernel Unit
  | 0, _, _, _, _, _ => stop .diverge
  | fuel + 1, room, ofs, upage, readBytes, zeroBytes => do
    if 0 < readBytes ∨ 0 < zeroBytes then
      let pageReadBytes := if readBytes < pgSize then readBytes else pgSize
      let pageZeroBytes := pgSize - pageReadBytes
      let s ← get
      let entry ← pageBuildWithin room {
        upage := upage, file := file, writable := writable, pageReadBytes := pageReadBytes,
        pageZeroBytes := pageZeroBytes, location := .inFilesys, ofs := ofs, pagedir := (s.threads cur).pagedir }
      modify fun s => s.pageAdd cur entry
      loadLoopWithin cur file writable fuel (room - 1) (ptrAdd ofs pgSize) (ptrAdd upage pgSize)
        (readBytes - pageReadBytes) (ptrSub zeroBytes pageZeroBytes)

def loadSegmentWithin (room cur file ofs upage readBytes zeroBytes : Nat) (writable : Bool) : Kernel Unit := do
  assert (ptrAdd readBytes zeroBytes % pgSize == 0)
  assert (pgOfs upage == 0)
  assert (ofs % pgSize == 0)
  assert (ofs < 2 ^ 31)
  loadLoopWithin cur file writable ((readBytes + zeroBytes) / pgSize + 1) room ofs upage readBytes zeroBytes

theorem pageAdd_pagedir (s : State) (cur page t : Nat) : ((s.pageAdd cur page).threads t).pagedir = (s.threads t).pagedir := by
  unfold State.pageAdd
  split
  · rfl
  · by_cases same : t = cur
    · subst same
      simp
    · simp [same]

theorem built_pagedir (s : State) (cur : Nat) (page : Page) (t : Nat) :
    ((s.built cur page).threads t).pagedir = (s.threads t).pagedir := pageAdd_pagedir _ _ _ _

/-- The first entry is that of the page at `upage`; the others are those of the rest. -/
theorem pageEntries_succ (file pagedir : Nat) (writable : Bool) {ofs : Nat} (upage readBytes cnt : Nat) (small : ofs < 2 ^ 32) :
    pageEntries file pagedir writable ofs upage readBytes (cnt + 1) =
      segmentEntry upage file pagedir ofs (min pgSize readBytes) (pgSize - min pgSize readBytes) writable ::
        pageEntries file pagedir writable (ptrAdd ofs pgSize) (upage + pgSize) (readBytes - pgSize) cnt := by
  unfold pageEntries
  rw [List.range_succ_eq_map, List.map_cons, List.map_map]
  congr 1
  · unfold pageEntry
    rw [Nat.mul_zero, Nat.add_zero, Nat.add_zero, Nat.sub_zero, Nat.mod_eq_of_lt small]
  · refine List.map_congr_left fun k _ => ?_
    have offset : (ofs + pgSize * (k + 1)) % 2 ^ 32 = (ptrAdd ofs pgSize + pgSize * k) % 2 ^ 32 := by
      unfold ptrAdd
      rw [Nat.mod_add_mod, Nat.mul_succ]
      congr 1
      omega
    have address : upage + pgSize * (k + 1) = upage + pgSize + pgSize * k := by
      rw [Nat.mul_succ]
      omega
    have rest : readBytes - pgSize * (k + 1) = readBytes - pgSize - pgSize * k := by
      rw [Nat.mul_succ]
      omega
    simp only [Function.comp, pageEntry, offset, address, rest]

/-- With whole pages below `PHYS_BASE`, the loop builds and adds the entry of each page in turn. -/
theorem loadLoopWithin_eq {cur file cnt : Nat} {writable : Bool} (fuel room ofs upage readBytes zeroBytes : Nat) (s : State)
    (whole : readBytes + zeroBytes = pgSize * cnt) (enough : cnt < fuel) (top : upage + pgSize * cnt ≤ physBase)
    (small : ofs < 2 ^ 32) :
    if cnt ≤ room then
      loadLoopWithin cur file writable fuel room ofs upage readBytes zeroBytes s =
        .returned () ((pageEntries file (s.threads cur).pagedir writable ofs upage readBytes cnt).foldl
          (fun here page => here.built cur page) s)
    else ∃ final, loadLoopWithin cur file writable fuel room ofs upage readBytes zeroBytes s = .stopped .panic final := by
  induction cnt generalizing fuel room ofs upage readBytes zeroBytes s with
  | zero =>
    obtain ⟨fuel, rfl⟩ := Nat.exists_eq_succ_of_ne_zero (Nat.ne_of_gt enough)
    have nothing : ¬(0 < readBytes ∨ 0 < zeroBytes) := by
      rw [Nat.mul_zero] at whole
      omega
    rw [if_pos (Nat.zero_le _), loadLoopWithin, if_neg nothing]
    rfl
  | succ cnt ih =>
    obtain ⟨fuel, rfl⟩ := Nat.exists_eq_succ_of_ne_zero (Nat.ne_of_gt (Nat.lt_of_le_of_lt (Nat.zero_le _) enough))
    have more : 0 < readBytes ∨ 0 < zeroBytes := by
      simp only [pgSize] at whole
      omega
    have read : (if readBytes < pgSize then readBytes else pgSize) = min pgSize readBytes := by
      split <;> omega
    rw [loadLoopWithin, if_pos more, bind_get, read]
    cases room with
    | zero =>
      rw [if_neg (by omega)]
      exact ⟨s, rfl⟩
    | succ room =>
      have advance : ptrAdd upage pgSize = upage + pgSize := by
        unfold ptrAdd
        simp only [pgSize, physBase] at top ⊢
        omega
      have rest : readBytes - min pgSize readBytes = readBytes - pgSize := by omega
      have zero : ptrSub zeroBytes (pgSize - min pgSize readBytes) = zeroBytes - (pgSize - min pgSize readBytes) := by
        unfold ptrSub
        simp only [pgSize, physBase] at top whole ⊢
        omega
      have whole' : readBytes - pgSize + (zeroBytes - (pgSize - min pgSize readBytes)) = pgSize * cnt := by
        simp only [pgSize] at whole ⊢
        omega
      have top' : upage + pgSize + pgSize * cnt ≤ physBase := by
        rw [Nat.mul_succ] at top
        omega
      have later := ih fuel room (ptrAdd ofs pgSize) _ _ _
        (s.built cur (segmentEntry upage file (s.threads cur).pagedir ofs (min pgSize readBytes)
          (pgSize - min pgSize readBytes) writable)) whole' (by omega) top' (Nat.mod_lt _ (by decide))
      rw [built_pagedir, ← advance] at later
      rw [pageEntries_succ _ _ _ _ _ _ small, List.foldl_cons, rest, zero, ← advance]
      by_cases fits : cnt ≤ room
      · rw [if_pos fits] at later
        rw [if_pos (Nat.succ_le_succ fits)]
        exact later
      · rw [if_neg fits] at later
        rw [if_neg (fun less => fits (Nat.le_of_succ_le_succ less))]
        exact later

/-- On a heap that does not run out, this is the loop itself. -/
theorem loadLoopWithin_of_room {cur file : Nat} {writable : Bool} {fuel room : Nat} (enough : fuel ≤ room)
    (ofs upage readBytes zeroBytes : Nat) :
    loadLoopWithin cur file writable fuel room ofs upage readBytes zeroBytes =
      loadLoop cur file writable fuel ofs upage readBytes zeroBytes := by
  induction fuel generalizing room ofs upage readBytes zeroBytes with
  | zero => rfl
  | succ fuel ih =>
    obtain ⟨room, rfl⟩ := Nat.exists_eq_succ_of_ne_zero (Nat.ne_of_gt (Nat.lt_of_lt_of_le (Nat.succ_pos _) enough))
    funext s
    unfold loadLoopWithin loadLoop
    split
    · rw [bind_get, bind_get]
      exact congrFun (ih (Nat.le_of_succ_le_succ enough) _ _ _ _) _
    · rfl

section Loaded
variable (accepted : Accepted phdr fileLength) (cur file : Nat)
include accepted

def Phdr.entries (phdr : Phdr) (file pagedir : Nat) : List Page :=
  pageEntries file pagedir phdr.isWritable (pgRoundDown phdr.offset) (pgRoundDown phdr.vaddr) phdr.readBytes phdr.pageCnt

def loadPhdr (room cur file : Nat) (phdr : Phdr) : Kernel Unit :=
  loadSegmentWithin room cur file (pgRoundDown phdr.offset) (pgRoundDown phdr.vaddr) phdr.readBytes phdr.zeroBytes
    phdr.isWritable

/-- The assertions hold, and the loop makes all the entries or runs out of memory. -/
theorem loadPhdr_eq (low : pgRoundDown phdr.offset < 2 ^ 31) (room : Nat) (s : State) :
    if phdr.pageCnt ≤ room then
      loadPhdr room cur file phdr s =
        .returned () ((phdr.entries file (s.threads cur).pagedir).foldl (fun here page => here.built cur page) s)
    else ∃ final, loadPhdr room cur file phdr s = .stopped .panic final := by
  have total := accepted.total
  have covers := accepted.covers
  have sum : ptrAdd phdr.readBytes phdr.zeroBytes % pgSize == 0 := by
    unfold ptrAdd
    rw [total, beq_iff_eq]
    simp only [pgSize, physBase] at covers ⊢
    omega
  have aligned : pgOfs (pgRoundDown phdr.vaddr) == 0 := beq_iff_eq.mpr (pgRoundDown_ofs _)
  have page : pgRoundDown phdr.offset % pgSize == 0 := beq_iff_eq.mpr (pgRoundDown_ofs _)
  have positive : decide (pgRoundDown phdr.offset < 2 ^ 31) = true := decide_eq_true low
  have fuel : (phdr.readBytes + phdr.zeroBytes) / pgSize + 1 = phdr.pageCnt + 1 := by
    rw [total, Nat.mul_div_cancel_left _ (by decide)]
  unfold loadPhdr loadSegmentWithin
  rw [sum, aligned, page, positive, bind_of_returned (assert_true s), bind_of_returned (assert_true s),
    bind_of_returned (assert_true s), bind_of_returned (assert_true s), fuel]
  exact loadLoopWithin_eq _ room _ _ _ _ s total (Nat.lt_succ_self _) covers.2.2.2 (by omega)

end Loaded

/-! ## The table after the loop -/

section Table
variable {s : State} {cur : Nat}

def State.Below (s : State) (cur : Nat) : Prop := ∀ p ∈ (s.threads cur).spt, p < s.nextPage

theorem hashFind_setPage (below : s.Below cur) (page : Page) (u : Nat) :
    State.hashFind { s.setPage s.nextPage page with nextPage := s.nextPage + 1 } cur u = s.hashFind cur u := by
  refine List.find?_congr fun p listed => ?_
  have other : p ≠ s.nextPage := Nat.ne_of_lt (below p listed)
  simp [other]

/-- `page_add` of a new entry: found from now on unless the table had an entry for its page. -/
theorem built_hashFind (below : s.Below cur) (page : Page) (u : Nat) :
    (s.built cur page).hashFind cur u = (s.hashFind cur u).or (if page.upage = u then some s.nextPage else none) := by
  have same := hashFind_setPage below page
  unfold State.built State.pageAdd
  rw [same]
  simp only [State.setPage_pages, Function.update_self]
  cases found : s.hashFind cur page.upage with
  | some p =>
    simp only [same]
    by_cases here : page.upage = u
    · rw [← here, found]
      rfl
    · rw [if_neg here, Option.or_none]
  | none =>
    have rest := same u
    unfold State.hashFind at rest ⊢
    simp only [State.setThread_threads, State.setThread_pages, State.setPage_pages, State.setPage_threads,
      Function.update_self, List.find?_cons] at rest ⊢
    rw [rest]
    by_cases here : page.upage = u
    · subst here
      unfold State.hashFind at found
      simp [found]
    · simp [here]

theorem State.Below.built_threads (below : s.Below cur) (page : Page) :
    (s.built cur page).threads =
      if s.hashFind cur page.upage = none then
        Function.update s.threads cur { s.threads cur with spt := s.nextPage :: (s.threads cur).spt }
      else s.threads := by
  have same := hashFind_setPage below page page.upage
  unfold State.built State.pageAdd
  simp only [State.setPage_pages, Function.update_self, same]
  cases s.hashFind cur page.upage with
  | some p => rfl
  | none => rfl

theorem built_below (below : s.Below cur) (page : Page) : (s.built cur page).Below cur := by
  intro p listed
  have next : (s.built cur page).nextPage = s.nextPage + 1 := by rw [built_eq]
  rw [next]
  unfold State.built State.pageAdd at listed
  split at listed
  · exact Nat.lt_succ_of_lt (below p listed)
  · simp only [State.setThread_threads, Function.update_self] at listed
    rcases List.mem_cons.mp listed with rfl | old
    · exact Nat.lt_succ_self _
    · exact Nat.lt_succ_of_lt (below p old)

def State.addAll (s : State) (cur : Nat) (pages : List Page) : State := pages.foldl (fun here page => here.built cur page) s

theorem addAll_nextPage (s : State) (cur : Nat) (pages : List Page) :
    (s.addAll cur pages).nextPage = s.nextPage + pages.length := by
  induction pages generalizing s with
  | nil => rfl
  | cons page rest ih =>
    have next : (s.built cur page).nextPage = s.nextPage + 1 := by rw [built_eq]
    rw [State.addAll, List.foldl_cons]
    refine (ih _).trans ?_
    rw [next, List.length_cons]
    omega

theorem addAll_below (below : s.Below cur) (pages : List Page) : (s.addAll cur pages).Below cur := by
  induction pages generalizing s with
  | nil => exact below
  | cons page rest ih => exact ih (built_below below page)

theorem addAll_old (s : State) (cur : Nat) (pages : List Page) {p : Nat} (old : p < s.nextPage) :
    (s.addAll cur pages).pages p = s.pages p := by
  induction pages generalizing s with
  | nil => rfl
  | cons page rest ih =>
    have next : (s.built cur page).nextPage = s.nextPage + 1 := by rw [built_eq]
    refine (ih (s.built cur page) (by omega)).trans ?_
    rw [built_eq]
    exact Function.update_of_ne (Nat.ne_of_lt old) _ _

theorem addAll_frames (s : State) (cur : Nat) (pages : List Page) :
    (s.addAll cur pages).frameTable = s.frameTable ∧ (s.addAll cur pages).occupancy = s.occupancy := by
  induction pages generalizing s with
  | nil => exact ⟨rfl, rfl⟩
  | cons page rest ih =>
    obtain ⟨frameTable, occupancy⟩ := ih (s.built cur page)
    exact ⟨frameTable.trans (by rw [built_eq]), occupancy.trans (by rw [built_eq])⟩

theorem addAll_new (s : State) (cur : Nat) (pages : List Page) (k : Nat) (inside : k < pages.length) :
    (s.addAll cur pages).pages (s.nextPage + k) = pages.get ⟨k, inside⟩ := by
  induction pages generalizing s k with
  | nil => cases inside
  | cons page rest ih =>
    have next : (s.built cur page).nextPage = s.nextPage + 1 := by rw [built_eq]
    cases k with
    | zero =>
      refine (addAll_old (s.built cur page) cur rest (by omega)).trans ?_
      exact built_new s cur page
    | succ k =>
      have later := ih (s.built cur page) k (Nat.lt_of_succ_lt_succ inside)
      rw [next] at later
      rw [show s.nextPage + (k + 1) = s.nextPage + 1 + k by omega]
      exact later

/-- A page is found where it was, or else at the first of the new entries that is for it. -/
theorem addAll_hashFind (below : s.Below cur) (pages : List Page) (u : Nat) :
    (s.addAll cur pages).hashFind cur u =
      (s.hashFind cur u).or ((pages.findIdx? fun page => page.upage = u).map (s.nextPage + ·)) := by
  induction pages generalizing s with
  | nil => simp [State.addAll]
  | cons page rest ih =>
    have next : (s.built cur page).nextPage = s.nextPage + 1 := by rw [built_eq]
    refine (ih (built_below below page)).trans ?_
    rw [built_hashFind below, next, Option.or_assoc, List.findIdx?_cons]
    congr 1
    by_cases here : page.upage = u
    · simp [here]
    · simp [here, Function.comp_def, Nat.add_assoc, Nat.add_comm 1]

end Table

/-! ## What a segment asks for -/

/-- The entries in `final`, built from `s` on, are those of the pages of the segment and refer to its bytes. -/
structure SegmentMapped (phdr : Phdr) (cur file : Nat) (s final : State) : Prop where
  /-- The sizes and the two ends are what they are without wrapping. -/
  readBytes : phdr.readBytes = if 0 < phdr.filesz then pgOfs phdr.vaddr + phdr.filesz else 0
  total : phdr.readBytes + phdr.zeroBytes = pgSize * phdr.pageCnt
  ends : pgSize ≤ pgRoundDown phdr.vaddr ∧ phdr.vaddr + phdr.memsz ≤ pgRoundDown phdr.vaddr + pgSize * phdr.pageCnt ∧
    pgRoundDown phdr.vaddr + pgSize * phdr.pageCnt < phdr.vaddr + phdr.memsz + pgSize ∧
    pgRoundDown phdr.vaddr + pgSize * phdr.pageCnt ≤ physBase
  count : final.nextPage = s.nextPage + phdr.pageCnt
  entry : ∀ k < phdr.pageCnt, ∀ page, page = final.pages (s.nextPage + k) →
    page.upage = pgRoundDown phdr.vaddr + pgSize * k ∧ page.pageReadBytes + page.pageZeroBytes = pgSize ∧
      page.location = .inFilesys ∧ page.file = file ∧ page.writable = phdr.isWritable ∧
      page.pagedir = (s.threads cur).pagedir
  /-- The table has these entries unless it had one for the page, and no others. -/
  found : ∀ k < phdr.pageCnt, s.hashFind cur (pgRoundDown phdr.vaddr + pgSize * k) = none →
    final.hashFind cur (pgRoundDown phdr.vaddr + pgSize * k) = some (s.nextPage + k)
  others : ∀ u, (s.hashFind cur u).isSome = true ∨ (∀ k < phdr.pageCnt, u ≠ pgRoundDown phdr.vaddr + pgSize * k) →
    final.hashFind cur u = s.hashFind cur u
  bytes : ∀ i < phdr.memsz, ∃ k < phdr.pageCnt, ∃ page, page = final.pages (s.nextPage + k) ∧
    pgRoundDown (phdr.vaddr + i) = page.upage ∧
    (i < phdr.filesz → pgOfs (phdr.vaddr + i) < page.pageReadBytes ∧ page.ofs + pgOfs (phdr.vaddr + i) = phdr.offset + i) ∧
    (phdr.filesz ≤ i → page.pageReadBytes ≤ pgOfs (phdr.vaddr + i))

section Mapped
variable {s : State} {cur file : Nat}

theorem entries_length (phdr : Phdr) (file pagedir : Nat) : (phdr.entries file pagedir).length = phdr.pageCnt := by
  simp [Phdr.entries, pageEntries]

theorem entries_get (phdr : Phdr) (file pagedir k : Nat) (inside : k < (phdr.entries file pagedir).length) :
    (phdr.entries file pagedir).get ⟨k, inside⟩ =
      pageEntry file pagedir phdr.isWritable (pgRoundDown phdr.offset) (pgRoundDown phdr.vaddr) phdr.readBytes k := by
  simp [Phdr.entries, pageEntries]

theorem entries_findIdx (phdr : Phdr) (file pagedir : Nat) {k : Nat} (bound : k < phdr.pageCnt) :
    ((phdr.entries file pagedir).findIdx? fun page => page.upage = pgRoundDown phdr.vaddr + pgSize * k) = some k := by
  have inside : k < (phdr.entries file pagedir).length := by rw [entries_length]; exact bound
  refine List.findIdx?_eq_some_iff_getElem.mpr ⟨inside, ?_, fun j less => ?_⟩
  · have here := entries_get phdr file pagedir k inside
    rw [List.get_eq_getElem] at here
    rw [here]
    simp [pageEntry, segmentEntry]
  · have here := entries_get phdr file pagedir j (Nat.lt_trans less inside)
    rw [List.get_eq_getElem] at here
    rw [here]
    have apart : pgRoundDown phdr.vaddr + pgSize * j ≠ pgRoundDown phdr.vaddr + pgSize * k := by
      simp only [pgSize]
      omega
    simpa [pageEntry, segmentEntry] using apart

/-- Byte `i` of a segment in the entry of its page: where in the file it is, if it is in the file. -/
theorem Accepted.entry_bytes (accepted : Accepted phdr fileLength) {i k : Nat} (file pagedir : Nat)
    (page : pgRoundDown (phdr.vaddr + i) = pgRoundDown phdr.vaddr + pgSize * k) :
    let entry := pageEntry file pagedir phdr.isWritable (pgRoundDown phdr.offset) (pgRoundDown phdr.vaddr) phdr.readBytes k
    (i < phdr.filesz → pgOfs (phdr.vaddr + i) < entry.pageReadBytes ∧
      pgRoundDown phdr.offset + pgSize * k + pgOfs (phdr.vaddr + i) = phdr.offset + i) ∧
    (phdr.filesz ≤ i → entry.pageReadBytes ≤ pgOfs (phdr.vaddr + i)) := by
  have read := accepted.readBytes
  have congruent := accepted.congruent
  dsimp only [pageEntry, segmentEntry]
  rw [read]
  unfold pgRoundDown pgOfs at *
  simp only [pgSize] at *
  refine ⟨fun inside => ⟨?_, ?_⟩, fun outside => ?_⟩
  · rw [if_pos (by omega)]
    omega
  · omega
  · split <;> omega

theorem page_of_byte {i : Nat} (inside : i < phdr.memsz) :
    ∃ k < phdr.pageCnt, pgRoundDown (phdr.vaddr + i) = pgRoundDown phdr.vaddr + pgSize * k := by
  refine ⟨(pgOfs phdr.vaddr + i) / pgSize, ?_, ?_⟩
  · unfold Phdr.pageCnt
    simp only [pgSize]
    omega
  · unfold pgRoundDown pgOfs
    simp only [pgSize]
    omega

/-- Except for the offsets, the entries are always those of the segment. -/
theorem Accepted.mapped (accepted : Accepted phdr fileLength) (below : s.Below cur)
    (offsets : phdr.offset + phdr.filesz ≤ 2 ^ 32) :
    SegmentMapped phdr cur file s (s.addAll cur (phdr.entries file (s.threads cur).pagedir)) := by
  have here : ∀ k < phdr.pageCnt, (s.addAll cur (phdr.entries file (s.threads cur).pagedir)).pages (s.nextPage + k) =
      pageEntry file (s.threads cur).pagedir phdr.isWritable (pgRoundDown phdr.offset) (pgRoundDown phdr.vaddr)
        phdr.readBytes k := by
    intro k bound
    rw [addAll_new s cur _ k (by rw [entries_length]; exact bound), entries_get]
  constructor
  case readBytes => exact accepted.readBytes
  case total => exact accepted.total
  case ends => exact accepted.covers
  case count => rw [addAll_nextPage, entries_length]
  case entry =>
    rintro k bound _ rfl
    rw [here k bound]
    refine ⟨rfl, ?_, rfl, rfl, rfl, rfl⟩
    simp only [pageEntry, segmentEntry]
    omega
  case found =>
    intro k bound absent
    rw [addAll_hashFind below, absent, entries_findIdx phdr file _ bound]
    rfl
  case others =>
    intro u outside
    rw [addAll_hashFind below]
    rcases outside with had | apart
    · obtain ⟨p, found⟩ := Option.isSome_iff_exists.mp had
      rw [found]
      rfl
    · have none : ((phdr.entries file (s.threads cur).pagedir).findIdx? fun page => page.upage = u) = none := by
        refine List.findIdx?_eq_none_iff.mpr fun page listed => ?_
        obtain ⟨k, inside, rfl⟩ := List.mem_map.mp listed
        have other := apart k (List.mem_range.mp inside)
        exact decide_eq_false other.symm
      rw [none, Option.map_none, Option.or_none]
  case bytes =>
    intro i inside
    obtain ⟨k, bound, page⟩ := page_of_byte inside
    obtain ⟨read, zero⟩ := accepted.entry_bytes file (s.threads cur).pagedir page
    refine ⟨k, bound, _, rfl, ?_, fun inFile => ?_, fun outside => ?_⟩
    · rw [here k bound, page]
      rfl
    · obtain ⟨count, offset⟩ := read inFile
      rw [here k bound]
      refine ⟨count, ?_⟩
      dsimp only [pageEntry, segmentEntry]
      rw [Nat.mod_eq_of_lt (by omega)]
      exact offset
    · rw [here k bound]
      exact zero outside

/-- A byte of the file part 4 GB into the file has no place in the entries. -/
theorem Accepted.offsets (accepted : Accepted phdr fileLength) (short : fileLength < 2 ^ 31)
    (mapped : SegmentMapped phdr cur file s (s.addAll cur (phdr.entries file (s.threads cur).pagedir))) :
    phdr.offset + phdr.filesz ≤ 2 ^ 32 := by
  by_contra far
  have offset := accepted.offset
  have bound : 2 ^ 32 - phdr.offset < phdr.filesz := by omega
  obtain ⟨k, inside, page, is, _, read, _⟩ := mapped.bytes _ (Nat.lt_of_lt_of_le bound accepted.filesz)
  obtain ⟨_, same⟩ := read bound
  have stored : page.ofs < 2 ^ 32 ∧ page.ofs % pgSize = 0 := by
    rw [is, addAll_new s cur _ k (by rw [entries_length]; exact inside), entries_get]
    simp only [pageEntry, segmentEntry, pgRoundDown, pgSize]
    omega
  have inPage := pgOfs_lt (phdr.vaddr + (2 ^ 32 - phdr.offset))
  simp only [pgSize] at stored inPage
  omega

/-- For every header that `validate_segment` accepts for a file of any length (an `off_t`): its pages
are mapped as the header asks exactly if the heap has an entry for each page and no byte of the file
part is 4 GB or more from the start of the file. -/
theorem segment_mapped_iff (room : Nat) (valid : validateSegment phdr fileLength = true) (short : fileLength < 2 ^ 31)
    (below : s.Below cur) :
    (∃ final, loadPhdr room cur file phdr s = .returned () final ∧ SegmentMapped phdr cur file s final) ↔
      phdr.pageCnt ≤ room ∧ phdr.offset + phdr.filesz ≤ 2 ^ 32 := by
  have accepted := validateSegment_iff.mp valid
  have loaded := loadPhdr_eq accepted cur file (accepted.first_offset short) room s
  by_cases fits : phdr.pageCnt ≤ room
  · rw [if_pos fits] at loaded
    constructor
    · rintro ⟨final, done, mapped⟩
      cases loaded.symm.trans done
      exact ⟨fits, accepted.offsets short mapped⟩
    · rintro ⟨_, offsets⟩
      exact ⟨_, loaded, accepted.mapped below offsets⟩
  · rw [if_neg fits] at loaded
    obtain ⟨stop, panics⟩ := loaded
    refine ⟨fun both => ?_, fun both => absurd both.1 fits⟩
    obtain ⟨final, done, _⟩ := both
    rw [panics] at done
    cases done

end Mapped

/-- A small segment of an executable: two pages, the second of them all zero. -/
theorem segment_mapped_two_pages :
    ∃ final, loadPhdr 2 1 1 ⟨ptLoad, 0, 0x08048000, 4096, 8192, 2⟩ ((bootState 4096).spawn 1 5) = .returned () final ∧
      SegmentMapped ⟨ptLoad, 0, 0x08048000, 4096, 8192, 2⟩ 1 1 ((bootState 4096).spawn 1 5) final :=
  (segment_mapped_iff 2 (by decide : validateSegment _ 4096 = true) (by decide) (fun _ nothing => by cases nothing)).mpr
    (by decide)

/-- The header of a segment whose file part ends almost 5 GB after the start of the file. -/
def farPhdr : Phdr := ⟨ptLoad, 0x7ffff000, 0x1000, 0xb0000000, 0xb0000000, 4⟩

/-- With an entry for each page, the bytes from 4 GB on are taken from the start of the file again. -/
theorem far_segment_wraps :
    validateSegment farPhdr 0x7ffff000 = true ∧
      ∃ final, loadPhdr farPhdr.pageCnt 1 1 farPhdr ((bootState 0).spawn 1 5) = .returned () final ∧
        ¬SegmentMapped farPhdr 1 1 ((bootState 0).spawn 1 5) final := by
  have valid : validateSegment farPhdr 0x7ffff000 = true := by decide
  have accepted := validateSegment_iff.mp valid
  have loaded := loadPhdr_eq accepted 1 1 (by decide) farPhdr.pageCnt ((bootState 0).spawn 1 5)
  rw [if_pos (Nat.le_refl _)] at loaded
  refine ⟨valid, _, loaded, fun mapped => ?_⟩
  have offsets := accepted.offsets (by decide) mapped
  exact absurd offsets (by decide)

/-! ## Offsets on the way to `file_seek` -/

/-- The assertion of `file_seek` is the only one on the way to the bytes of a page. -/
theorem fileReadAt_panics_iff (cur file ofs kpage size : Nat) (env : Env) (m : State) :
    (∃ after, fileReadAt cur file ofs kpage size env m = .stopped .panic after) ↔ 2 ^ 31 ≤ ofs := by
  unfold fileReadAt
  by_cases valid : ofs < 2 ^ 31
  · rw [decide_eq_true valid, bind_of_returned (assert_true m), bind_get]
    refine ⟨fun ⟨after, failed⟩ => ?_, fun high => absurd valid (Nat.not_lt.mpr high)⟩
    rcases bind_stopped.mp failed with stored | ⟨_, _, _, returned⟩
    · -- A store either reaches its frame or ends the process.
      by_cases given : kpage = 0
      · subst given
        rcases storeBytes_null m cur 0 (readAmount (m.files file).length ofs size env.bounce)
          (fun o => (m.files file).getD (ofs + o) 0) with idle | ended | ⟨_, _, done⟩
        · rw [idle] at stored
          cases stored
        · rw [ended] at stored
          cases stored
        · rw [done] at stored
          cases stored
      · rw [storeBytes_frame _ _ _ _ given] at stored
        cases stored
    · cases returned
  · rw [decide_eq_false valid]
    exact ⟨fun _ => Nat.le_of_not_lt valid, fun _ => ⟨m, rfl⟩⟩

def SeeksWithin (page : Page) : Prop :=
  ∀ (t kpage : Nat) (env : Env) (m after : State),
    fileReadAt t page.file page.ofs kpage page.pageReadBytes env m ≠ .stopped .panic after

theorem seeksWithin_iff (page : Page) : SeeksWithin page ↔ page.ofs < 2 ^ 31 := by
  constructor
  · intro safe
    by_contra high
    obtain ⟨after, failed⟩ := (fileReadAt_panics_iff 0 page.file page.ofs 0 page.pageReadBytes {} (bootState 0)).mpr
      (Nat.le_of_not_lt high)
    exact safe _ _ _ _ _ failed
  · intro low t kpage env m after failed
    have high := (fileReadAt_panics_iff t page.file page.ofs kpage page.pageReadBytes env m).mp ⟨after, failed⟩
    omega

/-- For every header that `validate_segment` accepts: faults on the pages that `load_segment` made for
it keep to the assertion of `file_seek` exactly if its last page is less than 2 GB into the file. -/
theorem segment_seeks_iff {s final : State} {room cur file : Nat} (valid : validateSegment phdr fileLength = true)
    (short : fileLength < 2 ^ 31) (done : loadPhdr room cur file phdr s = .returned () final) :
    (∀ p, s.nextPage ≤ p → p < final.nextPage → SeeksWithin (final.pages p)) ↔
      pgRoundDown phdr.offset + pgSize * (phdr.pageCnt - 1) < 2 ^ 31 := by
  have accepted := validateSegment_iff.mp valid
  have start := accepted.first_offset short
  have loaded := loadPhdr_eq accepted cur file start room s
  split at loaded
  swap
  · obtain ⟨stop, failed⟩ := loaded
    rw [failed] at done
    cases done
  cases loaded.symm.trans done
  have positive := accepted.pageCnt_pos
  have count : (s.addAll cur (phdr.entries file (s.threads cur).pagedir)).nextPage = s.nextPage + phdr.pageCnt := by
    rw [addAll_nextPage, entries_length]
  have offset : ∀ k < phdr.pageCnt, ((s.addAll cur (phdr.entries file (s.threads cur).pagedir)).pages
      (s.nextPage + k)).ofs = (pgRoundDown phdr.offset + pgSize * k) % 2 ^ 32 := by
    intro k bound
    rw [addAll_new s cur _ k (by rw [entries_length]; exact bound), entries_get]
    rfl
  constructor
  · intro safe
    by_contra high
    -- The first page whose offset is 2 GB or more.
    have crossing : (2 ^ 31 - pgRoundDown phdr.offset) / pgSize < phdr.pageCnt := by
      simp only [pgSize] at high ⊢
      omega
    have low := (seeksWithin_iff _).mp (safe _ (Nat.le_add_right s.nextPage ((2 ^ 31 - pgRoundDown phdr.offset) / pgSize))
      (by rw [← State.addAll, count]; omega))
    rw [← State.addAll, offset _ crossing] at low
    simp only [pgRoundDown, pgSize] at low start
    omega
  · intro low p atLeast below
    rw [← State.addAll, count] at below
    obtain ⟨k, rfl⟩ := Nat.exists_eq_add_of_le atLeast
    rw [seeksWithin_iff, ← State.addAll, offset k (by omega)]
    simp only [pgSize] at low ⊢
    omega

theorem segment_seeks_two_pages :
    ∃ final, loadPhdr 2 1 1 ⟨ptLoad, 0, 0x08048000, 4096, 8192, 2⟩ ((bootState 4096).spawn 1 5) = .returned () final ∧
      ∀ p, ((bootState 4096).spawn 1 5).nextPage ≤ p → p < final.nextPage → SeeksWithin (final.pages p) := by
  have valid : validateSegment ⟨ptLoad, 0, 0x08048000, 4096, 8192, 2⟩ 4096 = true := by decide
  have loaded := loadPhdr_eq (validateSegment_iff.mp valid) 1 1 (by decide) 2 ((bootState 4096).spawn 1 5)
  rw [if_pos (by decide)] at loaded
  exact ⟨_, loaded, (segment_seeks_iff valid (by decide) loaded).mpr (by decide)⟩

/-- A fault on a page whose offset does not fit an `off_t` stops the kernel, once there is a frame. -/
theorem pageFault_far {m after : State} {t addr esp p kpage : Nat} {user : Bool} {env : Env} (nonzero : addr ≠ 0)
    (low : addr < physBase) (found : m.hashFind t (pgRoundDown addr) = some p)
    (located : (m.pages p).location = .inFilesys) (far : 2 ^ 31 ≤ (m.pages p).ofs)
    (frame : frameFindEmpty m = .returned kpage after) (same : after.pages p = m.pages p) :
    ∃ last, pageFault t addr esp true user env m = .stopped .panic last := by
  rw [← same] at far
  obtain ⟨last, failed⟩ := (fileReadAt_panics_iff t (after.pages p).file _ kpage (after.pages p).pageReadBytes env
    after).mpr far
  refine ⟨last, ?_⟩
  rw [pageFault_user nonzero low, pageFaultIdentifier, bind_get, found]
  simp only [located]
  unfold pageReadInstall
  rw [bind_of_returned frame, bind_get]
  exact bind_of_stopped failed

/-- The header of a segment of zeros that is longer than 2 GB. -/
def zerosPhdr : Phdr := ⟨ptLoad, 0, 0x1000, 0, 0x80001000, 6⟩

/-- A read of its page 2 GB after the first one stops the kernel. -/
theorem far_zero_page_panics :
    validateSegment zerosPhdr 0 = true ∧
      ∃ final, loadPhdr zerosPhdr.pageCnt 1 1 zerosPhdr ((bootState 0).spawn 1 5) = .returned () final ∧
        ∃ last, pageFault 1 0x80001000 0 true true {} final = .stopped .panic last := by
  have valid : validateSegment zerosPhdr 0 = true := by decide
  have accepted := validateSegment_iff.mp valid
  have below : ((bootState 0).spawn 1 5).Below 1 := fun _ nothing => by cases nothing
  have loaded := loadPhdr_eq accepted 1 1 (by decide) zerosPhdr.pageCnt ((bootState 0).spawn 1 5)
  rw [if_pos (Nat.le_refl _)] at loaded
  refine ⟨valid, ((bootState 0).spawn 1 5).addAll 1 (zerosPhdr.entries 1 5), loaded, ?_⟩
  obtain ⟨far, bound, page, offset⟩ : ∃ k, k < zerosPhdr.pageCnt ∧
      pgRoundDown 0x80001000 = pgRoundDown zerosPhdr.vaddr + pgSize * k ∧
      2 ^ 31 ≤ (pgRoundDown zerosPhdr.offset + pgSize * k) % 2 ^ 32 := ⟨0x80000, by decide, by decide, by decide⟩
  have absent : ((bootState 0).spawn 1 5).hashFind 1 (pgRoundDown zerosPhdr.vaddr + pgSize * far) = none := rfl
  have mapped : SegmentMapped zerosPhdr 1 1 ((bootState 0).spawn 1 5)
      (((bootState 0).spawn 1 5).addAll 1 (zerosPhdr.entries 1 5)) := accepted.mapped below (by decide)
  have entry := addAll_new ((bootState 0).spawn 1 5) 1 (zerosPhdr.entries 1 5) far (by rw [entries_length]; exact bound)
  rw [entries_get] at entry
  obtain ⟨frameTable, occupancy⟩ := addAll_frames ((bootState 0).spawn 1 5) 1 (zerosPhdr.entries 1 5)
  have found := mapped.found far bound absent
  rw [← page] at found
  have frame : frameFindEmpty (((bootState 0).spawn 1 5).addAll 1 (zerosPhdr.entries 1 5)) =
      .returned physBase (((bootState 0).spawn 1 5).addAll 1 (zerosPhdr.entries 1 5)) := by
    have free : (((bootState 0).spawn 1 5).addAll 1 (zerosPhdr.entries 1 5)).firstFree = some 0 := by
      unfold State.firstFree
      rw [frameTable]
      rfl
    unfold frameFindEmpty
    rw [bind_get, if_pos (by rw [occupancy]; decide), free]
    simp only [frameTable]
    rfl
  exact pageFault_far (by decide) (by decide) found (by rw [entry]; rfl) (by rw [entry]; exact offset) frame rfl

end Pintos.Vm
