import Mathlib.Data.List.Nodup
import Pintos.Vm.Segments

/-! Segments that cover the same page.

`validate_segment` looks at one header, and `page_add` ignores that the table
already has an entry for a page. Each entry that a load builds is the one the
table has for its page exactly if no page is asked for twice, the stack page
included.
-/

set_option autoImplicit false

namespace Pintos.Vm
open Semantics Computation

variable {s m final : State} {cur : Nat}

structure SameSource (page other : Page) : Prop where
  upage : page.upage = other.upage
  file : page.file = other.file
  ofs : page.ofs = other.ofs
  pageReadBytes : page.pageReadBytes = other.pageReadBytes
  pageZeroBytes : page.pageZeroBytes = other.pageZeroBytes
  writable : page.writable = other.writable

theorem SameSource.refl (page : Page) : SameSource page page := ⟨rfl, rfl, rfl, rfl, rfl, rfl⟩

structure SameSources (s after : State) : Prop where
  threads : after.threads = s.threads
  nextPage : after.nextPage = s.nextPage
  source : ∀ p, SameSource (after.pages p) (s.pages p)

namespace SameSources

theorem refl (s : State) : SameSources s s := ⟨rfl, rfl, fun _ => .refl _⟩

theorem trans (first : SameSources s m) (second : SameSources m final) : SameSources s final := by
  refine ⟨second.threads.trans first.threads, second.nextPage.trans first.nextPage, fun p => ?_⟩
  obtain ⟨upage, file, ofs, read, zero, writable⟩ := second.source p
  obtain ⟨upage', file', ofs', read', zero', writable'⟩ := first.source p
  exact ⟨upage.trans upage', file.trans file', ofs.trans ofs', read.trans read', zero.trans zero',
    writable.trans writable'⟩

theorem of_eq {after : State} (threads : after.threads = s.threads) (nextPage : after.nextPage = s.nextPage)
    (pages : after.pages = s.pages) : SameSources s after :=
  ⟨threads, nextPage, fun p => by rw [pages]; exact .refl _⟩

theorem setPage {p : Nat} {page : Page} (same : SameSource page (s.pages p)) : SameSources s (s.setPage p page) := by
  refine ⟨rfl, rfl, fun q => ?_⟩
  by_cases here : q = p
  · subst here
    simpa using same
  · simpa [here] using SameSource.refl _

theorem hashFind (same : SameSources s final) (t u : Nat) : final.hashFind t u = s.hashFind t u := by
  unfold State.hashFind
  rw [same.threads]
  refine List.find?_congr fun p _ => ?_
  rw [(same.source p).upage]

end SameSources

/-! ## What the frame table operations leave alone -/

theorem evictSelect_glanced {fuel : Nat} (done : evictSelect fuel s = .returned () final) : Glanced s final := by
  induction fuel generalizing s with
  | zero => cases done
  | succ fuel ih =>
    rcases evictSelect_succ s fuel with ⟨_, failed⟩ | ⟨_, stops⟩ | ⟨after, glance, _, goes⟩
    · rw [failed] at done
      cases done
    · rw [stops] at done
      cases done
      exact .refl _
    · rw [goes] at done
      exact glance.trans ((glanced_advanceClock _).trans (ih done))

theorem frameEvict_sources {kpage : Nat} (done : frameEvict s = .returned kpage final) : SameSources s final := by
  cases selected : evictSelect evictFuel s with
  | stopped why stop =>
    rw [frameEvict, bind_of_stopped selected] at done
    cases done
  | returned value stop =>
    have glanced := evictSelect_glanced selected
    have looked : SameSources s stop := .of_eq glanced.threads glanced.nextPage glanced.pages
    rw [frameEvict_of_select selected] at done
    split at done
    · split at done
      · cases done
        refine looked.trans ⟨pageOut_threads, by rw [pageOut_eq], fun p => ?_⟩
        by_cases victim : p = (stop.frameTable stop.clockPointer).pagePointer
        · rw [victim, pageOut_page_self]
          exact ⟨rfl, rfl, rfl, rfl, rfl, rfl⟩
        · rw [pageOut_page_other victim]
          exact .refl _
      · cases done
    · cases done

theorem frameFindEmpty_sources {kpage : Nat} (done : frameFindEmpty s = .returned kpage final) : SameSources s final := by
  unfold frameFindEmpty at done
  rw [bind_get] at done
  split at done
  · cases found : s.firstFree with
    | none =>
      simp only [found] at done
      cases done
      exact .refl _
    | some i =>
      simp only [found] at done
      cases done
      exact .refl _
  · exact frameEvict_sources done

theorem pageInstallToFrame_sources {target upage kpage pagedir : Nat} {env : Env} {success : Bool}
    (done : pageInstallToFrame cur target upage kpage pagedir env s = .returned success final) : SameSources s final := by
  obtain ⟨_, _, rfl⟩ := pageInstallToFrame_returned done
  refine SameSources.trans ?_ (.setPage ⟨rfl, rfl, rfl, rfl, rfl, rfl⟩)
  exact .of_eq rfl rfl rfl

/-! ## The entries a load builds -/

def Image.segments (image : Image) : List Phdr := image.phdrs.filter (·.pType = ptLoad)

def segmentEntries (phdrs : List Phdr) (file pagedir : Nat) : List Page :=
  phdrs.flatMap fun phdr => phdr.entries file pagedir

theorem addAll_append (s : State) (cur : Nat) (first second : List Page) :
    s.addAll cur (first ++ second) = (s.addAll cur first).addAll cur second := List.foldl_append

theorem addAll_pagedir (s : State) (cur : Nat) (pages : List Page) (t : Nat) :
    ((s.addAll cur pages).threads t).pagedir = (s.threads t).pagedir := by
  induction pages generalizing s with
  | nil => rfl
  | cons page rest ih => exact (ih (s.built cur page)).trans (built_pagedir s cur page t)

theorem addAll_files (s : State) (cur : Nat) (pages : List Page) : (s.addAll cur pages).files = s.files := by
  induction pages generalizing s with
  | nil => rfl
  | cons page rest ih => exact (ih (s.built cur page)).trans (by rw [built_eq])

theorem loadSegment_returned {phdr : Phdr} {file fileLength : Nat} (accepted : Accepted phdr fileLength)
    (done : loadSegment cur file (pgRoundDown phdr.offset) (pgRoundDown phdr.vaddr) phdr.readBytes phdr.zeroBytes
      phdr.isWritable s = .returned () final) :
    final = s.addAll cur (phdr.entries file (s.threads cur).pagedir) := by
  have same : loadSegment cur file (pgRoundDown phdr.offset) (pgRoundDown phdr.vaddr) phdr.readBytes phdr.zeroBytes
      phdr.isWritable = loadPhdr (phdr.pageCnt + 1) cur file phdr := by
    have fuel : (phdr.readBytes + phdr.zeroBytes) / pgSize + 1 = phdr.pageCnt + 1 := by
      rw [accepted.total, Nat.mul_div_cancel_left _ (by decide)]
    unfold loadSegment loadPhdr loadSegmentWithin
    rw [fuel, loadLoopWithin_of_room (Nat.le_refl _)]
  have low : pgRoundDown phdr.offset < 2 ^ 31 := by
    unfold loadSegment at done
    obtain ⟨_, _, _, done⟩ := bind_returned.mp done
    obtain ⟨_, _, _, done⟩ := bind_returned.mp done
    obtain ⟨_, _, _, done⟩ := bind_returned.mp done
    obtain ⟨_, _, holds, _⟩ := bind_returned.mp done
    exact of_decide_eq_true (assert_returned.mp holds).1
  have loaded := loadPhdr_eq accepted cur file low (phdr.pageCnt + 1) s
  rw [if_pos (Nat.le_succ _), ← same] at loaded
  cases loaded.symm.trans done
  rfl

/-- The loop over the headers, if it comes to its end: every segment was accepted and has its entries. -/
theorem loadHeaders_returned {file : Nat} {phdrs : List Phdr}
    (done : loadHeaders cur file phdrs s = .returned true final) :
    (∀ phdr ∈ phdrs.filter (·.pType = ptLoad), Accepted phdr (s.files file).length) ∧
      final = s.addAll cur (segmentEntries (phdrs.filter (·.pType = ptLoad)) file (s.threads cur).pagedir) := by
  induction phdrs generalizing s with
  | nil =>
    cases done
    exact ⟨nofun, rfl⟩
  | cons phdr rest ih =>
    unfold loadHeaders at done
    rw [bind_get] at done
    split at done
    · cases done
    split at done <;> rename_i segment
    · rw [List.filter_cons_of_pos (by simpa using segment)]
      split at done <;> rename_i valid
      · obtain ⟨_, middle, loaded, later⟩ := bind_returned.mp done
        have accepted := validateSegment_iff.mp valid
        have first := loadSegment_returned accepted loaded
        obtain ⟨others, last⟩ := ih later
        rw [first, addAll_files] at others
        refine ⟨List.forall_mem_cons.mpr ⟨accepted, others⟩, ?_⟩
        rw [last, first, addAll_pagedir, ← addAll_append]
        rfl
      · cases done
    · rw [List.filter_cons_of_neg (by simpa using segment)]
      exact ih done

def Image.entries (image : Image) (pagedir : Nat) : List Page :=
  segmentEntries image.segments image.file pagedir ++
    if image.copyPage then [stackEntry stackPage pagedir .inFrame] else []

theorem SameSources.below (same : SameSources s m) (below : s.Below cur) : m.Below cur := by
  unfold State.Below
  rw [same.threads, same.nextPage]
  exact below

theorem SameSources.built (same : SameSources s m) (below : s.Below cur) (page : Page) :
    SameSources (s.built cur page) (m.built cur page) := by
  have threads : (m.built cur page).threads = (s.built cur page).threads := by
    rw [below.built_threads, (same.below below).built_threads, same.hashFind, same.threads, same.nextPage]
  refine ⟨threads, ?_, fun p => ?_⟩
  · rw [built_eq, built_eq s]
    exact congrArg (· + 1) same.nextPage
  · rw [built_eq, built_eq s]
    dsimp only
    rw [same.nextPage]
    by_cases new : p = s.nextPage
    · rw [new, Function.update_self, Function.update_self]
      exact .refl _
    · rw [Function.update_of_ne new, Function.update_of_ne new]
      exact same.source p

theorem load_returned {image : Image} {env : Env} (below : s.Below cur) (done : load cur image env s = .returned true final) :
    (∀ phdr ∈ image.segments, Accepted phdr (s.files image.file).length) ∧
      SameSources (s.addAll cur (image.entries (s.threads cur).pagedir)) final := by
  unfold load at done
  split at done
  · cases done
  obtain ⟨ok, middle, headers, rest⟩ := bind_returned.mp done
  cases ok with
  | false => cases rest
  | true =>
    rw [if_pos rfl] at rest
    obtain ⟨accepted, reached⟩ := loadHeaders_returned headers
    refine ⟨accepted, ?_⟩
    unfold setupStack at rest
    unfold Image.entries
    cases copied : image.copyPage with
    | false =>
      simp only [copied, Bool.not_false, if_true] at rest
      cases rest
      rw [if_neg (by decide), List.append_nil, reached]
      exact .refl _
    | true =>
      simp only [copied, Bool.not_true, Bool.false_eq_true, if_false] at rest
      obtain ⟨kpage, empty, found, rest⟩ := bind_returned.mp rest
      have handed := frameFindEmpty_sources found
      split at rest
      swap
      · cases rest
      rw [bind_get] at rest
      have added := handed.built (reached ▸ addAll_below below _)
        (stackEntry stackPage (empty.threads cur).pagedir .inFrame)
      -- `page_build` and `page_add`, then the frame and the arguments.
      change (pageInstallToFrame cur empty.nextPage stackPage kpage (empty.threads cur).pagedir env >>= fun _ => (do
        modify fun s => s.setRam kpage fun o => (image.args o).getD (s.ram kpage o)
        return image.argsFit)) (empty.built cur (stackEntry stackPage (empty.threads cur).pagedir .inFrame)) = _ at rest
      obtain ⟨_, mapped, installed, rest⟩ := bind_returned.mp rest
      have placed := pageInstallToFrame_sources installed
      rw [bind_modify] at rest
      obtain ⟨_, rfl⟩ := Execution.returned.inj rest
      refine .trans ?_ (added.trans (placed.trans (.of_eq rfl rfl rfl)))
      rw [if_pos rfl, addAll_append, handed.threads, reached, addAll_pagedir]
      exact .refl _

/-! ## Pages asked for twice -/

def Phdr.Covers (phdr : Phdr) (u : Nat) : Prop := ∃ k < phdr.pageCnt, u = pgRoundDown phdr.vaddr + pgSize * k

def Phdr.pagesEnd (phdr : Phdr) : Nat := pgRoundDown phdr.vaddr + pgSize * phdr.pageCnt

def Image.SegmentsApart (image : Image) : Prop :=
  (image.segments.Pairwise fun phdr other =>
    phdr.pagesEnd ≤ pgRoundDown other.vaddr ∨ other.pagesEnd ≤ pgRoundDown phdr.vaddr) ∧
  ∀ phdr ∈ image.segments, phdr.pagesEnd ≤ stackPage

instance (image : Image) : Decidable image.SegmentsApart := inferInstanceAs (Decidable (_ ∧ _))

/-- Each page has the entry of its own segment, or of the stack. -/
structure OwnContents (cur : Nat) (image : Image) (s final : State) : Prop where
  apart : image.segments.Pairwise fun phdr other => ∀ u, ¬(phdr.Covers u ∧ other.Covers u)
  clear : ∀ phdr ∈ image.segments, ¬phdr.Covers stackPage
  found : ∀ p, s.nextPage ≤ p → p < final.nextPage → final.hashFind cur (final.pages p).upage = some p
  contents : ∀ phdr ∈ image.segments, ∀ k < phdr.pageCnt,
    ∃ p, final.hashFind cur (pgRoundDown phdr.vaddr + pgSize * k) = some p ∧
      SameSource (final.pages p) (pageEntry image.file (s.threads cur).pagedir phdr.isWritable (pgRoundDown phdr.offset)
        (pgRoundDown phdr.vaddr) phdr.readBytes k)

section Covers
variable {phdr other : Phdr} {fileLength : Nat}

theorem covers_iff (u : Nat) :
    phdr.Covers u ↔ pgRoundDown phdr.vaddr ≤ u ∧ u < phdr.pagesEnd ∧ pgOfs u = 0 := by
  unfold Phdr.Covers Phdr.pagesEnd pgRoundDown pgOfs
  simp only [pgSize]
  constructor
  · rintro ⟨k, bound, rfl⟩
    omega
  · rintro ⟨low, high, aligned⟩
    exact ⟨(u - (phdr.vaddr - phdr.vaddr % 4096)) / 4096, by omega, by omega⟩

theorem Accepted.covers_first (accepted : Accepted phdr fileLength) : phdr.Covers (pgRoundDown phdr.vaddr) :=
  ⟨0, accepted.pageCnt_pos, by rw [Nat.mul_zero, Nat.add_zero]⟩

/-- Two ranges of pages are apart, or the first page of one is in the other. -/
theorem Accepted.apart_iff (accepted : Accepted phdr fileLength) (accepted' : Accepted other fileLength) :
    (∀ u, ¬(phdr.Covers u ∧ other.Covers u)) ↔
      phdr.pagesEnd ≤ pgRoundDown other.vaddr ∨ other.pagesEnd ≤ pgRoundDown phdr.vaddr := by
  constructor
  · intro disjoint
    by_contra overlap
    rcases Nat.le_total (pgRoundDown phdr.vaddr) (pgRoundDown other.vaddr) with first | first
    · exact disjoint _ ⟨(covers_iff _).mpr ⟨first, by omega, pgRoundDown_ofs _⟩, accepted'.covers_first⟩
    · exact disjoint _ ⟨accepted.covers_first, (covers_iff _).mpr ⟨first, by omega, pgRoundDown_ofs _⟩⟩
  · rintro apart u ⟨here, there⟩
    rw [covers_iff] at here there
    omega

theorem Accepted.clear_iff (accepted : Accepted phdr fileLength) : ¬phdr.Covers stackPage ↔ phdr.pagesEnd ≤ stackPage := by
  have first : pgRoundDown phdr.vaddr ≤ stackPage := by
    have top := accepted.top
    have below := pgRoundDown_le phdr.vaddr
    have aligned := pgRoundDown_ofs phdr.vaddr
    simp only [pgOfs, stackPage, physBase, pgSize] at *
    omega
  rw [covers_iff, not_and, not_and]
  constructor
  · intro outside
    by_contra inside
    exact outside first (by omega) (by decide)
  · intro ends _ inside
    omega

theorem mem_entries_upage {file pagedir u : Nat} : u ∈ (phdr.entries file pagedir).map Page.upage ↔ phdr.Covers u := by
  unfold Phdr.entries pageEntries Phdr.Covers
  rw [List.map_map, List.mem_map]
  constructor
  · rintro ⟨k, inside, rfl⟩
    exact ⟨k, List.mem_range.mp inside, rfl⟩
  · rintro ⟨k, bound, rfl⟩
    exact ⟨k, List.mem_range.mpr bound, rfl⟩

theorem entries_upage_nodup (phdr : Phdr) (file pagedir : Nat) : ((phdr.entries file pagedir).map Page.upage).Nodup := by
  unfold Phdr.entries pageEntries
  rw [List.map_map]
  refine List.nodup_range.map fun k j same => ?_
  have equal : pgRoundDown phdr.vaddr + pgSize * k = pgRoundDown phdr.vaddr + pgSize * j := same
  simp only [pgSize] at equal
  omega

theorem segmentEntries_nodup {phdrs : List Phdr} (file pagedir : Nat)
    (apart : phdrs.Pairwise fun phdr other => ∀ u, ¬(phdr.Covers u ∧ other.Covers u)) :
    ((segmentEntries phdrs file pagedir).map Page.upage).Nodup := by
  induction phdrs with
  | nil => exact List.nodup_nil
  | cons phdr rest ih =>
    obtain ⟨first, later⟩ := List.pairwise_cons.mp apart
    unfold segmentEntries
    rw [List.flatMap_cons, List.map_append]
    refine List.nodup_append.mpr ⟨entries_upage_nodup phdr file pagedir, ih later, fun u here v there same => ?_⟩
    subst same
    obtain ⟨page, listed, rfl⟩ := List.mem_map.mp there
    obtain ⟨other, member, built⟩ := List.mem_flatMap.mp listed
    exact first other member _ ⟨mem_entries_upage.mp here, mem_entries_upage.mp (List.mem_map_of_mem built)⟩

end Covers

theorem addAll_found (fresh : (s.threads cur).spt = []) {pages : List Page} (distinct : (pages.map Page.upage).Nodup)
    {k : Nat} (inside : k < pages.length) :
    (s.addAll cur pages).hashFind cur (pages.get ⟨k, inside⟩).upage = some (s.nextPage + k) := by
  have below : s.Below cur := by
    intro p listed
    rw [fresh] at listed
    cases listed
  have absent : s.hashFind cur (pages.get ⟨k, inside⟩).upage = none := by
    unfold State.hashFind
    rw [fresh]
    rfl
  have first : (pages.findIdx? fun page => page.upage = (pages.get ⟨k, inside⟩).upage) = some k := by
    refine List.findIdx?_eq_some_iff_getElem.mpr ⟨inside, by simp, fun j less => ?_⟩
    have bound : j < pages.length := Nat.lt_trans less inside
    have apart : pages[j].upage ≠ pages[k].upage := by
      intro same
      have insideJ : j < (pages.map Page.upage).length := by rw [List.length_map]; exact bound
      have insideK : k < (pages.map Page.upage).length := by rw [List.length_map]; exact inside
      have listed : (pages.map Page.upage)[j] = (pages.map Page.upage)[k] := by simpa using same
      have equal := distinct.getElem_inj_iff.mp listed
      omega
    simpa using apart
  rw [addAll_hashFind below, absent, first]
  rfl

/-- With the segments apart from each other and from the stack, no page of a load is asked for twice. -/
theorem entries_nodup {image : Image} (pagedir : Nat)
    (apart : image.segments.Pairwise fun phdr other => ∀ u, ¬(phdr.Covers u ∧ other.Covers u))
    (clear : ∀ phdr ∈ image.segments, ¬phdr.Covers stackPage) : ((image.entries pagedir).map Page.upage).Nodup := by
  unfold Image.entries
  rw [List.map_append]
  refine List.nodup_append.mpr ⟨segmentEntries_nodup _ _ apart, ?_, fun u here v there same => ?_⟩
  · split
    · exact List.nodup_singleton _
    · exact List.nodup_nil
  · obtain ⟨page, listed, rfl⟩ := List.mem_map.mp here
    obtain ⟨phdr, member, built⟩ := List.mem_flatMap.mp listed
    have stack : v = stackPage := by
      split at there
      · exact List.mem_singleton.mp there
      · cases there
    refine clear phdr member ?_
    rw [← stack, ← same]
    exact mem_entries_upage.mp (List.mem_map_of_mem built)

/-- For every executable whose load returns true: each page of the process has the entry of the one
segment that asks for it, or of the stack, exactly if the segments are apart. -/
theorem load_own_contents_iff {image : Image} {env : Env} (fresh : (s.threads cur).spt = [])
    (done : load cur image env s = .returned true final) : OwnContents cur image s final ↔ image.SegmentsApart := by
  have below : s.Below cur := by
    intro p listed
    rw [fresh] at listed
    cases listed
  obtain ⟨accepted, same⟩ := load_returned below done
  have apartIff : (image.segments.Pairwise fun phdr other => ∀ u, ¬(phdr.Covers u ∧ other.Covers u)) ↔
      image.segments.Pairwise fun phdr other =>
        phdr.pagesEnd ≤ pgRoundDown other.vaddr ∨ other.pagesEnd ≤ pgRoundDown phdr.vaddr :=
    List.Pairwise.iff_of_mem fun first second => (accepted _ first).apart_iff (accepted _ second)
  have clearIff : (∀ phdr ∈ image.segments, ¬phdr.Covers stackPage) ↔
      ∀ phdr ∈ image.segments, phdr.pagesEnd ≤ stackPage :=
    forall₂_congr fun phdr member => (accepted phdr member).clear_iff
  constructor
  · intro own
    exact ⟨apartIff.mp own.apart, clearIff.mp own.clear⟩
  · rintro ⟨apart, clear⟩
    have distinct := entries_nodup (s.threads cur).pagedir (apartIff.mpr apart) (clearIff.mpr clear)
    have upage : ∀ k (inside : k < (image.entries (s.threads cur).pagedir).length),
        SameSource (final.pages (s.nextPage + k)) ((image.entries (s.threads cur).pagedir).get ⟨k, inside⟩) := by
      intro k inside
      rw [← addAll_new s cur _ k inside]
      exact same.source _
    refine ⟨apartIff.mpr apart, clearIff.mpr clear, fun p atLeast bound => ?_, fun phdr member k inside => ?_⟩
    · obtain ⟨k, rfl⟩ := Nat.exists_eq_add_of_le atLeast
      rw [same.nextPage, addAll_nextPage] at bound
      have inside : k < (image.entries (s.threads cur).pagedir).length := by omega
      rw [(upage k inside).upage, same.hashFind]
      exact addAll_found fresh distinct inside
    · -- The entry of the page is one of those built.
      have listed : pageEntry image.file (s.threads cur).pagedir phdr.isWritable (pgRoundDown phdr.offset)
          (pgRoundDown phdr.vaddr) phdr.readBytes k ∈ image.entries (s.threads cur).pagedir := by
        refine List.mem_append_left _ (List.mem_flatMap.mpr ⟨phdr, member, ?_⟩)
        exact List.mem_map_of_mem (List.mem_range.mpr inside)
      obtain ⟨⟨j, bound⟩, isEntry⟩ := List.get_of_mem listed
      refine ⟨s.nextPage + j, ?_, isEntry ▸ upage j bound⟩
      have found := addAll_found fresh distinct bound
      rw [isEntry] at found
      rw [same.hashFind]
      exact found

def loadedState : Execution State Halt Bool → Option State
  | .returned true final => some final
  | _ => none

theorem loadedState_some {result : Execution State Halt Bool} (loaded : loadedState result = some final) :
    result = .returned true final := by
  unfold loadedState at loaded
  split at loaded
  · cases loaded
    rfl
  · cases loaded

theorem load_own_contents_demo :
    ∃ final, load 1 demoImage {} ((bootState 4096).spawn 1 5) = .returned true final ∧
      OwnContents 1 demoImage ((bootState 4096).spawn 1 5) final := by
  obtain ⟨final, loaded⟩ := Option.isSome_iff_exists.mp
    (by decide +kernel : (loadedState (load 1 demoImage {} ((bootState 4096).spawn 1 5))).isSome = true)
  have done := loadedState_some loaded
  exact ⟨final, done, (load_own_contents_iff rfl done).mpr (by decide)⟩

def overlappingImage : Image :=
  { demoImage with
    phdrs := [⟨ptLoad, 0, 0x08048000, 0x800, 0x800, 4⟩, ⟨ptLoad, 0x1800, 0x08048800, 0x800, 0x800, 2⟩] }

/-- Its load returns true, and the data is nowhere: the page is that of the code. -/
theorem overlap_loses_data :
    ∃ final, load 1 overlappingImage {} ((bootState 8192).spawn 1 5) = .returned true final ∧
      (final.pages 2).upage = 0x08048000 ∧ (final.pages 2).ofs = 0x1000 ∧ final.hashFind 1 0x08048000 = some 1 ∧
      ¬OwnContents 1 overlappingImage ((bootState 8192).spawn 1 5) final := by
  have checked : (loadedState (load 1 overlappingImage {} ((bootState 8192).spawn 1 5))).any (fun final =>
      (final.pages 2).upage = 0x08048000 ∧ (final.pages 2).ofs = 0x1000 ∧ final.hashFind 1 0x08048000 = some 1 ∧
        final.nextPage = 4) = true := by
    decide +kernel
  obtain ⟨final, loaded, facts⟩ := (Option.any_eq_true _ _).mp checked
  obtain ⟨upage, ofs, found, next⟩ := of_decide_eq_true facts
  refine ⟨final, loadedState_some loaded, upage, ofs, found, fun own => ?_⟩
  have second := own.found 2 (by decide) (by rw [next]; decide)
  rw [upage, found] at second
  exact absurd second (by decide)

end Pintos.Vm
