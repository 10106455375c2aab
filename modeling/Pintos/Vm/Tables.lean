import Mathlib.Data.List.Find
import Mathlib.Data.List.Induction
import Pintos.Vm.Moves

/-! The frames and the supplemental page tables, over every move.

`Frames` is about physical frames, `Tables` about which process has which page
under which directory. Most moves change neither, so they only have to show
that what these invariants read is the same before and after.
-/

set_option autoImplicit false

namespace Pintos.Vm
open Semantics

variable {s : State} {m : Move}

/-! ## The frames -/

variable {after : State} {t p pagedir : Nat}

theorem Frames.of_same (frames : Frames s) (kpage : ∀ i, (after.frameTable i).kpage = (s.frameTable i).kpage)
    (clock : firstEvictable ≤ after.clockPointer ∧ after.clockPointer < totalPages) : Frames after := by
  refine ⟨fun i bound => ?_, fun i bi j bj same => ?_, clock⟩
  · rw [kpage]
    exact frames.kpage_pos i bound
  · rw [kpage, kpage] at same
    exact frames.kpage_inj i bi j bj same

theorem frameFree_rest (s : State) (kpage : Nat) :
    s.frameFree kpage =
      { s with frameTable := (s.frameFree kpage).frameTable, occupancy := (s.frameFree kpage).occupancy } := by
  unfold State.frameFree
  induction List.range totalPages using List.reverseRecOn with
  | nil => rfl
  | append_singleton indices i ih =>
    rw [List.foldl_append, List.foldl_cons, List.foldl_nil]
    unfold State.freeAt at ih ⊢
    split
    · rw [ih]
      rfl
    · exact ih

theorem clearPage_eq (s : State) (p : Nat) :
    s.clearPage p = if (s.pages p).location = .inFrame then
        { s with
          frameTable := (s.frameFree (s.pages p).kpage).frameTable
          occupancy := (s.frameFree (s.pages p).kpage).occupancy
          pages := Function.update s.pages p { s.pages p with kpage := 0, location := .cleared } }
      else s := by
  unfold State.clearPage
  split
  · rw [frameFree_rest]
    rfl
  · rfl

theorem frameFree_kpage (s : State) (kpage i : Nat) :
    ((s.frameFree kpage).frameTable i).kpage = (s.frameTable i).kpage := by
  unfold State.frameFree
  induction List.range totalPages generalizing s with
  | nil => rfl
  | cons j rest ih =>
    rw [List.foldl_cons, ih]
    unfold State.freeAt
    split
    · exact released_kpage s j i
    · rfl

theorem installed_kpage (s : State) (t p i j : Nat) :
    ((s.installed t p i).frameTable j).kpage = (s.frameTable j).kpage := by
  by_cases same : j = i
  · subst same
    simp [State.installed, State.occupied]
  · simp [State.installed, State.occupied, same]

theorem pageAdd_eq (s : State) (t p : Nat) : s.pageAdd t p = { s with threads := (s.pageAdd t p).threads } := by
  unfold State.pageAdd
  split <;> rfl

theorem built_eq (s : State) (t : Nat) (page : Page) :
    s.built t page =
      { s with
        pages := Function.update s.pages s.nextPage page
        nextPage := s.nextPage + 1
        threads := (s.built t page).threads } := by
  unfold State.built
  rw [pageAdd_eq]
  rfl

theorem act_kpage (s : State) (move : Move) (i : Nat) :
    ((s.act move).frameTable i).kpage = (s.frameTable i).kpage := by
  cases move with
  | glance | fill | store | ending | drop | enter | stillborn => rfl
  | pageOut slot =>
    simp only [State.act, pageOut_eq]
    by_cases here : i = s.clockPointer
    · simp [here]
    · simp [here]
  | fileIn t p j bytes => exact installed_kpage _ t p j i
  | swapIn t p j => exact installed_kpage _ t p j i
  | growIn t upage j =>
    refine (installed_kpage _ t s.nextPage j i).trans ?_
    rw [built_eq]
  | unmatched j => exact released_kpage s j i
  | build t page =>
    simp only [State.act]
    rw [built_eq]
  | clear p =>
    simp only [State.act, clearPage_eq]
    split
    · exact frameFree_kpage s _ i
    · rfl
  | leave t =>
    simp only [State.act, State.left, State.processExit]
    split <;> rfl
  | spawn t pagedir =>
    simp only [State.act, State.spawn]
    split <;> rfl

theorem Frames.act (frames : Frames s) (fits : m.Fits s) : Frames (s.act m) := by
  refine frames.of_same (act_kpage s m) ?_
  have clock := frames.clock
  cases m with
  | glance pagedirs position => exact fits.2
  | pageOut slot =>
    simp only [State.act, pageOut_eq]
    exact advanceClock_range clock
  | fill | store | fileIn | swapIn | unmatched | ending | drop | stillborn | enter => exact clock
  | growIn t upage i =>
    simp only [State.act, State.installed, State.occupied]
    rw [built_eq]
    exact clock
  | build t page =>
    simp only [State.act]
    rw [built_eq]
    exact clock
  | clear p =>
    simp only [State.act, clearPage_eq]
    split <;> exact clock
  | leave t =>
    simp only [State.act, State.left, State.processExit]
    split <;> exact clock
  | spawn t pagedir =>
    simp only [State.act, State.spawn]
    split <;> exact clock

/-! ## The supplemental page tables -/

structure Tables (s : State) : Prop where
  next_pos : s.nextPage ≠ 0
  allocated : ∀ {t p}, s.Owns t p → p ≠ 0 ∧ p < s.nextPage
  owner : ∀ {t u p}, s.Owns t p → s.Owns u p → t = u
  live : ∀ {t p}, s.Owns t p → (s.threads t).live
  directory : ∀ {t p}, s.Owns t p → (s.threads t).pagedir ≠ 0
  running : ∀ {t}, (s.threads t).phase = .running → (s.threads t).pagedir ≠ 0
  registered : ∀ {t}, (s.threads t).live → (s.threads t).pagedir ≠ 0 → (s.threads t).pagedir ∈ s.directories
  exclusive : ∀ {t u}, (s.threads t).live → (s.threads u).live → (s.threads t).pagedir = (s.threads u).pagedir →
    (s.threads t).pagedir ≠ 0 → t = u
  pagedir : ∀ {t p}, s.Owns t p → (s.pages p).pagedir = (s.threads t).pagedir
  upage_inj : ∀ {t p q}, s.Owns t p → s.Owns t q → (s.pages p).upage = (s.pages q).upage → p = q
  aligned : ∀ {t p}, s.Owns t p → pgOfs (s.pages p).upage = 0
  user : ∀ {t p}, s.Owns t p → (s.pages p).upage < physBase

structure SameTables (s after : State) : Prop where
  spt : ∀ t, (after.threads t).spt = (s.threads t).spt
  directory : ∀ t, (after.threads t).pagedir = (s.threads t).pagedir
  live : ∀ t, (after.threads t).live ↔ (s.threads t).live
  running : ∀ t, (after.threads t).phase = .running → (s.threads t).phase = .running
  upage : ∀ p, (after.pages p).upage = (s.pages p).upage
  pagedir : ∀ p, (after.pages p).pagedir = (s.pages p).pagedir
  nextPage : after.nextPage = s.nextPage
  directories : after.directories = s.directories

namespace SameTables

theorem of_eq {after : State} (threads : after.threads = s.threads) (pages : after.pages = s.pages)
    (nextPage : after.nextPage = s.nextPage) (directories : after.directories = s.directories) : SameTables s after := by
  refine ⟨?_, ?_, ?_, ?_, ?_, ?_, nextPage, directories⟩ <;> simp [threads, pages]

theorem trans {middle after : State} (first : SameTables s middle) (second : SameTables middle after) :
    SameTables s after where
  spt t := (second.spt t).trans (first.spt t)
  directory t := (second.directory t).trans (first.directory t)
  live t := (second.live t).trans (first.live t)
  running t := fun run => first.running t (second.running t run)
  upage p := (second.upage p).trans (first.upage p)
  pagedir p := (second.pagedir p).trans (first.pagedir p)
  nextPage := second.nextPage.trans first.nextPage
  directories := second.directories.trans first.directories

theorem setPage {p : Nat} {value : Page} (upage : value.upage = (s.pages p).upage)
    (pagedir : value.pagedir = (s.pages p).pagedir) : SameTables s (s.setPage p value) := by
  refine ⟨fun _ => rfl, fun _ => rfl, fun _ => Iff.rfl, fun _ run => run, fun q => ?_, fun q => ?_, rfl, rfl⟩
  · by_cases same : q = p
    · simp [same, upage]
    · simp [same]
  · by_cases same : q = p
    · simp [same, pagedir]
    · simp [same]

theorem setThread {t : Nat} {value : Thread} (spt : value.spt = (s.threads t).spt)
    (directory : value.pagedir = (s.threads t).pagedir) (live : value.live ↔ (s.threads t).live)
    (running : value.phase = .running → (s.threads t).phase = .running) : SameTables s (s.setThread t value) := by
  refine ⟨fun u => ?_, fun u => ?_, fun u => ?_, fun u => ?_, fun _ => rfl, fun _ => rfl, rfl, rfl⟩ <;>
    by_cases same : u = t <;> simp_all

theorem installed (s : State) (t p i : Nat) : SameTables s (s.installed t p i) := by
  have mapped : SameTables s ((s.setPte (s.threads t).pagedir (s.pages p).upage
      { present := true, page := (s.frameTable i).kpage, writable := (s.pages p).writable }).occupied
        (s.pages p).upage (s.pages p).pagedir p i) := of_eq rfl rfl rfl rfl
  exact mapped.trans (setPage rfl rfl)

theorem slotFreed (s : State) (p : Nat) (location : Location) : SameTables s (s.slotFreed p location) := by
  have unset : SameTables s (s.setSlot ((s.pages p).swapLocation / 8) false) := of_eq rfl rfl rfl rfl
  exact unset.trans (setPage rfl rfl)

theorem fetched (s : State) (p i : Nat) (location : Location) : SameTables s (s.fetched p i location) := by
  have filled : ∀ bytes, SameTables s (s.setRam (s.frameTable i).kpage bytes) := fun _ => of_eq rfl rfl rfl rfl
  exact (filled _).trans (slotFreed _ p location)

theorem ending {t : Nat} (live : (s.threads t).live) (status : Int) : SameTables s (s.ending t status) :=
  setThread rfl rfl ⟨fun _ => live, fun _ => Or.inr rfl⟩ (fun run => by cases run)

end SameTables

theorem SameTables.owns (same : SameTables s after) : after.Owns t p ↔ s.Owns t p := by
  unfold State.Owns
  rw [same.spt]

theorem Tables.of_same (tables : Tables s) (same : SameTables s after) : Tables after where
  next_pos := by rw [same.nextPage]; exact tables.next_pos
  allocated owned := by rw [same.nextPage]; exact tables.allocated (same.owns.mp owned)
  owner first second := tables.owner (same.owns.mp first) (same.owns.mp second)
  live owned := (same.live _).mpr (tables.live (same.owns.mp owned))
  directory owned := by rw [same.directory]; exact tables.directory (same.owns.mp owned)
  running run := by rw [same.directory]; exact tables.running (same.running _ run)
  registered live := by
    rw [same.directory, same.directories]
    exact tables.registered ((same.live _).mp live)
  exclusive first second := by
    rw [same.directory, same.directory]
    exact tables.exclusive ((same.live _).mp first) ((same.live _).mp second)
  pagedir owned := by rw [same.pagedir, same.directory]; exact tables.pagedir (same.owns.mp owned)
  upage_inj first second := by
    rw [same.upage, same.upage]
    exact tables.upage_inj (same.owns.mp first) (same.owns.mp second)
  aligned owned := by rw [same.upage]; exact tables.aligned (same.owns.mp owned)
  user owned := by rw [same.upage]; exact tables.user (same.owns.mp owned)

/-! ## A new entry -/

theorem hashFind_some {upage : Nat} (found : s.hashFind t upage = some p) :
    s.Owns t p ∧ (s.pages p).upage = upage := by
  refine ⟨List.mem_of_find?_eq_some found, ?_⟩
  have here := List.find?_some found
  simpa using here

theorem hashFind_none {upage : Nat} (absent : s.hashFind t upage = none) (owned : s.Owns t p) :
    (s.pages p).upage ≠ upage := by
  have there := List.find?_eq_none.mp absent p owned
  simpa using there

theorem built_threads (tables : Tables s) (t : Nat) (page : Page) :
    (s.built t page).threads =
      if s.hashFind t page.upage = none then
        Function.update s.threads t { s.threads t with spt := s.nextPage :: (s.threads t).spt }
      else s.threads := by
  have lookup : State.hashFind { s.setPage s.nextPage page with nextPage := s.nextPage + 1 } t page.upage =
      s.hashFind t page.upage := by
    unfold State.hashFind
    apply List.find?_congr
    intro q owned
    have older : q ≠ s.nextPage := Nat.ne_of_lt (tables.allocated owned).2
    simp [older]
  unfold State.built State.pageAdd
  simp only [State.setPage_pages, Function.update_self, lookup]
  cases s.hashFind t page.upage with
  | none => rfl
  | some q => rfl

theorem owns_built (tables : Tables s) (t : Nat) (page : Page) (u q : Nat) :
    (s.built t page).Owns u q ↔ s.Owns u q ∨ (u = t ∧ q = s.nextPage ∧ s.hashFind t page.upage = none) := by
  unfold State.Owns
  rw [built_threads tables]
  by_cases absent : s.hashFind t page.upage = none
  · by_cases same : u = t
    · subst same
      simp [absent, or_comm]
    · simp [absent, same]
  · simp [absent]

theorem built_thread (tables : Tables s) (t : Nat) (page : Page) (u : Nat) :
    ((s.built t page).threads u).phase = (s.threads u).phase ∧
      ((s.built t page).threads u).pagedir = (s.threads u).pagedir := by
  rw [built_threads tables]
  split
  · by_cases same : u = t
    · subst same
      simp
    · simp [same]
  · exact ⟨rfl, rfl⟩

theorem built_live (tables : Tables s) (t : Nat) (page : Page) (u : Nat) :
    ((s.built t page).threads u).live ↔ (s.threads u).live := by
  unfold Thread.live
  rw [(built_thread tables t page u).1]

theorem built_old (tables : Tables s) (t : Nat) (page : Page) {u q : Nat} (owned : s.Owns u q) :
    (s.built t page).pages q = s.pages q := by
  have older : q ≠ s.nextPage := Nat.ne_of_lt (tables.allocated owned).2
  rw [built_eq]
  exact Function.update_of_ne older _ _

theorem built_new (s : State) (t : Nat) (page : Page) : (s.built t page).pages s.nextPage = page := by
  rw [built_eq]
  exact Function.update_self _ _ _

theorem Tables.built (tables : Tables s) {page : Page} (fits : Buildable s t page) :
    Tables (s.built t page) := by
  have directory := fun u => (built_thread tables t page u).2
  have phase := fun u => (built_thread tables t page u).1
  have next : (s.built t page).nextPage = s.nextPage + 1 := by rw [built_eq]
  have dirs : (s.built t page).directories = s.directories := by rw [built_eq]
  constructor
  case next_pos => omega
  case allocated =>
    intro u q owned
    rw [next]
    rcases (owns_built tables t page u q).mp owned with older | ⟨_, rfl, _⟩
    · have bound := tables.allocated older
      omega
    · exact ⟨tables.next_pos, by omega⟩
  case owner =>
    intro u v q first second
    rcases (owns_built tables t page u q).mp first with older | ⟨rfl, rfl, _⟩ <;>
      rcases (owns_built tables _ page v _).mp second with older' | ⟨same, isNew, _⟩
    · exact tables.owner older older'
    · have bound := (tables.allocated older).2
      omega
    · have bound := (tables.allocated older').2
      omega
    · exact same.symm
  case live =>
    intro u q owned
    rw [built_live tables]
    rcases (owns_built tables t page u q).mp owned with older | ⟨rfl, _, _⟩
    · exact tables.live older
    · exact fits.live
  case directory =>
    intro u q owned
    rw [directory]
    rcases (owns_built tables t page u q).mp owned with older | ⟨rfl, _, _⟩
    · exact tables.directory older
    · exact fits.directory
  case running =>
    intro u run
    rw [phase] at run
    rw [directory]
    exact tables.running run
  case registered =>
    intro u live
    rw [built_live tables] at live
    rw [directory, dirs]
    exact tables.registered live
  case exclusive =>
    intro u v first second
    rw [built_live tables] at first second
    rw [directory, directory]
    exact tables.exclusive first second
  case pagedir =>
    intro u q owned
    rw [directory]
    rcases (owns_built tables t page u q).mp owned with older | ⟨rfl, rfl, _⟩
    · rw [built_old tables t page older]
      exact tables.pagedir older
    · rw [built_new]
      exact fits.pagedir
  case upage_inj =>
    intro u q r first second
    rcases (owns_built tables t page u q).mp first with older | ⟨rfl, rfl, absent⟩ <;>
      rcases (owns_built tables _ page _ r).mp second with older' | ⟨same, rfl, absent'⟩
    · rw [built_old tables t page older, built_old tables t page older']
      exact tables.upage_inj older older'
    · subst same
      rw [built_old tables _ page older, built_new]
      exact fun same => absurd same (hashFind_none absent' older)
    · rw [built_old tables _ page older', built_new]
      exact fun same => absurd same.symm (hashFind_none absent older')
    · exact fun _ => rfl
  case aligned =>
    intro u q owned
    rcases (owns_built tables t page u q).mp owned with older | ⟨rfl, rfl, _⟩
    · rw [built_old tables t page older]
      exact tables.aligned older
    · rw [built_new]
      exact fits.aligned
  case user =>
    intro u q owned
    rcases (owns_built tables t page u q).mp owned with older | ⟨rfl, rfl, _⟩
    · rw [built_old tables t page older]
      exact tables.user older
    · rw [built_new]
      exact fits.user

/-! ## Birth and death -/

theorem left_eq (s : State) (t : Nat) :
    s.left t =
      { s with
        threads := Function.update s.threads t { s.threads t with phase := .gone, spt := [], pagedir := 0 }
        pagedirs := if (s.threads t).pagedir = 0 then s.pagedirs
          else Function.update s.pagedirs (s.threads t).pagedir Pagedir.empty
        directories := if (s.threads t).pagedir = 0 then s.directories
          else s.directories.erase (s.threads t).pagedir } := by
  unfold State.left State.processExit
  by_cases none : (s.threads t).pagedir = 0
  · simp [State.setThread, none]
  · simp [State.setThread, none]

theorem spawn_eq (s : State) (t : Nat) (given : pagedir ≠ 0) :
    s.spawn t pagedir =
      { s with
        threads := Function.update s.threads t { phase := .running, spt := [], pagedir := pagedir }
        pagedirs := Function.update s.pagedirs pagedir Pagedir.empty
        directories := pagedir :: s.directories } := by
  unfold State.spawn
  rw [if_neg given]
  rfl

theorem stillborn_eq (s : State) (t : Nat) :
    (s.spawn t 0).ending t 0 =
      { s with threads := Function.update s.threads t { phase := .exiting, spt := [], pagedir := 0 } } := by
  simp [State.spawn, State.ending, State.setThread]

structure Replaced (s after : State) (t : Nat) (value : Thread) : Prop where
  threads : after.threads = Function.update s.threads t value
  empty : value.spt = []
  pages : after.pages = s.pages
  nextPage : after.nextPage = s.nextPage

namespace Replaced
variable {after : State} {t : Nat} {value : Thread} (replaced : Replaced s after t value)
include replaced

theorem owns {u q : Nat} : after.Owns u q ↔ u ≠ t ∧ s.Owns u q := by
  unfold State.Owns
  rw [replaced.threads]
  by_cases same : u = t
  · subst same
    simp [replaced.empty]
  · simp [same]

theorem other {u : Nat} (different : u ≠ t) : after.threads u = s.threads u := by
  rw [replaced.threads]
  exact Function.update_of_ne different _ _

theorem self : after.threads t = value := by
  rw [replaced.threads]
  exact Function.update_self _ _ _

theorem tables (tables : Tables s) (running : value.phase = .running → value.pagedir ≠ 0)
    (kept : ∀ u, u ≠ t → (s.threads u).live → (s.threads u).pagedir ≠ 0 →
      (s.threads u).pagedir ∈ after.directories)
    (own : value.live → value.pagedir ≠ 0 → value.pagedir ∈ after.directories ∧ value.pagedir ∉ s.directories) :
    Tables after := by
  have apart : ∀ u, u ≠ t → (s.threads u).live → value.live → (s.threads u).pagedir = value.pagedir →
      value.pagedir ≠ 0 → False := by
    intro u _ live liveValue same given
    have taken := tables.registered live (same ▸ given)
    exact (own liveValue given).2 (same ▸ taken)
  constructor
  case next_pos => rw [replaced.nextPage]; exact tables.next_pos
  case allocated =>
    intro u q owned
    rw [replaced.nextPage]
    exact tables.allocated (replaced.owns.mp owned).2
  case owner => exact fun first second => tables.owner (replaced.owns.mp first).2 (replaced.owns.mp second).2
  case live =>
    intro u q owned
    obtain ⟨different, older⟩ := replaced.owns.mp owned
    rw [replaced.other different]
    exact tables.live older
  case directory =>
    intro u q owned
    obtain ⟨different, older⟩ := replaced.owns.mp owned
    rw [replaced.other different]
    exact tables.directory older
  case running =>
    intro u
    by_cases same : u = t
    · subst same
      rw [replaced.self]
      exact running
    · rw [replaced.other same]
      exact tables.running
  case registered =>
    intro u
    by_cases same : u = t
    · subst same
      rw [replaced.self]
      exact fun live given => (own live given).1
    · rw [replaced.other same]
      exact kept u same
  case exclusive =>
    intro u v first second equal given
    by_cases sameU : u = t <;> by_cases sameV : v = t
    · exact sameU.trans sameV.symm
    · subst sameU
      rw [replaced.self] at first equal given
      rw [replaced.other sameV] at second equal
      exact (apart v sameV second first equal.symm given).elim
    · subst sameV
      rw [replaced.self] at second equal
      rw [replaced.other sameU] at first equal given
      exact (apart u sameU first second equal (equal ▸ given)).elim
    · rw [replaced.other sameU] at first equal given
      rw [replaced.other sameV] at second equal
      exact tables.exclusive first second equal given
  case pagedir =>
    intro u q owned
    obtain ⟨different, older⟩ := replaced.owns.mp owned
    rw [replaced.other different, replaced.pages]
    exact tables.pagedir older
  case upage_inj =>
    intro u q r first second
    rw [replaced.pages]
    exact tables.upage_inj (replaced.owns.mp first).2 (replaced.owns.mp second).2
  case aligned =>
    intro u q owned
    rw [replaced.pages]
    exact tables.aligned (replaced.owns.mp owned).2
  case user =>
    intro u q owned
    rw [replaced.pages]
    exact tables.user (replaced.owns.mp owned).2

end Replaced

theorem replaced_left (s : State) (t : Nat) :
    Replaced s (s.left t) t { s.threads t with phase := .gone, spt := [], pagedir := 0 } := by
  rw [left_eq]
  exact ⟨rfl, rfl, rfl, rfl⟩

theorem replaced_spawn (s : State) (t : Nat) (given : pagedir ≠ 0) :
    Replaced s (s.spawn t pagedir) t { phase := .running, spt := [], pagedir := pagedir } := by
  rw [spawn_eq s t given]
  exact ⟨rfl, rfl, rfl, rfl⟩

theorem replaced_stillborn (s : State) (t : Nat) :
    Replaced s ((s.spawn t 0).ending t 0) t { phase := .exiting, spt := [], pagedir := 0 } := by
  rw [stillborn_eq]
  exact ⟨rfl, rfl, rfl, rfl⟩

theorem Tables.left (tables : Tables s) (exiting : (s.threads t).phase = .exiting) :
    Tables (s.left t) := by
  refine (replaced_left s t).tables tables (fun run => by cases run) (fun u different live given => ?_)
    (fun live => by rcases live with run | exit <;> contradiction)
  rw [left_eq]
  dsimp only
  split
  · exact tables.registered live given
  · refine (List.mem_erase_of_ne fun same => different ?_).mpr (tables.registered live given)
    exact tables.exclusive live (Or.inr exiting) same given

theorem Tables.spawn (tables : Tables s) (given : pagedir ≠ 0) (fresh : pagedir ∉ s.directories) :
    Tables (s.spawn t pagedir) := by
  have listed : (s.spawn t pagedir).directories = pagedir :: s.directories := by rw [spawn_eq s t given]
  refine (replaced_spawn s t given).tables tables (fun _ => given) (fun u _ live hasOne => ?_) (fun _ _ => ?_)
  · rw [listed]
    exact List.mem_cons_of_mem _ (tables.registered live hasOne)
  · rw [listed]
    exact ⟨List.mem_cons_self, fresh⟩

/-- Every other move leaves processes and page entries where they are. -/
def Move.Steady : Move → Prop
  | .growIn .. | .build .. | .leave .. | .spawn .. | .stillborn .. => False
  | _ => True

theorem SameTables.act (fits : m.Fits s) (steady : m.Steady) : SameTables s (s.act m) := by
  cases m with
  | glance | fill | store | unmatched => exact .of_eq rfl rfl rfl rfl
  | pageOut slot =>
    simp only [State.act, pageOut_eq]
    have moved : SameTables s (s.setPage (s.frameTable s.clockPointer).pagePointer
        { s.pages (s.frameTable s.clockPointer).pagePointer with
          swapLocation := slot * 8, location := .inSwap, kpage := 0 }) := .setPage rfl rfl
    exact moved.trans (.of_eq rfl rfl rfl rfl)
  | fileIn t p i bytes =>
    have filled : SameTables s (s.setRam (s.frameTable i).kpage bytes) := .of_eq rfl rfl rfl rfl
    exact filled.trans (.installed _ t p i)
  | swapIn t p i => exact (SameTables.fetched s p i .cleared).trans (.installed _ t p i)
  | ending t status => exact .ending fits status
  | drop p => exact .slotFreed s p .inSwap
  | clear p =>
    simp only [State.act, clearPage_eq]
    split
    · have cleared : SameTables s (s.setPage p { s.pages p with kpage := 0, location := .cleared }) := .setPage rfl rfl
      exact cleared.trans (.of_eq rfl rfl rfl rfl)
    · exact .of_eq rfl rfl rfl rfl
  | enter t esp => exact .setThread rfl rfl Iff.rfl fun run => run
  | growIn | build | leave | spawn | stillborn => exact steady.elim

theorem Tables.act (tables : Tables s) (fits : m.Fits s) : Tables (s.act m) := by
  cases m with
  | growIn t upage i => exact (tables.built fits.1).of_same (.installed _ t s.nextPage i)
  | build t page => exact tables.built fits
  | leave t => exact tables.left fits.1
  | spawn t pagedir => exact tables.spawn fits.2.1 fits.2.2
  | stillborn t =>
    have same : ((s.spawn t 0).ending t 0).directories = s.directories := by rw [stillborn_eq]
    refine (replaced_stillborn s t).tables tables (fun run => by cases run) (fun u _ live given => ?_)
      (fun _ given => absurd rfl given)
    rw [same]
    exact tables.registered live given
  | _ => exact tables.of_same (.act fits trivial)

end Pintos.Vm
