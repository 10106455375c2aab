import Pintos.Vm.Interleaving
import Pintos.Vm.Transparency

/-! When interleaved page-ins share no frame.

`frame_find_empty` returns a frame without reserving it, and `frame_evict` works
without the lock. The frames in use are disjoint in every schedule that scans for
a frame only while no process holds one it has not installed, picks a victim only
while no process is evicting, and frees no frame that is being evicted.
-/

set_option autoImplicit false

namespace Pintos.Vm.Interleaved
open Semantics Computation

variable {n : Nat} {m final : Machine n} {s after : State}

/-- No frame is in use by two page-ins, and no entry by two evictions. -/
structure Disjoint (m : Machine n) : Prop where
  frames : ∀ t u kpage, (m.pcs t).holds = some kpage → (m.pcs u).holds = some kpage → t = u
  victims : ∀ t u index, (m.pcs t).evicts = some index → (m.pcs u).evicts = some index → t = u

/-- A stretch from here is one the schedule may run now. -/
def Pc.Orderly (m : Machine n) : Pc → Prop
  | .scan _ => ∀ u, (m.pcs u).holds = none
  | .evict _ => ∀ u, (m.pcs u).evicts = none
  | .clearing p _ => ∀ u, ∀ index ∈ (m.pcs u).evicts, (m.vm.frameTable index).kpage ≠ (m.vm.pages p).kpage
  | _ => True

instance (m : Machine n) : (pc : Pc) → Decidable (pc.Orderly m)
  | .scan _ => inferInstanceAs (Decidable (∀ u, (m.pcs u).holds = none))
  | .evict _ => inferInstanceAs (Decidable (∀ u, (m.pcs u).evicts = none))
  | .clearing p _ => inferInstanceAs
      (Decidable (∀ u, ∀ index ∈ (m.pcs u).evicts, (m.vm.frameTable index).kpage ≠ (m.vm.pages p).kpage))
  | .user | .find .. | .found .. | .full .. | .write .. | .ready .. | .fileRead .. | .swapEnter .. | .swapRead ..
  | .swapLeave .. | .install .. | .installing .. | .installed .. | .free .. | .freeing .. | .freed .. | .clear ..
  | .cleared .. | .gone => inferInstanceAs (Decidable True)

/-- The schedule keeps apart what the code does not, and no page at address 0 is brought in. -/
def Event.Orderly (m : Machine n) : Event n → Prop
  | .fault t addr esp user writes => ¬Vm.Event.MapsNull m.vm (.fault t addr esp user writes {})
  | .advance t _ => (m.pcs t).Orderly m
  | _ => True

instance (m : Machine n) : (event : Event n) → Decidable (event.Orderly m)
  | .fault t addr esp user writes =>
      inferInstanceAs (Decidable (¬Vm.Event.MapsNull m.vm (.fault t addr esp user writes {})))
  | .advance t _ => inferInstanceAs (Decidable ((m.pcs t).Orderly m))
  | .read .. | .write .. | .exit .. => inferInstanceAs (Decidable True)

structure Listed (s : State) : Prop where
  page : ∀ t p, s.Owns t p → p < s.nextPage ∧ (s.pages p).pagedir ≠ 0
  running : ∀ t, (s.threads t).phase = .running → (s.threads t).pagedir ≠ 0

/-- All processes are in user mode, and an entry of the frame table has a directory exactly when it has a page. -/
structure Calm (m : Machine n) : Prop where
  user : ∀ t, m.pcs t = .user
  frames : Frames m.vm
  marked : ∀ i < totalPages, (m.vm.frameTable i).upage = 0 ↔ (m.vm.frameTable i).pagedir = 0
  listed : Listed m.vm

/-- The states between the steps of the atomic model are calm. -/
theorem calm_of_backed (sound : Sound s) (backed : Backed s) : Calm (⟨s, none, fun _ => .user⟩ : Machine n) := by
  refine ⟨fun _ => rfl, sound.frames, fun i bound => ⟨fun null => ?_, sound.resident.unused i bound⟩,
    fun t p owned => ⟨(sound.tables.allocated owned).2, ?_⟩, fun t running => sound.tables.running running⟩
  · exact backed.vacant ⟨bound, null⟩
  · rw [sound.tables.pagedir owned]
    exact sound.tables.directory owned

/-! ## What the handlers rely on -/

def Task.Valid (s : State) (t : Nat) : Task → Prop
  | .grow upage => upage ≠ 0 ∧ (s.threads t).pagedir ≠ 0
  | .file p | .swap p => p < s.nextPage ∧ (s.pages p).upage ≠ 0 ∧ (s.pages p).pagedir ≠ 0

def Pc.Valid (s : State) (t : Nat) : Pc → Prop
  | .find task | .scan task | .found task _ | .full task | .evict task | .write task _ _ _ _ | .ready task _ =>
      task.Valid s t
  | .fileRead p _ _ _ | .swapEnter p _ | .swapRead p _ _ | .swapLeave p _ => (Task.file p).Valid s t
  | .install _ upage _ pagedir | .installing _ upage _ pagedir => upage ≠ 0 ∧ pagedir ≠ 0
  | _ => True

structure Rest (t : Nat) (s after : State) : Prop where
  nextPage : s.nextPage ≤ after.nextPage
  entry : ∀ p < s.nextPage, (after.pages p).upage = (s.pages p).upage ∧ (after.pages p).pagedir = (s.pages p).pagedir
  others : ∀ u, u ≠ t → after.threads u = s.threads u
  owned : ∀ p, after.Owns t p → s.Owns t p ∨ p < after.nextPage ∧ (after.pages p).pagedir ≠ 0
  running : (after.threads t).phase = .running →
    (s.threads t).phase = .running ∧ (after.threads t).pagedir = (s.threads t).pagedir

namespace Rest
variable {t : Nat}

theorem of_eq (threads : after.threads = s.threads) (pages : after.pages = s.pages) (nextPage : after.nextPage = s.nextPage) :
    Rest t s after := by
  refine ⟨nextPage.ge, fun p _ => by simp [pages], fun u _ => by rw [threads], fun p owned => Or.inl ?_, ?_⟩
  · unfold State.Owns at owned ⊢
    rw [threads] at owned
    exact owned
  · rw [threads]
    exact fun running => ⟨running, rfl⟩

theorem setPage {p : Nat} {value : Page} (upage : value.upage = (s.pages p).upage)
    (pagedir : value.pagedir = (s.pages p).pagedir) : Rest t s (s.setPage p value) := by
  refine ⟨le_rfl, fun q _ => ?_, fun _ _ => rfl, fun _ owned => Or.inl owned, fun running => ⟨running, rfl⟩⟩
  by_cases same : q = p
  · simp [same, upage, pagedir]
  · simp [same]

theorem trans {middle : State} (first : Rest t s middle) (second : Rest t middle after) : Rest t s after := by
  refine ⟨first.nextPage.trans second.nextPage, fun p bound => ?_, fun u other => ?_, fun p owned => ?_, fun running => ?_⟩
  · obtain ⟨upage, pagedir⟩ := second.entry p (Nat.lt_of_lt_of_le bound first.nextPage)
    exact ⟨upage.trans (first.entry p bound).1, pagedir.trans (first.entry p bound).2⟩
  · rw [second.others u other, first.others u other]
  · rcases second.owned p owned with older | new
    · rcases first.owned p older with oldest | ⟨bound, given⟩
      · exact Or.inl oldest
      · exact Or.inr ⟨Nat.lt_of_lt_of_le bound second.nextPage, by rw [(second.entry p bound).2]; exact given⟩
    · exact Or.inr new
  · obtain ⟨before, directory⟩ := second.running running
    exact ⟨(first.running before).1, directory.trans (first.running before).2⟩

theorem ended (value : Thread) (ended : value.phase ≠ .running) (spt : ∀ p ∈ value.spt, s.Owns t p)
    (threads : after.threads = Function.update s.threads t value) (pages : after.pages = s.pages)
    (nextPage : after.nextPage = s.nextPage) : Rest t s after := by
  refine ⟨nextPage.ge, fun p _ => by simp [pages], fun u other => ?_, fun p owned => Or.inl (spt p ?_), fun running => ?_⟩
  · rw [threads]
    exact Function.update_of_ne other _ _
  · unfold State.Owns at owned
    rw [threads, Function.update_self] at owned
    exact owned
  · rw [threads, Function.update_self] at running
    exact absurd running ended

theorem ending (status : Int) : Rest t s (s.ending t status) := by
  have stops : Phase.exiting ≠ .running := by decide
  exact ended { s.threads t with phase := .exiting, exitStatus := status } stops (fun _ owned => owned) rfl rfl rfl

theorem left : Rest t s (s.left t) := by
  have replaced := replaced_left s t
  have stops : Phase.gone ≠ .running := by decide
  exact ended _ stops (fun _ inside => by cases inside) replaced.threads replaced.pages replaced.nextPage

theorem built {page : Page} (given : page.pagedir ≠ 0) : Rest t s (s.built t page) := by
  have added : Rest t { s.setPage s.nextPage page with nextPage := s.nextPage + 1 } (s.built t page) := by
    have new : (Function.update s.pages s.nextPage page) s.nextPage = page := Function.update_self _ _ _
    unfold State.built State.pageAdd
    split
    · exact of_eq rfl rfl rfl
    · refine ⟨le_rfl, fun _ _ => ⟨rfl, rfl⟩, fun u other => Function.update_of_ne other _ _, fun p owned => ?_,
        fun running => ?_⟩
      · unfold State.Owns at owned
        simp only [State.setThread_threads, Function.update_self] at owned
        rcases List.mem_cons.mp owned with rfl | older
        · refine Or.inr ⟨Nat.lt_succ_self _, ?_⟩
          simp only [State.setThread_pages, State.setPage_pages, new]
          exact given
        · exact Or.inl older
      · simp only [State.setThread_threads, Function.update_self] at running ⊢
        exact ⟨running, trivial⟩
  have allocated : Rest t s { s.setPage s.nextPage page with nextPage := s.nextPage + 1 } := by
    refine ⟨Nat.le_succ _, fun p bound => ?_, fun _ _ => rfl, fun _ owned => Or.inl owned, fun running => ⟨running, rfl⟩⟩
    have different : p ≠ s.nextPage := bound.ne
    simp [different]
  exact allocated.trans added

end Rest

theorem Listed.of_rest {t : Nat} (listed : Listed s) (rest : Rest t s after) : Listed after := by
  have old : ∀ u p, s.Owns u p → p < after.nextPage ∧ (after.pages p).pagedir ≠ 0 := by
    intro u p owned
    obtain ⟨bound, given⟩ := listed.page u p owned
    exact ⟨Nat.lt_of_lt_of_le bound rest.nextPage, by rw [(rest.entry p bound).2]; exact given⟩
  constructor
  · intro u p owned
    by_cases self : u = t
    · subst self
      rcases rest.owned p owned with older | new
      · exact old u p older
      · exact new
    · unfold State.Owns at owned
      rw [rest.others u self] at owned
      exact old u p owned
  · intro u running
    by_cases self : u = t
    · subst self
      obtain ⟨before, directory⟩ := rest.running running
      rw [directory]
      exact listed.running u before
    · rw [rest.others u self] at running ⊢
      exact listed.running u running

variable {t : Fin n} {task : Task} {pc : Pc} {next : Machine n} {index kpage sector : Nat}

theorem Task.Valid.of_rest {t u : Nat} (valid : task.Valid s u) (rest : Rest t s after)
    (directory : (after.threads u).pagedir = (s.threads u).pagedir) : task.Valid after u := by
  cases task with
  | grow upage => exact ⟨valid.1, by rw [directory]; exact valid.2⟩
  | file p | swap p =>
    obtain ⟨bound, upage, pagedir⟩ := valid
    obtain ⟨sameUpage, samePagedir⟩ := rest.entry p bound
    exact ⟨Nat.lt_of_lt_of_le bound rest.nextPage, by rw [sameUpage]; exact upage, by rw [samePagedir]; exact pagedir⟩

theorem Pc.Valid.of_rest {t u : Nat} (valid : pc.Valid s u) (rest : Rest t s after)
    (directory : (after.threads u).pagedir = (s.threads u).pagedir) : pc.Valid after u := by
  cases pc with
  | find task | scan task | found task | full task | evict task | write task | ready task =>
    exact Task.Valid.of_rest valid rest directory
  | fileRead p | swapEnter p | swapRead p | swapLeave p =>
    have task : (Task.file p).Valid s u := valid
    exact task.of_rest rest directory
  | _ => exact valid

/-! ## The invariant -/

structure Safe (m : Machine n) : Prop where
  frames : Frames m.vm
  marked : ∀ i < totalPages, (m.vm.frameTable i).upage = 0 ↔ (m.vm.frameTable i).pagedir = 0
  listed : Listed m.vm
  valid : ∀ t, (m.pcs t).Valid m.vm t
  held : ∀ t kpage, (m.pcs t).holds = some kpage →
    ∃ i < totalPages, (m.vm.frameTable i).kpage = kpage ∧ (m.vm.frameTable i).upage = 0
  apart : ∀ t u kpage, (m.pcs t).holds = some kpage → (m.pcs u).holds = some kpage → t = u
  victim : ∀ t index, (m.pcs t).evicts = some index →
    index = m.vm.clockPointer ∧ (m.vm.frameTable index).upage ≠ 0
  single : ∀ t u, (m.pcs t).evicts ≠ none → (m.pcs u).evicts ≠ none → t = u

theorem Safe.disjoint (safe : Safe m) : Disjoint m := by
  refine ⟨safe.apart, fun t u index first second => safe.single t u ?_ ?_⟩
  · rw [first]; nofun
  · rw [second]; nofun

theorem Calm.safe (calm : Calm m) : Safe m := by
  have none : ∀ t, (m.pcs t).holds = none ∧ (m.pcs t).evicts = none := fun t => by
    rw [calm.user]
    exact ⟨rfl, rfl⟩
  refine ⟨calm.frames, calm.marked, calm.listed, fun t => ?_, fun t kpage holds => ?_, fun t u kpage holds => ?_,
    fun t index evicts => ?_, fun t u evicts => absurd (none t).2 evicts⟩
  · rw [calm.user]
    trivial
  · rw [(none t).1] at holds
    cases holds
  · rw [(none t).1] at holds
    cases holds
  · rw [(none t).2] at evicts
    cases evicts

/-- What has to be known of a stretch of process `t` that ends at `pc`. -/
theorem Safe.goto (safe : Safe m) (rest : Rest t m.vm after) (vm : next.vm = after)
    (pcs : next.pcs = Function.update m.pcs t pc) (valid : pc.Valid after t) (frames : Frames after)
    (marked : ∀ i < totalPages, (after.frameTable i).upage = 0 ↔ (after.frameTable i).pagedir = 0)
    (own : ∀ kpage, pc.holds = some kpage → (∃ i < totalPages, (after.frameTable i).kpage = kpage ∧ (after.frameTable i).upage = 0) ∧ ∀ u, u ≠ t → (m.pcs u).holds ≠ some kpage)
    (held : ∀ u kpage, u ≠ t → (m.pcs u).holds = some kpage → ∃ i < totalPages, (after.frameTable i).kpage = kpage ∧ (after.frameTable i).upage = 0)
    (picked : ∀ index, pc.evicts = some index → (index = after.clockPointer ∧ (after.frameTable index).upage ≠ 0) ∧ ∀ u, u ≠ t → (m.pcs u).evicts = none)
    (victim : ∀ u index, u ≠ t → (m.pcs u).evicts = some index → index = after.clockPointer ∧ (after.frameTable index).upage ≠ 0) :
    Safe next := by
  subst vm
  have here : next.pcs t = pc := by rw [pcs, Function.update_self]
  have there : ∀ {u}, u ≠ t → next.pcs u = m.pcs u := fun other => by rw [pcs, Function.update_of_ne other]
  refine ⟨frames, marked, safe.listed.of_rest rest, fun u => ?_, fun u kpage holds => ?_, fun u w kpage first second => ?_,
    fun u index evicts => ?_, fun u w first second => ?_⟩
  · by_cases self : u = t
    · rw [self, here]
      exact valid
    · rw [there self]
      have different : (u : Nat) ≠ t := fun same => self (Fin.ext same)
      exact (safe.valid u).of_rest rest (by rw [rest.others u different])
  · by_cases self : u = t
    · rw [self, here] at holds
      exact (own kpage holds).1
    · rw [there self] at holds
      exact held u kpage self holds
  · by_cases selfU : u = t <;> by_cases selfW : w = t
    · rw [selfU, selfW]
    · rw [selfU, here] at first
      rw [there selfW] at second
      exact absurd second ((own kpage first).2 w selfW)
    · rw [selfW, here] at second
      rw [there selfU] at first
      exact absurd first ((own kpage second).2 u selfU)
    · rw [there selfU] at first
      rw [there selfW] at second
      exact safe.apart u w kpage first second
  · by_cases self : u = t
    · rw [self, here] at evicts
      exact (picked index evicts).1
    · rw [there self] at evicts
      exact victim u index self evicts
  · by_cases selfU : u = t <;> by_cases selfW : w = t
    · rw [selfU, selfW]
    · rw [selfU, here] at first
      rw [there selfW] at second
      obtain ⟨index, evicts⟩ := Option.ne_none_iff_exists'.mp first
      exact absurd ((picked index evicts).2 w selfW) second
    · rw [selfW, here] at second
      rw [there selfU] at first
      obtain ⟨index, evicts⟩ := Option.ne_none_iff_exists'.mp second
      exact absurd ((picked index evicts).2 u selfU) first
    · rw [there selfU] at first
      rw [there selfW] at second
      exact safe.single u w first second

/-- A stretch that leaves the frame table alone and takes nothing new. -/
theorem Safe.quiet (safe : Safe m) (rest : Rest t m.vm after) (vm : next.vm = after)
    (pcs : next.pcs = Function.update m.pcs t pc) (valid : pc.Valid after t)
    (table : after.frameTable = m.vm.frameTable) (clock : after.clockPointer = m.vm.clockPointer)
    (holds : ∀ kpage, pc.holds = some kpage → (m.pcs t).holds = some kpage)
    (evicts : ∀ index, pc.evicts = some index → (m.pcs t).evicts = some index) : Safe next := by
  have frames : Frames after := safe.frames.of_same (fun _ => by rw [table]) (by rw [clock]; exact safe.frames.clock)
  refine safe.goto rest vm pcs valid frames ?_ (fun kpage own => ⟨?_, fun u other held => other ?_⟩)
    (fun u kpage _ own => ?_) (fun index own => ⟨?_, fun u other => ?_⟩) (fun u index _ own => ?_)
  · rw [table]
    exact safe.marked
  · rw [table]
    exact safe.held t kpage (holds kpage own)
  · exact safe.apart u t kpage held (holds kpage own)
  · rw [table]
    exact safe.held u kpage own
  · rw [table, clock]
    exact safe.victim t index (evicts index own)
  · by_contra busy
    refine other (safe.single u t busy ?_)
    rw [evicts index own]
    nofun
  · rw [table, clock]
    exact safe.victim u index own

/-- A stretch that rewrites one entry of the frame table, which nobody else evicts
or, unless it stays free, holds. -/
theorem Safe.rewrites (safe : Safe m) {i : Nat} {entry : FrameTableElem} (rest : Rest t m.vm after)
    (vm : next.vm = after) (pcs : next.pcs = Function.update m.pcs t pc) (valid : pc.Valid after t)
    (table : after.frameTable = Function.update m.vm.frameTable i entry)
    (clock : firstEvictable ≤ after.clockPointer ∧ after.clockPointer < totalPages) (bound : i < totalPages)
    (kpage : entry.kpage = (m.vm.frameTable i).kpage) (marked : entry.upage = 0 ↔ entry.pagedir = 0)
    (own : ∀ k, pc.holds = some k → k = entry.kpage ∧ entry.upage = 0 ∧ ∀ u, u ≠ t → (m.pcs u).holds ≠ some k)
    (held : entry.upage ≠ 0 → ∀ u, u ≠ t → (m.pcs u).holds ≠ some entry.kpage) (idle : pc.evicts = none)
    (victim : ∀ u index, u ≠ t → (m.pcs u).evicts = some index → index ≠ i ∧ after.clockPointer = m.vm.clockPointer) :
    Safe next := by
  have here : after.frameTable i = entry := by rw [table, Function.update_self]
  have there : ∀ {j}, j ≠ i → after.frameTable j = m.vm.frameTable j := fun other => by
    rw [table, Function.update_of_ne other]
  have kpages : ∀ j, (after.frameTable j).kpage = (m.vm.frameTable j).kpage := by
    intro j
    by_cases same : j = i
    · rw [same, here, kpage]
    · rw [there same]
  refine safe.goto rest vm pcs valid (safe.frames.of_same kpages clock) (fun j inside => ?_) (fun k holds => ?_)
    (fun u k other holds => ?_) (fun index evicts => ?_) (fun u index other evicts => ?_)
  · by_cases same : j = i
    · rw [same, here]
      exact marked
    · rw [there same]
      exact safe.marked j inside
  · obtain ⟨rfl, null, rest⟩ := own k holds
    exact ⟨⟨i, bound, by rw [here], by rw [here]; exact null⟩, rest⟩
  · obtain ⟨j, inside, rfl, null⟩ := safe.held u k holds
    by_cases same : j = i
    · subst same
      refine ⟨j, inside, kpages j, ?_⟩
      rw [here]
      by_contra used
      exact held used u other (by rw [kpage]; exact holds)
    · exact ⟨j, inside, kpages j, by rw [there same]; exact null⟩
  · rw [idle] at evicts
    cases evicts
  · obtain ⟨different, sameClock⟩ := victim u index other evicts
    rw [there different, sameClock]
    exact safe.victim u index evicts

/-! ## The stretches that change who uses a frame -/

theorem Safe.scanned (safe : Safe m) (at_scan : m.pcs t = .scan task) (none : ∀ u, (m.pcs u).holds = none) :
    Safe (m.goto t m.vm (scanBody m.vm task)) := by
  have valid : task.Valid m.vm t := by
    have here := safe.valid t
    rw [at_scan] at here
    exact here
  have rest : Rest t m.vm m.vm := .of_eq rfl rfl rfl
  unfold scanBody
  by_cases room : m.vm.occupancy < totalPages
  swap
  · rw [if_neg room]
    exact safe.quiet rest rfl rfl valid rfl rfl nofun nofun
  rw [if_pos room]
  cases found : m.vm.firstFree with
  | none => exact safe.quiet rest rfl rfl valid rfl rfl nofun nofun
  | some i =>
    obtain ⟨bound, null, _⟩ := firstFree_spec found
    refine safe.goto rest rfl rfl valid safe.frames safe.marked (fun k holds => ?_)
      (fun u k _ holds => safe.held u k holds) nofun (fun u index _ evicts => safe.victim u index evicts)
    have isFrame : (m.vm.frameTable i).kpage = k := by
      simp only [Pc.holds, if_neg (safe.frames.kpage_pos i bound), Option.some.injEq] at holds
      exact holds
    refine ⟨⟨i, bound, isFrame, null⟩, fun u _ => ?_⟩
    rw [none u]
    nofun

/-- What `frame_evict` has done when it starts to write. -/
theorem evictPick_returned (frames : Frames s) (picked : evictPick s = .returned (index, kpage, sector) after)
    (t : Nat) :
    after.frameTable = s.frameTable ∧ index = after.clockPointer ∧ (firstEvictable ≤ index ∧ index < totalPages) ∧
      (s.frameTable index).pagedir ≠ 0 ∧ after.threads = s.threads ∧ Rest t s after := by
  cases selected : evictSelect evictFuel s with
  | stopped why stop =>
    rw [evictPick, bind_of_stopped selected] at picked
    cases picked
  | returned value stop =>
    obtain ⟨glanced, range, directory⟩ := evictSelect_returned frames.clock selected
    rw [evictPick, bind_of_returned selected, bind_get, bind_apply, pagedirClearPage_apply] at picked
    split at picked
    case h_2 => cases picked
    rename_i middle cleared
    split at cleared
    swap
    · cases cleared
    cases cleared
    simp only [swapGetFree, bind_apply, get_apply, unmapped_freeSlot] at picked
    cases available : stop.freeSlot with
    | none =>
      rw [available] at picked
      cases picked
    | some slot =>
      rw [available] at picked
      cases picked
      rw [glanced.frameTable] at directory
      refine ⟨?_, ?_, range, directory, ?_, ?_⟩
      · rw [unmapped_eq]
        exact glanced.frameTable
      · rw [unmapped_eq]
        rfl
      · rw [unmapped_eq]
        exact glanced.threads
      · have looked : Rest t s stop := .of_eq glanced.threads glanced.pages glanced.nextPage
        have cleared : Rest t stop ((stop.unmapped (stop.frameTable stop.clockPointer).pagedir
            (stop.frameTable stop.clockPointer).upage).setSlot slot true) := by
          rw [unmapped_eq]
          exact .of_eq rfl rfl rfl
        exact (looked.trans cleared).trans (.setPage rfl rfl)

theorem Safe.picked (safe : Safe m) (at_evict : m.pcs t = .evict task) (none : ∀ u, (m.pcs u).evicts = none)
    (picked : evictPick m.vm = .returned (index, kpage, sector) after) :
    Safe (m.goto t after (.write task index kpage sector 0)) := by
  obtain ⟨table, clock, range, directory, threads, rest⟩ := evictPick_returned safe.frames picked t
  have valid : task.Valid after t := by
    have here := safe.valid t
    rw [at_evict] at here
    exact Task.Valid.of_rest here rest (by rw [threads])
  refine safe.goto rest rfl rfl valid (safe.frames.of_same (fun _ => by rw [table]) (clock ▸ range)) ?_ nofun
    (fun u k _ holds => ?_) (fun picks isIndex => ⟨?_, fun u _ => none u⟩) (fun u other _ evicts => ?_)
  · rw [table]
    exact safe.marked
  · rw [table]
    exact safe.held u k holds
  · cases isIndex
    refine ⟨clock, fun null => directory ?_⟩
    rw [table] at null
    exact (safe.marked index range.2).mp null
  · rw [none u] at evicts
    cases evicts

theorem Safe.finished {count : Nat} (safe : Safe m) (at_write : m.pcs t = .write task index kpage sector count) :
    Safe (m.goto t m.vm.evicted (.ready task (m.vm.frameTable m.vm.clockPointer).kpage)) := by
  have picks : (m.pcs t).evicts = some index := by rw [at_write]; rfl
  obtain ⟨rfl, used⟩ := safe.victim t index picks
  have alone : ∀ u other, u ≠ t → (m.pcs u).evicts = some other → False := by
    intro u other different evicts
    refine different (safe.single u t ?_ ?_)
    · rw [evicts]; nofun
    · rw [picks]; nofun
  have rest : Rest t m.vm m.vm.evicted := by
    have moved : Rest t m.vm (m.vm.setPage (m.vm.frameTable m.vm.clockPointer).pagePointer
        { m.vm.pages (m.vm.frameTable m.vm.clockPointer).pagePointer with location := .inSwap, kpage := 0 }) :=
      .setPage rfl rfl
    exact moved.trans (.of_eq rfl rfl rfl)
  have valid : task.Valid m.vm.evicted t := by
    have here := safe.valid t
    rw [at_write] at here
    exact Task.Valid.of_rest here rest rfl
  have range := safe.frames.clock
  refine safe.rewrites rest rfl rfl valid rfl (advanceClock_range range) range.2 rfl (Iff.intro (fun _ => rfl) fun _ => rfl)
    (fun k holds => ?_) (fun used => absurd rfl used) rfl (fun u other different evicts => (alone u other different evicts).elim)
  have isFrame : (m.vm.frameTable m.vm.clockPointer).kpage = k := by
    simp only [Pc.holds, if_neg (safe.frames.kpage_pos _ range.2), Option.some.injEq] at holds
    exact holds
  subst isFrame
  refine ⟨rfl, rfl, fun u _ held => ?_⟩
  obtain ⟨j, inside, same, null⟩ := safe.held u _ held
  rw [safe.frames.kpage_inj j inside _ range.2 same] at null
  exact used null

theorem Safe.install_cases {p upage pagedir : Nat} (safe : Safe m)
    (at_install : m.pcs t = .installing p upage kpage pagedir) (writable allocated : Bool) :
    (∃ i < totalPages, (m.vm.frameTable i).kpage = kpage ∧
      frameInstall t upage kpage pagedir writable p allocated m.vm =
        .returned true ((m.vm.setPte (m.vm.threads t).pagedir upage
          { present := true, page := kpage, writable := writable }).occupied upage pagedir p i)) ∨
    frameInstall t upage kpage pagedir writable p allocated m.vm = .returned false m.vm ∨
    frameInstall t upage kpage pagedir writable p allocated m.vm = .stopped .panic m.vm := by
  by_cases null : kpage = 0
  · rcases installPage_cases (s := m.vm) t upage kpage writable allocated with ⟨_, _, kernel⟩ | refused | failed
    · rw [null] at kernel
      exact absurd kernel (by decide)
    · refine Or.inr (Or.inl ?_)
      unfold frameInstall
      rw [bind_of_returned refused]
      rfl
    · refine Or.inr (Or.inr ?_)
      unfold frameInstall
      exact bind_of_stopped failed
  · have holds : (m.pcs t).holds = some kpage := by
      rw [at_install]
      exact if_neg null
    obtain ⟨i, bound, rfl, free⟩ := safe.held t kpage holds
    rcases frameInstall_cases safe.frames t upage pagedir p writable allocated bound free with
      ⟨done, _⟩ | refused | failed
    · exact Or.inl ⟨i, bound, rfl, done⟩
    · exact Or.inr (Or.inl refused)
    · exact Or.inr (Or.inr failed)

theorem Safe.installs {p upage pagedir i : Nat} {entry : Pte} (safe : Safe m) (bound : i < totalPages)
    (at_install : m.pcs t = .installing p upage (m.vm.frameTable i).kpage pagedir) :
    Safe (m.goto t ((m.vm.setPte (m.vm.threads t).pagedir upage entry).occupied upage pagedir p i)
      (.installed p (m.vm.frameTable i).kpage true)) := by
  have given : upage ≠ 0 ∧ pagedir ≠ 0 := by
    have here := safe.valid t
    rw [at_install] at here
    exact here
  have holds : (m.pcs t).holds = some (m.vm.frameTable i).kpage := by
    rw [at_install]
    exact if_neg (safe.frames.kpage_pos i bound)
  obtain ⟨j, inside, same, free⟩ := safe.held t _ holds
  have isEntry := safe.frames.kpage_inj j inside i bound same
  subst isEntry
  have rest : Rest t m.vm ((m.vm.setPte (m.vm.threads t).pagedir upage entry).occupied upage pagedir p j) :=
    .of_eq rfl rfl rfl
  refine safe.rewrites rest rfl rfl trivial rfl safe.frames.clock bound rfl
    ⟨fun null => absurd null given.1, fun null => absurd null given.2⟩ nofun (fun _ u other held => ?_) rfl
    (fun u index _ evicts => ⟨?_, rfl⟩)
  · exact other (safe.apart u t _ held holds)
  · rintro rfl
    exact (safe.victim u index evicts).2 free

theorem Safe.frees (safe : Safe m) (idle : pc.holds = none ∧ pc.evicts = none)
    (valid : pc.Valid (m.vm.frameFree kpage) t)
    (elsewhere : ∀ u index, u ≠ t → (m.pcs u).evicts = some index → (m.vm.frameTable index).kpage ≠ kpage) :
    Safe (m.goto t (m.vm.frameFree kpage) pc) := by
  have nothing : ∀ k, pc.holds = some k → False := fun k holds => by rw [idle.1] at holds; cases holds
  have rest : Rest t m.vm (m.vm.frameFree kpage) := by
    rw [frameFree_rest]
    exact .of_eq rfl rfl rfl
  rcases frameFree_cases safe.frames kpage with ⟨i, bound, rfl, freed⟩ | ⟨_, same⟩
  · have table : (m.vm.frameFree (m.vm.frameTable i).kpage).frameTable =
        Function.update m.vm.frameTable i { kpage := (m.vm.frameTable i).kpage } := by
      rw [freed]
      rfl
    refine safe.rewrites rest rfl rfl valid table (by rw [freed]; exact safe.frames.clock) bound rfl
      (Iff.intro (fun _ => rfl) fun _ => rfl) (fun k holds => (nothing k holds).elim) (fun used => absurd rfl used) idle.2
      (fun u index other evicts => ⟨?_, by rw [freed]; rfl⟩)
    rintro rfl
    exact elsewhere u index other evicts rfl
  · rw [same] at rest valid ⊢
    refine safe.quiet rest rfl rfl valid rfl rfl (fun k holds => (nothing k holds).elim) (fun index evicts => ?_)
    rw [idle.2] at evicts
    cases evicts

/-! ## Every step -/

section
variable (safe : Safe m)
include safe

theorem Safe.acquired (taken : m.acquire t pc = some next) (valid : pc.Valid m.vm t)
    (holds : pc.holds = (m.pcs t).holds) (evicts : pc.evicts = (m.pcs t).evicts) :
    Safe next := by
  unfold Machine.acquire at taken
  split at taken
  · cases taken
    have rest : Rest t m.vm m.vm := .of_eq rfl rfl rfl
    exact safe.quiet rest rfl rfl valid rfl rfl (fun _ own => holds ▸ own) (fun _ own => evicts ▸ own)
  · cases taken

/-- A process that is being ended holds nothing. -/
theorem Safe.ends {spt : List Nat} (rest : Rest t m.vm after) (vm : next.vm = after)
    (pcs : next.pcs = Function.update m.pcs t (.clear spt)) (table : after.frameTable = m.vm.frameTable)
    (clock : after.clockPointer = m.vm.clockPointer) : Safe next :=
  safe.quiet rest vm pcs trivial table clock nofun nofun

theorem Safe.begins {env : Env} (at_ready : m.pcs t = .ready task kpage)
    (taken : m.begin t kpage env task = some next) : Safe next := by
  have valid : task.Valid m.vm t := by
    have here := safe.valid t
    rw [at_ready] at here
    exact here
  have rest : Rest t m.vm m.vm := .of_eq rfl rfl rfl
  have keeps : ∀ k, (if kpage = 0 then none else some kpage) = some k → (m.pcs t).holds = some k := by
    rw [at_ready]
    exact fun _ holds => holds
  cases task with
  | grow upage =>
    simp only [Machine.begin] at taken
    split at taken
    · cases taken
      exact safe.quiet rest rfl rfl trivial rfl rfl nofun nofun
    · cases taken
      have built : Rest t m.vm (m.vm.built t (stackEntry upage (m.vm.threads t).pagedir .inFrame)) := .built valid.2
      exact safe.quiet built rfl rfl valid (built_frameTable _ _ _) (by rw [built_eq]) keeps nofun
  | file p =>
    simp only [Machine.begin] at taken
    split at taken
    · cases taken
    · split at taken
      · split at taken
        · cases taken
        · cases taken
          exact safe.ends (.ending _) rfl rfl rfl rfl
      · cases taken
        exact safe.quiet rest rfl rfl valid rfl rfl keeps nofun
  | swap p =>
    simp only [Machine.begin] at taken
    split at taken
    · cases taken
    · cases taken
      exact safe.quiet rest rfl rfl valid rfl rfl keeps nofun

theorem Safe.advance {env : Env} (orderly : Event.Orderly m (.advance t env))
    (taken : advance m t env = some next) : Safe next := by
  have here := safe.valid t
  have rest : Rest t m.vm m.vm := .of_eq rfl rfl rfl
  simp only [Event.Orderly] at orderly
  unfold Interleaved.advance at taken
  cases place : m.pcs t with
  | user | gone =>
    rw [place] at taken
    cases taken
  | find task =>
    rw [place] at taken here
    have locks : m.acquire t (.scan task) = some next := taken
    exact safe.acquired locks here (by rw [place]; rfl) (by rw [place]; rfl)
  | scan task =>
    rw [place] at taken orderly
    cases taken
    exact safe.scanned place orderly
  | found task kpage =>
    rw [place] at taken here
    cases taken
    exact safe.quiet rest rfl rfl here rfl rfl (fun _ own => by rw [place]; exact own) nofun
  | full task =>
    rw [place] at taken here
    cases taken
    exact safe.quiet rest rfl rfl here rfl rfl nofun nofun
  | evict task =>
    rw [place] at taken orderly
    cases result : evictPick m.vm with
    | stopped why vm =>
      rw [result] at taken
      cases taken
    | returned value vm =>
      obtain ⟨index, kpage, sector⟩ := value
      rw [result] at taken
      cases taken
      exact safe.picked place orderly result
  | write task index kpage sector count =>
    rw [place] at taken here
    simp only at taken
    split at taken
    · cases taken
      have written : Rest t m.vm (m.vm.sectorOut kpage sector count) := .of_eq rfl rfl rfl
      have valid : task.Valid (m.vm.sectorOut kpage sector count) t := Task.Valid.of_rest here written rfl
      exact safe.quiet written rfl rfl valid rfl rfl nofun (fun _ own => by rw [place]; exact own)
    · split at taken
      · cases taken
      · cases taken
        exact safe.finished place
  | ready task kpage =>
    rw [place] at taken
    exact safe.begins place taken
  | fileRead p kpage amount count =>
    rw [place] at taken here
    have filled : ∀ bytes, Rest t m.vm (m.vm.setRam kpage bytes) := fun _ => .of_eq rfl rfl rfl
    simp only at taken
    split at taken
    · cases taken
      exact safe.quiet (filled _) rfl rfl here rfl rfl (fun _ own => by rw [place]; exact own) nofun
    · split at taken
      · cases taken
        exact safe.quiet rest rfl rfl trivial rfl rfl (fun _ own => by rw [place]; exact own) nofun
      · cases taken
        exact safe.quiet (filled _) rfl rfl here.2 rfl rfl (fun _ own => by rw [place]; exact own) nofun
  | swapEnter p kpage =>
    rw [place] at taken here
    have locks : m.acquire t (.swapRead p kpage 0) = some next := taken
    exact safe.acquired locks here (by rw [place]; rfl) (by rw [place]; rfl)
  | swapRead p kpage count =>
    rw [place] at taken here
    simp only at taken
    split at taken
    · cases taken
      have filled : Rest t m.vm (m.vm.sectorIn kpage (m.vm.pages p).swapLocation count) := .of_eq rfl rfl rfl
      exact safe.quiet filled rfl rfl here rfl rfl (fun _ own => by rw [place]; exact own) nofun
    · split at taken
      · cases taken
        have unset : Rest t m.vm (m.vm.setSlot ((m.vm.pages p).swapLocation / 8) false) := .of_eq rfl rfl rfl
        have freed : Rest t m.vm ((m.vm.setSlot ((m.vm.pages p).swapLocation / 8) false).setPage p
            { m.vm.pages p with swapLocation := noSlot }) := unset.trans (.setPage rfl rfl)
        have task : (Task.swap p).Valid m.vm t := here
        exact safe.quiet freed rfl rfl (task.of_rest freed rfl) rfl rfl (fun _ own => by rw [place]; exact own) nofun
      · cases taken
  | swapLeave p kpage =>
    rw [place] at taken here
    cases taken
    exact safe.quiet rest rfl rfl here.2 rfl rfl (fun _ own => by rw [place]; exact own) nofun
  | install p upage kpage pagedir =>
    rw [place] at taken here
    have locks : m.acquire t (.installing p upage kpage pagedir) = some next := taken
    exact safe.acquired locks here (by rw [place]; rfl) (by rw [place]; rfl)
  | installing p upage kpage pagedir =>
    rw [place] at taken
    simp only at taken
    rcases safe.install_cases place (m.vm.pages p).writable env.pageTable with ⟨i, bound, rfl, done⟩ | refused | failed
    · rw [done] at taken
      cases taken
      exact safe.installs bound place
    · rw [refused] at taken
      cases taken
      exact safe.quiet rest rfl rfl trivial rfl rfl (fun _ own => by rw [place]; exact own) nofun
    · rw [failed] at taken
      cases taken
  | installed p kpage success =>
    rw [place] at taken
    cases success with
    | true =>
      cases taken
      have moved : Rest t m.vm (m.vm.setPage p { m.vm.pages p with location := .inFrame, kpage := kpage }) :=
        .setPage rfl rfl
      exact safe.quiet moved rfl rfl trivial rfl rfl nofun nofun
    | false =>
      cases taken
      exact safe.quiet rest rfl rfl trivial rfl rfl (fun _ own => by rw [place]; exact own) nofun
  | free kpage status =>
    rw [place] at taken
    have locks : m.acquire t (.freeing kpage status) = some next := taken
    exact safe.acquired locks trivial (by rw [place]; rfl) (by rw [place]; rfl)
  | freeing kpage status =>
    rw [place] at taken
    cases taken
    refine safe.frees ⟨rfl, rfl⟩ trivial fun u index _ evicts same => ?_
    -- The frame is held, so its entry is free; the victim's is not.
    obtain ⟨isClock, used⟩ := safe.victim u index evicts
    have bound : index < totalPages := isClock ▸ safe.frames.clock.2
    have holds : (m.pcs t).holds = some kpage := by
      rw [place]
      exact if_neg (same ▸ safe.frames.kpage_pos index bound)
    obtain ⟨j, inside, sameFrame, null⟩ := safe.held t kpage holds
    rw [safe.frames.kpage_inj j inside index bound (sameFrame.trans same.symm)] at null
    exact used null
  | freed status =>
    rw [place] at taken
    cases taken
    exact safe.ends (.ending _) rfl rfl rfl rfl
  | clear pages =>
    rw [place] at taken
    cases pages with
    | nil =>
      cases taken
      exact safe.quiet .left rfl rfl trivial (by rw [left_eq]) (by rw [left_eq]) nofun nofun
    | cons p others =>
      simp only at taken
      split at taken
      · have locks : m.acquire t (.clearing p others) = some next := taken
        exact safe.acquired locks trivial (by rw [place]; rfl) (by rw [place]; rfl)
      · cases taken
        exact safe.ends rest rfl rfl rfl rfl
  | clearing p others =>
    rw [place] at taken orderly
    cases taken
    exact safe.frees ⟨rfl, rfl⟩ trivial fun u index _ evicts => orderly u index evicts
  | cleared p others =>
    rw [place] at taken
    cases taken
    have moved : Rest t m.vm (m.vm.setPage p { m.vm.pages p with kpage := 0, location := .cleared }) := .setPage rfl rfl
    exact safe.ends moved rfl rfl rfl rfl

theorem Safe.faults {addr esp : Nat} {user writes : Bool}
    (running : (m.vm.threads t).phase = .running) (orderly : Event.Orderly m (.fault t addr esp user writes)) :
    Safe (pageFault m t addr esp user) := by
  have rest : Rest t m.vm m.vm := .of_eq rfl rfl rfl
  unfold pageFault
  by_cases bad : addr = 0 ∨ isKernelVaddr addr = true ∨ (m.vm.translate t addr).present = true
  · rw [if_pos bad]
    exact safe.ends (.ending _) rfl rfl rfl rfl
  rw [if_neg bad]
  have somewhere : addr ≠ 0 := fun null => bad (Or.inl null)
  cases found : m.vm.hashFind t (pgRoundDown addr) with
  | none =>
    by_cases grows : m.vm.growsStack t addr esp user
    swap
    · simp only [if_neg grows]
      exact safe.ends (.ending _) rfl rfl rfl rfl
    simp only [if_pos grows]
    have valid : (Task.grow (pgRoundDown addr)).Valid m.vm t :=
      ⟨fun null => orderly ⟨somewhere, null, Or.inr grows⟩, safe.listed.running t running⟩
    exact safe.quiet rest rfl rfl valid rfl rfl nofun nofun
  | some p =>
    obtain ⟨owned, upage⟩ := hashFind_some found
    have valid : (Task.file p).Valid m.vm t := by
      obtain ⟨bound, given⟩ := safe.listed.page t p owned
      refine ⟨bound, fun null => orderly ⟨somewhere, upage.symm.trans null, Or.inl ?_⟩, given⟩
      rw [upage.symm.trans null] at found
      rw [found]
      rfl
    dsimp only
    cases (m.vm.pages p).location with
    | inSwap | inFilesys => exact safe.quiet rest rfl rfl valid rfl rfl nofun nofun
    | inFrame | cleared => exact safe

/-- A user access changes no more than an accessed bit and the bytes of a frame. -/
theorem Safe.accessed (rest : Rest t m.vm after) (vm : next.vm = after) (pcs : next.pcs = m.pcs)
    (threads : after.threads = m.vm.threads) (table : after.frameTable = m.vm.frameTable)
    (clock : after.clockPointer = m.vm.clockPointer) : Safe next := by
  have same : next.pcs = Function.update m.pcs t (m.pcs t) := by rw [pcs, Function.update_eq_self]
  exact safe.quiet rest vm same ((safe.valid t).of_rest rest (by rw [threads])) table clock (fun _ own => own)
    (fun _ own => own)

theorem Safe.step {event : Event n} (orderly : event.Orderly m) (taken : step m event = some next) : Safe next := by
  cases event with
  | fault t addr esp user writes =>
    simp only [Interleaved.step] at taken
    split at taken <;> rename_i enabled
    · cases taken
      exact safe.faults enabled.2.1 orderly
    · cases taken
  | read t addr =>
    simp only [Interleaved.step] at taken
    split at taken
    · cases taken
      have rest : Rest t m.vm (m.vm.touch t addr) := .of_eq rfl rfl rfl
      exact safe.accessed rest rfl rfl rfl rfl rfl
    · cases taken
  | write t addr value =>
    simp only [Interleaved.step] at taken
    split at taken
    · cases taken
      have rest : ∀ kpage bytes, Rest t m.vm ((m.vm.touch t addr).setRam kpage bytes) := fun _ _ => .of_eq rfl rfl rfl
      exact safe.accessed (rest _ _) rfl rfl rfl rfl rfl
    · cases taken
  | exit t status =>
    simp only [Interleaved.step] at taken
    split at taken
    · cases taken
      exact safe.ends (.ending _) rfl rfl rfl rfl
    · cases taken
  | advance t env => exact safe.advance orderly taken

end

theorem page_ins_disjoint {events : List (Event n)} (calm : Calm m) (along : Along step Event.Orderly m events)
    (reached : run step m events = some final) : Disjoint final := by
  have safe : Safe final :=
    invariant_of_run step Safe (fun _ _ _ before orderly taken => before.step orderly taken) calm.safe along reached
  exact safe.disjoint

def readyMachine : Machine 3 := ⟨readyState, none, fun _ => .user⟩

theorem readyMachine_calm : Calm readyMachine :=
  calm_of_backed readyState_ready.intact.sound readyState_ready.intact.backed

/-- Both processes fault at once; the first has its page installed before the second scans. -/
def orderlySchedule : List (Event 3) :=
  [.fault 1 0x08048000 (physBase - 16) true false, .fault 2 0x08048000 (physBase - 16) true false] ++
    List.replicate 16 (.advance 1 {}) ++ List.replicate 8 (.advance 2 {})

theorem page_ins_disjoint_orderlySchedule :
    ∃ final, run step readyMachine orderlySchedule = some final ∧ Disjoint final := by
  have enabled : (run step readyMachine orderlySchedule).isSome = true := by decide +kernel
  obtain ⟨final, reached⟩ := Option.isSome_iff_exists.mp enabled
  exact ⟨final, reached, page_ins_disjoint readyMachine_calm (by decide +kernel) reached⟩

/-- The first process loses the processor when it releases the lock, with a frame it has not installed. -/
def racingSchedule : List (Event 3) :=
  .fault 1 0x08048000 (physBase - 16) true false :: List.replicate 3 (.advance 1 {}) ++
    .fault 2 0x08048000 (physBase - 16) true false :: List.replicate 3 (.advance 2 {})

theorem scan_returns_frame_twice :
    Calm readyMachine ∧ ∃ final, run step readyMachine racingSchedule = some final ∧ ¬Disjoint final := by
  have shared : (run step readyMachine racingSchedule).any (fun final =>
      (final.pcs 1).holds = some physBase ∧ (final.pcs 2).holds = some physBase) = true := by
    decide +kernel
  obtain ⟨final, reached, both⟩ := (Option.any_eq_true _ _).mp shared
  obtain ⟨first, second⟩ := of_decide_eq_true both
  refine ⟨readyMachine_calm, final, reached, fun disjoint => ?_⟩
  exact absurd (disjoint.frames 1 2 physBase first second) (by decide)

end Pintos.Vm.Interleaved
