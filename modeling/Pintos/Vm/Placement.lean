import Pintos.Vm.Contents
import Pintos.Vm.Overlaps

/-! Every page of a running process has a place.

Only `page_clear_all` stores the location 0, in a process that is exiting. The
entries a process is loaded with are in its executable, and the ones it gets
later start in a frame, so `page_fault_identifier` never meets an entry whose
location none of its cases is for.
-/

set_option autoImplicit false

namespace Pintos.Vm
open Semantics Computation

variable {s m final : State} {move : Move} {event : Event}

def Placed (s : State) : Prop :=
  ∀ t p, (s.threads t).phase = .running → s.Owns t p → (s.pages p).location ≠ .cleared

/-! ## Moves -/

variable {t cur : Nat} {image : Image} {env : Env}

theorem act_location (tables : Tables s) (fits : move.Fits s) {p : Nat} (running : (s.threads t).phase = .running)
    (owned : s.Owns t p) (placed : (s.pages p).location ≠ .cleared) :
    ((s.act move).pages p).location ≠ .cleared := by
  have installed : ∀ (m : State) (u q i : Nat), (q ≠ p → m.pages p = s.pages p) →
      ((m.installed u q i).pages p).location ≠ .cleared := by
    intro m u q i same
    by_cases here : p = q
    · rw [here, installed_page_self]
      simp
    · rw [installed_page_other m u q i here, same (Ne.symm here)]
      exact placed
  cases move with
  | pageOut slot =>
    by_cases victim : p = (s.frameTable s.clockPointer).pagePointer
    · rw [State.act, victim, pageOut_page_self]
      simp
    · rw [State.act, pageOut_page_other victim]
      exact placed
  | fileIn u q i bytes => exact installed _ u q i fun _ => rfl
  | swapIn u q i => exact installed _ u q i fun other => slotFreed_page_other _ q .cleared (Ne.symm other)
  | growIn u upage i => exact installed _ u s.nextPage i fun _ => built_old tables u _ owned
  | drop q =>
    by_cases here : p = q
    · rw [State.act, here, slotFreed_page_self]
      simp
    · rw [State.act, slotFreed_page_other s q .inSwap here]
      exact placed
  | build u page =>
    rw [State.act, built_old tables u page owned]
    exact placed
  | clear q =>
    -- Only the pages of an exiting process are cleared.
    obtain ⟨u, exiting, ownedQ⟩ := fits
    have other : p ≠ q := by
      rintro rfl
      rw [tables.owner owned ownedQ, exiting] at running
      cases running
    rw [State.act, clearPage_pages s q other]
    exact placed
  | leave u =>
    rw [State.act, (replaced_left s u).pages]
    exact placed
  | spawn u pagedir =>
    rw [State.act, (replaced_spawn s u fits.2.1).pages]
    exact placed
  | stillborn u =>
    rw [State.act, (replaced_stillborn s u).pages]
    exact placed
  | _ => exact placed

theorem Placed.act (placed : Placed s) (tables : Tables s) (fits : move.Fits s) (old : ¬move.Fresh s) :
    Placed (s.act move) := by
  intro t p running owned
  obtain ⟨was, pages⟩ := older_of_act tables fits old running
  by_cases older : s.Owns t p
  · exact act_location tables fits was older (placed t p was older)
  -- A page the process did not have before is one that its stack grew by.
  cases move with
  | growIn u upage i =>
    have kept := SameTables.installed (s.built u (stackEntry upage (s.threads u).pagedir .cleared)) u s.nextPage i
    rcases (owns_built tables u _ t p).mp (kept.owns.mp owned) with had | ⟨_, rfl, _⟩
    · exact absurd had older
    · rw [State.act, installed_page_self]
      simp
  | build u page =>
    rcases (owns_built tables u page t p).mp owned with had | ⟨rfl, _⟩
    · exact absurd had older
    · exact absurd was old
  | leave u => exact absurd ((replaced_left s u).owns.mp owned).2 older
  | spawn u pagedir => exact absurd trivial old
  | stillborn u => exact absurd ((replaced_stillborn s u).owns.mp owned).2 older
  | _ => exact absurd ((SameTables.act fits trivial).owns.mp owned) older

theorem Placed.path {failing : Prop} (placed : Placed m) (sound : Sound m) (later : ¬event.Loads)
    (path : Path s event failing m final) : Placed final := by
  refine (path.keeps (fun here => Sound here ∧ Placed here) (fun here next before allowed => ?_) ⟨sound, placed⟩).2
  exact ⟨before.1.act allowed.fits,
    before.2.act before.1.tables allowed.fits fun fresh => later (allowed.fresh fresh)⟩

/-! ## Loads -/

theorem Replaced.placed {after : State} {value : Thread} (replaced : Replaced s after t value) (placed : Placed s) :
    Placed after := by
  intro u p running owned
  obtain ⟨other, owns⟩ := replaced.owns.mp owned
  rw [replaced.other other] at running
  rw [replaced.pages]
  exact placed u p running owns

/-- Every table holds objects that `malloc` has returned, and their pages are placed. -/
structure Stocked (s : State) : Prop where
  below : ∀ t, s.Below t
  placed : Placed s

theorem Stocked.built (stocked : Stocked s) (t : Nat) {page : Page} (located : page.location ≠ .cleared) :
    Stocked (s.built t page) := by
  have threads := (stocked.below t).built_threads page
  have older : ∀ u p, (s.built t page).Owns u p → p = s.nextPage ∨ s.Owns u p := by
    intro u p owned
    unfold State.Owns at owned ⊢
    rw [threads] at owned
    split at owned
    · by_cases self : u = t
      · rw [self, Function.update_self] at owned
        rw [self]
        exact List.mem_cons.mp owned
      · rw [Function.update_of_ne self] at owned
        exact Or.inr owned
    · exact Or.inr owned
  have phase : ∀ u, ((s.built t page).threads u).phase = (s.threads u).phase := by
    intro u
    rw [threads]
    split
    · by_cases self : u = t
      · rw [self, Function.update_self]
      · rw [Function.update_of_ne self]
    · rfl
  constructor
  · intro u p owned
    have next : (s.built t page).nextPage = s.nextPage + 1 := by rw [built_eq]
    rw [next]
    rcases older u p owned with rfl | had
    · exact Nat.lt_succ_self _
    · exact Nat.lt_succ_of_lt (stocked.below u p had)
  · intro u p running owned
    rcases older u p owned with rfl | had
    · rw [built_new]
      exact located
    · have other : p ≠ s.nextPage := Nat.ne_of_lt (stocked.below u p had)
      have same : (s.built t page).pages p = s.pages p := by
        rw [built_eq]
        exact Function.update_of_ne other _ _
      rw [same]
      exact stocked.placed u p ((phase u).symm.trans running) had

theorem addAll_keeps {kept : State → Prop}
    (builds : ∀ here page, kept here → page.location = .inFilesys → kept (here.built cur page)) {pages : List Page}
    (located : ∀ page ∈ pages, page.location = .inFilesys) (start : kept m) : kept (m.addAll cur pages) := by
  induction pages generalizing m with
  | nil => exact start
  | cons page rest ih =>
    obtain ⟨first, others⟩ := List.forall_mem_cons.mp located
    exact ih others (builds m page start first)

/-- `load_segment` builds entries that are in the executable, and does nothing else. -/
theorem loadHeaders_keeps {kept : State → Prop}
    (builds : ∀ here page, kept here → page.location = .inFilesys → kept (here.built cur page)) {file : Nat}
    {phdrs : List Phdr} {ok : Bool} (start : kept m) (done : loadHeaders cur file phdrs m = .returned ok final) :
    kept final := by
  induction phdrs generalizing m with
  | nil =>
    cases done
    exact start
  | cons phdr rest ih =>
    unfold loadHeaders at done
    rw [bind_get] at done
    split at done
    · cases done
      exact start
    split at done
    · split at done <;> rename_i valid
      · obtain ⟨_, middle, loaded, later⟩ := bind_returned.mp done
        refine ih ?_ later
        rw [loadSegment_returned (validateSegment_iff.mp valid) loaded]
        refine addAll_keeps builds (fun page inside => ?_) start
        obtain ⟨k, -, rfl⟩ := List.mem_map.mp inside
        rfl
      · cases done
        exact start
    · exact ih start done

theorem Placed.ending (placed : Placed s) (tables : Tables s) (live : (s.threads t).live) (status : Int) :
    Placed (s.ending t status) := by
  have ends : Move.Fits s (.ending t status) := live
  exact placed.act tables ends id

/-- `setup_stack` is a growth of the stack, with the arguments stored in the page. -/
theorem setupStack_placed (placed : Placed m) (sound : Sound m) (running : (m.threads cur).phase = .running)
    (absent : m.hashFind cur stackPage = none) (settled : settle (setupStack cur image env m) = some final) :
    Placed final := by
  cases copied : image.copyPage with
  | false =>
    unfold setupStack at settled
    rw [copied] at settled
    cases settled
    exact placed
  | true =>
    cases found : frameFindEmpty m with
    | stopped why middle =>
      rw [setupStack_stopped env copied found] at settled
      rcases frameFindEmpty_stopped found with rfl | rfl <;> cases settled
    | returned kpage middle =>
      have later : ¬Event.Loads (.fault cur stackPage 0 true true env) := id
      obtain ⟨path, handed, result⟩ : Path m (.fault cur stackPage 0 true true env) False m middle ∧ _ :=
        find_leads sound found
      have sound' := path.sound sound
      have placed' := placed.path sound later path
      have running' : (middle.threads cur).phase = .running := handed.threads ▸ running
      rcases result with ⟨rfl, rfl⟩ | ⟨i, vacant, rfl⟩
      · rw [setupStack_unframed env copied found] at settled
        cases settled
        exact placed.ending sound.tables (Or.inl running) (-6)
      rw [setupStack_found env copied found (sound'.frames.kpage_pos i vacant.1)] at settled
      have null : stackPage = 0 → Event.MapsNull m (.fault cur stackPage 0 true true env) :=
        fun zero => absurd zero (by decide)
      have grows : Event.Grows cur stackPage (.fault cur stackPage 0 true true env) := ⟨rfl, by decide⟩
      rcases stack_cases sound' env running' (by decide) (by decide) (by rw [handed.hashFind]; exact absent) vacant
        null grows with ⟨done, allowed⟩ | ⟨last, failed, ends⟩ | ⟨last, stopped⟩
      · rw [bind_of_returned done] at settled
        cases settled
        exact placed'.act sound'.tables allowed.fits id
      · rw [bind_of_stopped failed] at settled
        cases settled
        exact placed'.path sound' later ends
      · rw [bind_of_stopped stopped] at settled
        cases settled

theorem load_placed (placed : Placed m) (sound : Sound m) (running : (m.threads cur).phase = .running)
    (absent : m.hashFind cur stackPage = none) (clear : image.ClearOfStack)
    (settled : settle (load cur image env m) = some final) : Placed final := by
  have stocked : Stocked m := ⟨fun t p owned => (sound.tables.allocated owned).2, placed⟩
  have loading : Event.Loads (.load cur image env) := trivial
  have loads : Loads m (.load cur image env) cur m (loadHeaders cur image.file image.phdrs m) :=
    loadHeaders_loads loading sound running absent image.file clear
  unfold load at settled
  split at settled
  · cases settled
    exact placed
  cases headers : loadHeaders cur image.file image.phdrs m with
  | stopped why middle =>
    rw [headers] at loads
    rw [bind_of_stopped headers] at settled
    rcases loads with rfl | rfl <;> cases settled
  | returned ok middle =>
    rw [headers] at loads
    rw [bind_of_returned headers] at settled
    have added : Placed middle := (loadHeaders_keeps (fun _ _ before located => before.built cur (located ▸ nofun))
      stocked headers).placed
    cases ok with
    | false =>
      cases settled
      exact added
    | true => exact setupStack_placed added (loads.1.sound sound) loads.2.1 loads.2.2 settled

theorem startProcess_placed (placed : Placed m) (sound : Sound m) (running : (m.threads cur).phase = .running)
    (absent : m.hashFind cur stackPage = none) (clear : image.ClearOfStack)
    (settled : settle (startProcess cur image env m) = some final) :
    Placed final := by
  obtain ⟨leads, still⟩ : Starts m (.load cur image env) cur m (load cur image env m) :=
    load_starts sound running absent clear env
  unfold startProcess at settled
  cases result : load cur image env m with
  | stopped why middle =>
    rw [bind_of_stopped result] at settled
    cases why with
    | exit status =>
      cases settled
      exact load_placed placed sound running absent clear (by rw [result]; rfl)
    | panic | diverge => cases settled
  | returned success middle =>
    rw [bind_of_returned result] at settled
    rw [result] at leads
    have placed' : Placed middle := load_placed placed sound running absent clear (by rw [result]; rfl)
    cases success with
    | true =>
      cases settled
      exact placed'
    | false =>
      cases settled
      exact placed'.ending (leads.sound sound).tables (Or.inl (still _ _ result)) 0

/-! ## Steps and runs -/

theorem placed_of_step (placed : Placed s) (sound : Sound s) (clear : event.ClearOfStack)
    (taken : step s event = some final) : Placed final := by
  by_cases loading : event.Loads
  swap
  · exact placed.path sound loading (step_path sound clear taken)
  cases event with
  | load t image env =>
    simp only [step] at taken
    split at taken <;> rename_i enabled
    swap
    · cases taken
    by_cases given : image.pagedir = 0
    · rw [startProcess_of_null env given, given] at taken
      cases taken
      exact (replaced_stillborn s t).placed placed
    · have fits : Move.Fits s (.spawn t image.pagedir) := ⟨enabled.1, given, enabled.2⟩
      obtain ⟨running, absent⟩ : _ ∧ (s.spawn t image.pagedir).hashFind t stackPage = none := spawn_ready given
      exact startProcess_placed ((replaced_spawn s t given).placed placed) (sound.act fits) running absent clear taken
  | _ => exact loading.elim

end Pintos.Vm
