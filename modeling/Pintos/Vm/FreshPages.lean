import Mathlib.Data.List.Forall2
import Pintos.Semantics.Noninterference
import Pintos.Vm.Effects

/-! What a process reads from a stack page that has just been made.

Two runs are compared that differ only in what frames and swap sectors held
before and in the bytes the processes store. The paging code takes no decision
on contents, so both runs do the same; the bytes of a new stack page are those
the frame happened to hold, with the arguments of the process stored over them.
-/

set_option autoImplicit false

namespace Pintos.Vm
open Semantics Computation

def State.Alike (s other : State) : Prop := ∃ ram swap, other = { s with ram := ram, swap := swap }

inductive Event.Alike : Event → Event → Prop
  | same (event : Event) : Alike event event
  /-- Another byte is stored. -/
  | write (thread addr : Nat) (value other : UInt8) : Alike (.write thread addr value) (.write thread addr other)

/-- A stack page made by a step, with the argument bytes stored in it. -/
structure Fresh where
  thread : Nat
  upage : Nat
  args : Nat → Option UInt8

/-- The stack page `setup_stack` or the stack growth branch makes, if the process goes on. -/
def State.fresh (s : State) : Event → Option Fresh
  | .load t image _ => if image.copyPage then some ⟨t, stackPage, image.args⟩ else none
  | .fault t addr _ _ _ _ =>
    if s.hashFind t (pgRoundDown addr) = none then some ⟨t, pgRoundDown addr, fun _ => none⟩ else none
  | _ => none

def Fresh.Blank (fresh : Fresh) (after : State) : Prop :=
  ∀ offset < pgSize, ∀ byte, after.readByte fresh.thread (fresh.upage + offset) = some byte →
    byte = (fresh.args offset).getD 0

/-- The frame the page is put on held zeros before, where no argument is stored. -/
def Fresh.Clean (fresh : Fresh) (before after : State) : Prop :=
  (after.readByte fresh.thread fresh.upage).isSome = true →
    ∀ offset < pgSize, fresh.args offset = none → before.ram (after.translate fresh.thread fresh.upage).page offset = 0

/-! ## The paging code takes no decision on contents -/

section Blind

abbrev Unseeing {A : Type} (computation : Kernel A) : Prop := Blind State.Alike computation

theorem unseeing_assert (condition : Bool) : Unseeing (assert condition) := blind_require fun _ _ _ => rfl

theorem unseeing_systemExitHelper {A : Type} (cur : Nat) (status : Int) : Unseeing (systemExitHelper cur status : Kernel A) := by
  rintro s _ ⟨ram, swap, rfl⟩
  exact .stopped _ ⟨ram, swap, rfl⟩

theorem unseeing_get {A : Type} {next : State → Kernel A}
    (same : ∀ s ram swap, next { s with ram := ram, swap := swap } = next s) (after : ∀ s, Unseeing (next s)) :
    Unseeing (get >>= next) := by
  refine blind_get ?_ after
  rintro s _ ⟨ram, swap, rfl⟩
  exact same s ram swap

theorem unseeing_modify {change : State → State}
    (kept : ∀ s ram swap, (change s).Alike (change { s with ram := ram, swap := swap })) : Unseeing (modify change) := by
  refine blind_modify ?_
  rintro s _ ⟨ram, swap, rfl⟩
  exact kept s ram swap

variable {s other : State}

theorem alike_frameFree (alike : s.Alike other) (kpage : Nat) :
    (s.frameFree kpage).Alike (other.frameFree kpage) := by
  unfold State.frameFree
  refine foldl_related (fun first second i related => ?_) _ alike
  obtain ⟨ram, swap, rfl⟩ := related
  unfold State.freeAt
  split
  · exact ⟨ram, swap, rfl⟩
  · exact ⟨ram, swap, rfl⟩

theorem unseeing_frameFree (kpage : Nat) : Unseeing (modify fun s => s.frameFree kpage) :=
  blind_modify fun _ _ alike => alike_frameFree alike kpage

theorem unseeing_pagedirGetPage (pd uaddr : Nat) : Unseeing (pagedirGetPage pd uaddr) := by
  refine blind_bind (unseeing_assert _) fun _ => blind_bind (unseeing_assert _) fun _ => ?_
  exact unseeing_get (fun _ _ _ => rfl) fun _ => blind_pure _

theorem unseeing_pagedirSetPage (pd upage kpage : Nat) (writable allocated : Bool) :
    Unseeing (pagedirSetPage pd upage kpage writable allocated) := by
  refine blind_bind (unseeing_assert _) fun _ => blind_bind (unseeing_assert _) fun _ => ?_
  refine blind_bind (unseeing_assert _) fun _ => blind_bind (unseeing_assert _) fun _ => ?_
  refine blind_bind (unseeing_assert _) fun _ => unseeing_get (fun _ _ _ => rfl) fun s => ?_
  refine blind_ite (blind_bind (unseeing_assert _) fun _ => ?_) (blind_pure _)
  exact blind_bind (unseeing_modify fun _ ram swap => ⟨ram, swap, rfl⟩) fun _ => blind_pure _

theorem unseeing_pagedirClearPage (pd upage : Nat) : Unseeing (pagedirClearPage pd upage) := by
  refine blind_bind (unseeing_assert _) fun _ => blind_bind (unseeing_assert _) fun _ => ?_
  refine blind_bind (unseeing_assert _) fun _ => unseeing_modify fun s ram swap => ?_
  show State.Alike (if (s.pte pd upage).present = true then _ else s) (if (s.pte pd upage).present = true then _ else _)
  split
  · exact ⟨ram, swap, rfl⟩
  · exact ⟨ram, swap, rfl⟩

theorem unseeing_pagedirIsAccessed (pd vpage : Nat) : Unseeing (pagedirIsAccessed pd vpage) :=
  blind_bind (unseeing_assert _) fun _ => unseeing_get (fun _ _ _ => rfl) fun _ => blind_pure _

theorem unseeing_pagedirSetAccessed (pd vpage : Nat) (accessed : Bool) : Unseeing (pagedirSetAccessed pd vpage accessed) := by
  refine blind_bind (unseeing_assert _) fun _ => unseeing_modify fun s ram swap => ?_
  show State.Alike (if ((s.pagedirs pd).table (pdNo vpage)).isSome = true then _ else s)
    (if ((s.pagedirs pd).table (pdNo vpage)).isSome = true then _ else _)
  split
  · exact ⟨ram, swap, rfl⟩
  · exact ⟨ram, swap, rfl⟩

theorem unseeing_swapRead (kpage page : Nat) : Unseeing (swapRead kpage page) := by
  refine unseeing_get (fun _ _ _ => rfl) fun s => blind_bind (blind_modify fun first second alike => ?_) fun _ => ?_
  · refine foldl_related (fun first second i related => ?_) _ alike
    obtain ⟨ram, swap, rfl⟩ := related
    exact ⟨_, swap, rfl⟩
  · refine blind_bind (unseeing_assert _) fun _ => blind_bind (unseeing_modify fun _ ram swap => ⟨ram, swap, rfl⟩) fun _ => ?_
    exact unseeing_modify fun _ ram swap => ⟨ram, swap, rfl⟩

theorem unseeing_swapGetFree : Unseeing swapGetFree := by
  refine unseeing_get (fun _ _ _ => rfl) fun s => ?_
  cases s.freeSlot with
  | none => exact blind_stop _
  | some slot => exact blind_bind (unseeing_modify fun _ ram swap => ⟨ram, swap, rfl⟩) fun _ => blind_pure _

theorem unseeing_swapWrite (kpage page : Nat) : Unseeing (swapWrite kpage page) := by
  refine blind_bind unseeing_swapGetFree fun sector =>
    blind_bind (unseeing_modify fun _ ram swap => ⟨ram, swap, rfl⟩) fun _ => blind_modify fun first second alike => ?_
  refine foldl_related (fun first second i related => ?_) _ alike
  obtain ⟨ram, swap, rfl⟩ := related
  exact ⟨ram, _, rfl⟩

theorem unseeing_evictSelect (fuel : Nat) : Unseeing (evictSelect fuel) := by
  induction fuel with
  | zero => exact blind_stop _
  | succ fuel ih =>
    refine unseeing_get (fun _ _ _ => rfl) fun s => blind_bind (unseeing_pagedirIsAccessed _ _) fun accessed => ?_
    refine blind_ite (blind_bind (unseeing_pagedirSetAccessed _ _ _) fun _ => ?_) (blind_pure _)
    exact blind_bind (unseeing_modify fun _ ram swap => ⟨ram, swap, rfl⟩) fun _ => ih

theorem unseeing_frameFindEmpty : Unseeing frameFindEmpty := by
  refine unseeing_get (fun _ _ _ => rfl) fun s => blind_ite ?_ ?_
  · cases s.firstFree with
    | none => exact blind_pure _
    | some i => exact blind_pure _
  · refine blind_bind (unseeing_evictSelect _) fun _ => unseeing_get (fun _ _ _ => rfl) fun s => ?_
    refine blind_bind (unseeing_pagedirClearPage _ _) fun _ => blind_bind (unseeing_swapWrite _ _) fun _ => ?_
    exact blind_bind (unseeing_modify fun _ ram swap => ⟨ram, swap, rfl⟩) fun _ => blind_pure _

theorem unseeing_installLoop (cur upage kpage pagedir page : Nat) (indices : List Nat) :
    Unseeing (installLoop cur upage kpage pagedir page indices) := by
  induction indices with
  | nil => exact blind_pure _
  | cons i rest ih =>
    refine unseeing_get (fun _ _ _ => rfl) fun s => blind_ite (blind_ite ?_ ?_) ih
    · exact blind_bind (unseeing_systemExitHelper cur _) fun _ => ih
    · exact blind_bind (unseeing_modify fun _ ram swap => ⟨ram, swap, rfl⟩) fun _ => ih

theorem unseeing_pageInstallToFrame (cur target upage kpage pagedir : Nat) (env : Env) :
    Unseeing (pageInstallToFrame cur target upage kpage pagedir env) := by
  refine unseeing_get (fun _ _ _ => rfl) fun s => blind_bind (blind_bind ?_ fun success => ?_) fun success => ?_
  · refine unseeing_get (fun _ _ _ => rfl) fun s => blind_bind (unseeing_pagedirGetPage _ _) fun found => ?_
    exact blind_ite (unseeing_pagedirSetPage _ _ _ _ _) (blind_pure _)
  · exact blind_ite (blind_bind (unseeing_installLoop _ _ _ _ _ _) fun _ => blind_pure _) (blind_pure _)
  · refine blind_ite (blind_bind (unseeing_frameFree kpage) fun _ => unseeing_systemExitHelper cur _) ?_
    exact blind_bind (unseeing_modify fun _ ram swap => ⟨ram, swap, rfl⟩) fun _ => blind_pure _

theorem unseeing_pageBuild (page : Page) : Unseeing (pageBuild page) := by
  rintro s _ ⟨ram, swap, rfl⟩
  exact .returned _ ⟨ram, swap, rfl⟩

theorem unseeing_pageAdd (cur page : Nat) : Unseeing (modify fun s => s.pageAdd cur page) := by
  refine unseeing_modify fun s ram swap => ⟨ram, swap, ?_⟩
  have same : State.hashFind { s with ram := ram, swap := swap } cur (s.pages page).upage =
      s.hashFind cur (s.pages page).upage := rfl
  simp only [State.pageAdd, same]
  cases s.hashFind cur (s.pages page).upage with
  | none => rfl
  | some found => rfl

theorem unseeing_storeBytes (cur kpage start count : Nat) (bytes : Nat → UInt8) :
    Unseeing (storeBytes cur kpage start count bytes) := by
  refine blind_ite (blind_bind (unseeing_get (fun _ _ _ => rfl) fun s => ?_) fun frame => ?_) (blind_pure _)
  · exact blind_ite (blind_pure _) (blind_ite (blind_pure _) (unseeing_systemExitHelper cur _))
  · exact unseeing_modify fun _ ram swap => ⟨_, swap, rfl⟩

theorem unseeing_pageReadInstall (cur target : Nat) (env : Env) : Unseeing (pageReadInstall cur target env) := by
  refine blind_bind unseeing_frameFindEmpty fun kpage => unseeing_get (fun _ _ _ => rfl) fun s => ?_
  refine blind_bind (blind_bind (unseeing_assert _) fun _ => unseeing_get (fun _ _ _ => rfl) fun s =>
    blind_bind (unseeing_storeBytes _ _ _ _ _) fun _ => blind_pure _) fun amount => ?_
  refine blind_ite (blind_bind (unseeing_frameFree kpage) fun _ => unseeing_systemExitHelper cur _) ?_
  exact blind_bind (unseeing_storeBytes _ _ _ _ _) fun _ =>
    blind_bind (unseeing_pageInstallToFrame _ _ _ _ _ _) fun _ => blind_pure _

theorem unseeing_pageSwapInstall (cur target : Nat) (env : Env) : Unseeing (pageSwapInstall cur target env) := by
  refine blind_bind unseeing_frameFindEmpty fun kpage => blind_bind (unseeing_assert _) fun _ => ?_
  refine blind_bind (unseeing_swapRead _ _) fun _ => unseeing_get (fun _ _ _ => rfl) fun s => ?_
  exact blind_bind (unseeing_pageInstallToFrame _ _ _ _ _ _) fun _ => blind_pure _

theorem unseeing_pageGrowStack (cur upage : Nat) (env : Env) : Unseeing (pageGrowStack cur upage env) := by
  refine blind_bind unseeing_frameFindEmpty fun kpage => blind_ite ?_ (blind_pure _)
  refine unseeing_get (fun _ _ _ => rfl) fun s => blind_bind (unseeing_pageBuild _) fun entry => ?_
  exact blind_bind (unseeing_pageAdd cur entry) fun _ =>
    blind_bind (unseeing_pageInstallToFrame _ _ _ _ _ _) fun _ => blind_pure _

theorem unseeing_pageFault (cur addr esp : Nat) (notPresent user : Bool) (env : Env) :
    Unseeing (pageFault cur addr esp notPresent user env) := by
  refine blind_ite (unseeing_systemExitHelper cur _) (unseeing_get (fun _ _ _ => rfl) fun s => ?_)
  cases s.hashFind cur (pgRoundDown addr) with
  | none => exact blind_ite (unseeing_pageGrowStack _ _ _) (unseeing_systemExitHelper cur _)
  | some target =>
    dsimp only
    cases (s.pages target).location with
    | inSwap => exact unseeing_pageSwapInstall _ _ _
    | inFilesys => exact unseeing_pageReadInstall _ _ _
    | cleared => exact blind_pure _
    | inFrame => exact blind_pure _

theorem unseeing_loadLoop (cur file : Nat) (writable : Bool) (fuel ofs upage readBytes zeroBytes : Nat) :
    Unseeing (loadLoop cur file writable fuel ofs upage readBytes zeroBytes) := by
  induction fuel generalizing ofs upage readBytes zeroBytes with
  | zero => exact blind_stop _
  | succ fuel ih =>
    refine blind_ite (unseeing_get (fun _ _ _ => rfl) fun s => blind_bind (unseeing_pageBuild _) fun entry => ?_) (blind_pure _)
    exact blind_bind (unseeing_pageAdd cur entry) fun _ => ih _ _ _ _

theorem unseeing_loadHeaders (cur file : Nat) (phdrs : List Phdr) : Unseeing (loadHeaders cur file phdrs) := by
  induction phdrs with
  | nil => exact blind_pure _
  | cons phdr rest ih =>
    refine unseeing_get (fun _ _ _ => rfl) fun s => blind_ite (blind_pure _) (blind_ite (blind_ite ?_ (blind_pure _)) ih)
    refine blind_bind ?_ fun _ => ih
    refine blind_bind (unseeing_assert _) fun _ => blind_bind (unseeing_assert _) fun _ => ?_
    exact blind_bind (unseeing_assert _) fun _ => blind_bind (unseeing_assert _) fun _ => unseeing_loadLoop _ _ _ _ _ _ _ _

theorem unseeing_setupStack (cur : Nat) (image : Image) (env : Env) : Unseeing (setupStack cur image env) := by
  refine blind_ite (blind_pure _) (blind_bind unseeing_frameFindEmpty fun kpage => blind_ite ?_ (unseeing_systemExitHelper cur _))
  refine unseeing_get (fun _ _ _ => rfl) fun s => blind_bind (unseeing_pageBuild _) fun entry => ?_
  refine blind_bind (unseeing_pageAdd cur entry) fun _ => blind_bind (unseeing_pageInstallToFrame _ _ _ _ _ _) fun _ => ?_
  exact blind_bind (unseeing_modify fun _ ram swap => ⟨_, swap, rfl⟩) fun _ => blind_pure _

theorem unseeing_startProcess (cur : Nat) (image : Image) (env : Env) : Unseeing (startProcess cur image env) := by
  refine blind_bind (blind_ite (blind_pure _) (blind_bind (unseeing_loadHeaders _ _ _) fun loaded => ?_)) fun success => ?_
  · exact blind_ite (unseeing_setupStack cur image env) (blind_pure _)
  · exact blind_ite (unseeing_systemExitHelper cur _) (blind_pure _)

theorem alike_clearPage (alike : s.Alike other) (page : Nat) : (s.clearPage page).Alike (other.clearPage page) := by
  obtain ⟨ram, swap, freed⟩ := alike_frameFree alike (s.pages page).kpage
  obtain ⟨before, held, rfl⟩ := alike
  unfold State.clearPage
  split
  · exact ⟨ram, swap, by rw [freed]; rfl⟩
  · exact ⟨before, held, rfl⟩

theorem alike_processExit (alike : s.Alike other) (t : Nat) :
    (s.processExit t).Alike (other.processExit t) := by
  obtain ⟨ram, swap, rfl⟩ := alike
  unfold State.processExit
  dsimp only
  split
  · exact ⟨ram, swap, rfl⟩
  · exact ⟨ram, swap, rfl⟩

theorem alike_threadExit (alike : s.Alike other) (t : Nat) : (s.threadExit t).Alike (other.threadExit t) := by
  have emptied : (s.pageClearAll t).Alike (other.pageClearAll t) := by
    have same : (other.threads t).spt = (s.threads t).spt := by
      obtain ⟨ram, swap, rfl⟩ := alike
      rfl
    unfold State.pageClearAll
    rw [same]
    have folded : ((s.threads t).spt.foldl State.clearPage s).Alike ((s.threads t).spt.foldl State.clearPage other) := by
      refine foldl_related (fun first second page related => ?_) _ alike
      exact alike_clearPage related page
    obtain ⟨ram, swap, cleared⟩ := folded
    exact ⟨ram, swap, by rw [cleared]; rfl⟩
  obtain ⟨ram, swap, left⟩ := alike_processExit emptied t
  exact ⟨ram, swap, by unfold State.threadExit; rw [left]; rfl⟩

theorem settle_alike {A : Type} {first second : Execution State Halt A} (alike : first.Alike State.Alike second) {after : State}
    (settled : settle first = some after) : ∃ other, settle second = some other ∧ after.Alike other := by
  cases alike with
  | returned value related =>
    cases settled
    exact ⟨_, rfl, related⟩
  | stopped why related =>
    cases why with
    | exit status =>
      cases settled
      exact ⟨_, rfl, related⟩
    | panic | diverge => cases settled

end Blind

variable {s after : State} {event : Event} {fresh : Fresh}

theorem step_alike {other : State} {counterpart : Event} (alike : s.Alike other) (events : event.Alike counterpart)
    (taken : step s event = some after) :
    ∃ next, step other counterpart = some next ∧ after.Alike next := by
  obtain ⟨ram, swap, rfl⟩ := alike
  cases events with
  | write t addr value stored =>
    simp only [step] at taken
    split at taken <;> rename_i enabled
    · cases taken
      exact ⟨_, if_pos enabled, _, swap, rfl⟩
    · cases taken
  | same event =>
    cases event with
    | load t image env =>
      simp only [step] at taken
      split at taken <;> rename_i enabled
      · have spawned : (s.spawn t image.pagedir).Alike (State.spawn { s with ram := ram, swap := swap } t image.pagedir) := by
          unfold State.spawn
          dsimp only
          split
          · exact ⟨ram, swap, rfl⟩
          · exact ⟨ram, swap, rfl⟩
        obtain ⟨next, settled, related⟩ := settle_alike (unseeing_startProcess t image env _ _ spawned) taken
        exact ⟨next, (if_pos enabled).trans settled, related⟩
      · cases taken
    | enter t esp =>
      simp only [step] at taken
      split at taken <;> rename_i enabled
      · cases taken
        exact ⟨_, if_pos enabled, ram, swap, rfl⟩
      · cases taken
    | fault t addr esp user write env =>
      simp only [step] at taken
      split at taken <;> rename_i enabled
      · obtain ⟨next, settled, related⟩ := settle_alike (unseeing_pageFault t addr esp _ user env s _ ⟨ram, swap, rfl⟩) taken
        exact ⟨next, (if_pos enabled).trans settled, related⟩
      · cases taken
    | read t addr =>
      simp only [step] at taken
      split at taken <;> rename_i enabled
      · cases taken
        exact ⟨_, if_pos enabled, ram, swap, rfl⟩
      · cases taken
    | write t addr value =>
      simp only [step] at taken
      split at taken <;> rename_i enabled
      · cases taken
        exact ⟨_, if_pos enabled, _, swap, rfl⟩
      · cases taken
    | exit t =>
      simp only [step] at taken
      split at taken <;> rename_i enabled
      · cases taken
        exact ⟨_, if_pos enabled, alike_threadExit ⟨ram, swap, rfl⟩ t⟩
      · cases taken

/-- Runs that differ only in contents go the same way. -/
theorem run_alike {events counterparts : List Event} (same : List.Forall₂ Event.Alike events counterparts)
    {other final : State} (alike : s.Alike other) (reached : run step s events = some final) :
    ∃ last, run step other counterparts = some last ∧ final.Alike last := by
  induction same generalizing s other with
  | nil =>
    cases reached
    exact ⟨other, rfl, alike⟩
  | cons first rest ih =>
    obtain ⟨next, taken, later⟩ := (run_cons_some step).mp reached
    obtain ⟨following, counterpart, related⟩ := step_alike alike first taken
    obtain ⟨last, finished, ends⟩ := ih related later
    exact ⟨last, (run_cons_some step).mpr ⟨following, counterpart, finished⟩, ends⟩

/-! ## Making a stack page leaves the frames as they are -/

section Leaves
variable {cur : Nat}

def Ended (cur : Nat) (why : Halt) (s : State) : Prop := ∀ status, why = .exit status → (s.threads cur).phase = .exiting

theorem ended_panic (s : State) : Ended cur .panic s := nofun

theorem ended_diverge (s : State) : Ended cur .diverge s := nofun

abbrev Idle {A : Type} (cur : Nat) (computation : Kernel A) : Prop := Leaves State.ram (Ended cur) computation

theorem leaves_assert {V : Type} {view : State → V} (condition : Bool) : Leaves view (Ended cur) (assert condition) :=
  leaves_require ended_panic

theorem leaves_systemExitHelper {A V : Type} {view : State → V} (status : Int) :
    Leaves view (Ended cur) (systemExitHelper cur status : Kernel A) := by
  intro s other same
  simp [State.ending]

theorem idle_frameFree (kpage : Nat) : Idle cur (modify fun s => s.frameFree kpage) := by
  refine leaves_modify fun s => ?_
  unfold State.frameFree
  refine foldl_view (fun s i => ?_) _ s
  unfold State.freeAt
  split
  · rfl
  · rfl

theorem idle_pagedirSetPage (pd upage kpage : Nat) (writable allocated : Bool) :
    Idle cur (pagedirSetPage pd upage kpage writable allocated) := by
  refine leaves_bind (leaves_assert _) fun _ => leaves_bind (leaves_assert _) fun _ => ?_
  refine leaves_bind (leaves_assert _) fun _ => leaves_bind (leaves_assert _) fun _ => ?_
  refine leaves_bind (leaves_assert _) fun _ => leaves_get fun s => ?_
  refine leaves_ite (leaves_bind (leaves_assert _) fun _ => ?_) (leaves_pure _)
  exact leaves_bind (leaves_modify fun _ => rfl) fun _ => leaves_pure _

theorem idle_evictSelect (fuel : Nat) : Idle cur (evictSelect fuel) := by
  induction fuel with
  | zero => exact leaves_stop ended_diverge
  | succ fuel ih =>
    refine leaves_get fun s => leaves_bind (leaves_bind (leaves_assert _) fun _ => leaves_get fun _ => leaves_pure _) fun _ => ?_
    refine leaves_ite (leaves_bind (leaves_bind (leaves_assert _) fun _ => leaves_modify fun s => ?_) fun _ => ?_) (leaves_pure _)
    · split
      · rfl
      · rfl
    · exact leaves_bind (leaves_modify fun _ => rfl) fun _ => ih

theorem idle_swapWrite (kpage page : Nat) : Idle cur (swapWrite kpage page) := by
  refine leaves_bind (leaves_get fun s => ?_) fun sector => leaves_bind (leaves_modify fun _ => rfl) fun _ => ?_
  · cases s.freeSlot with
    | none => exact leaves_stop ended_panic
    | some slot => exact leaves_bind (leaves_modify fun _ => rfl) fun _ => leaves_pure _
  · refine leaves_modify fun s => foldl_view (fun s i => ?_) _ s
    rfl

theorem idle_frameFindEmpty (cur : Nat) : Idle cur frameFindEmpty := by
  refine leaves_get fun s => leaves_ite ?_ ?_
  · cases s.firstFree with
    | none => exact leaves_pure _
    | some i => exact leaves_pure _
  · refine leaves_bind (idle_evictSelect _) fun _ => leaves_get fun s => leaves_bind ?_ fun _ => ?_
    · refine leaves_bind (leaves_assert _) fun _ => leaves_bind (leaves_assert _) fun _ => ?_
      refine leaves_bind (leaves_assert _) fun _ => leaves_modify fun s => ?_
      split
      · rfl
      · rfl
    · exact leaves_bind (idle_swapWrite _ _) fun _ => leaves_bind (leaves_modify fun _ => rfl) fun _ => leaves_pure _

theorem idle_installLoop (upage kpage pagedir page : Nat) (indices : List Nat) :
    Idle cur (installLoop cur upage kpage pagedir page indices) := by
  induction indices with
  | nil => exact leaves_pure _
  | cons i rest ih =>
    refine leaves_get fun s => leaves_ite (leaves_ite ?_ ?_) ih
    · exact leaves_bind (leaves_systemExitHelper _) fun _ => ih
    · exact leaves_bind (leaves_modify fun _ => rfl) fun _ => ih

theorem idle_pageInstallToFrame (target upage kpage pagedir : Nat) (env : Env) :
    Idle cur (pageInstallToFrame cur target upage kpage pagedir env) := by
  refine leaves_get fun s => leaves_bind (leaves_bind ?_ fun success => ?_) fun success => ?_
  · refine leaves_get fun s => leaves_bind ?_ fun found => leaves_ite (idle_pagedirSetPage _ _ _ _ _) (leaves_pure _)
    exact leaves_bind (leaves_assert _) fun _ => leaves_bind (leaves_assert _) fun _ => leaves_get fun _ => leaves_pure _
  · exact leaves_ite (leaves_bind (idle_installLoop _ _ _ _ _) fun _ => leaves_pure _) (leaves_pure _)
  · refine leaves_ite (leaves_bind (idle_frameFree kpage) fun _ => leaves_systemExitHelper _) ?_
    exact leaves_bind (leaves_modify fun _ => rfl) fun _ => leaves_pure _

theorem idle_pageBuild (cur : Nat) (page : Page) : Idle cur (pageBuild page) := fun _ => rfl

theorem idle_pageAdd (page : Nat) : Idle cur (modify fun s => s.pageAdd cur page) := by
  refine leaves_modify fun s => ?_
  unfold State.pageAdd
  split
  · rfl
  · rfl

theorem idle_pageGrowStack (upage : Nat) (env : Env) : Idle cur (pageGrowStack cur upage env) := by
  refine leaves_bind (idle_frameFindEmpty cur) fun kpage => leaves_ite ?_ (leaves_pure _)
  refine leaves_get fun s => leaves_bind (idle_pageBuild cur _) fun entry => leaves_bind (idle_pageAdd entry) fun _ => ?_
  exact leaves_bind (idle_pageInstallToFrame _ _ _ _ _) fun _ => leaves_pure _

theorem idle_loadHeaders (file : Nat) (phdrs : List Phdr) : Idle cur (loadHeaders cur file phdrs) := by
  have loop : ∀ (writable : Bool) (fuel ofs upage readBytes zeroBytes : Nat),
      Idle cur (loadLoop cur file writable fuel ofs upage readBytes zeroBytes) := by
    intro writable fuel
    induction fuel with
    | zero => exact fun _ _ _ _ => leaves_stop ended_diverge
    | succ fuel ih =>
      intro ofs upage readBytes zeroBytes
      refine leaves_ite (leaves_get fun s => leaves_bind (idle_pageBuild cur _) fun entry => ?_) (leaves_pure _)
      exact leaves_bind (idle_pageAdd entry) fun _ => ih _ _ _ _
  induction phdrs with
  | nil => exact leaves_pure _
  | cons phdr rest ih =>
    refine leaves_get fun s => leaves_ite (leaves_pure _) (leaves_ite (leaves_ite ?_ (leaves_pure _)) ih)
    refine leaves_bind ?_ fun _ => ih
    refine leaves_bind (leaves_assert _) fun _ => leaves_bind (leaves_assert _) fun _ => ?_
    exact leaves_bind (leaves_assert _) fun _ => leaves_bind (leaves_assert _) fun _ => loop _ _ _ _ _ _

variable {env : Env} {s final : State}

theorem setupStack_fills {image : Image} {success : Bool} (copies : image.copyPage = true)
    (done : setupStack cur image env s = .returned success final) :
    ∃ kpage, (final.pte (final.threads cur).pagedir stackPage).page = kpage ∧
      final.ram = Function.update s.ram kpage fun o => (image.args o).getD (s.ram kpage o) := by
  unfold setupStack at done
  rw [if_neg (by simp [copies])] at done
  obtain ⟨kpage, found, emptied, rest⟩ := bind_returned.mp done
  split at rest
  · rw [bind_get] at rest
    obtain ⟨entry, built, building, rest⟩ := bind_returned.mp rest
    rw [bind_modify] at rest
    obtain ⟨installed, mapped, installing, rest⟩ := bind_returned.mp rest
    cases rest
    obtain ⟨_, _, after⟩ := pageInstallToFrame_returned installing
    refine ⟨kpage, congrArg Pte.page (pageInstallToFrame_maps installing), ?_⟩
    have same : mapped.ram = s.ram := by
      have added : (built.pageAdd cur entry).ram = built.ram := idle_pageAdd entry built
      rw [after]
      exact added.trans ((leaves_returned (idle_pageBuild cur _) building).trans
        (leaves_returned (idle_frameFindEmpty cur) emptied))
    show Function.update mapped.ram kpage _ = _
    rw [same]
  · cases rest

theorem ends_startProcess (image : Image) (env : Env) : Leaves (fun _ => ()) (Ended cur) (startProcess cur image env) := by
  refine leaves_bind (leaves_ite (leaves_pure _) (leaves_bind (leaves_map (fun _ => ()) (idle_loadHeaders _ _)) fun loaded =>
    leaves_ite (leaves_ite (leaves_pure _) ?_) (leaves_pure _))) fun success =>
    leaves_ite (leaves_systemExitHelper _) (leaves_pure _)
  refine leaves_bind (leaves_map (fun _ => ()) (idle_frameFindEmpty cur)) fun kpage => leaves_ite ?_ (leaves_systemExitHelper _)
  refine leaves_get fun s => leaves_bind (leaves_map (fun _ => ()) (idle_pageBuild cur _)) fun entry => ?_
  refine leaves_bind (leaves_map (fun _ => ()) (idle_pageAdd entry)) fun _ => ?_
  refine leaves_bind (leaves_map (fun _ => ()) (idle_pageInstallToFrame _ _ _ _ _)) fun _ => ?_
  exact leaves_bind (leaves_modify fun _ => rfl) fun _ => leaves_pure _

theorem startProcess_fills {image : Image} (copies : image.copyPage = true)
    (done : startProcess cur image env s = .returned () final) :
    ∃ kpage, (final.pte (final.threads cur).pagedir stackPage).page = kpage ∧
      final.ram = Function.update s.ram kpage fun o => (image.args o).getD (s.ram kpage o) := by
  obtain ⟨success, loaded, loading, rest⟩ := bind_returned.mp done
  cases success with
  | false => cases rest
  | true =>
    cases rest
    unfold load at loading
    split at loading
    · cases loading
    · obtain ⟨accepted, segments, headers, stack⟩ := bind_returned.mp loading
      cases accepted with
      | false => cases stack
      | true =>
        obtain ⟨kpage, mapped, bytes⟩ := setupStack_fills copies stack
        rw [leaves_returned (idle_loadHeaders _ _) headers] at bytes
        exact ⟨kpage, mapped, bytes⟩

end Leaves

/-! ## The bytes of the new page -/

theorem readByte_within (s : State) (t : Nat) {upage offset : Nat} (aligned : pgOfs upage = 0) (bound : offset < pgSize) :
    s.readByte t (upage + offset) = (s.readByte t upage).map fun _ => s.ram (s.translate t upage).page offset := by
  have page : pgNo (upage + offset) = pgNo upage ∧ pgOfs (upage + offset) = offset ∧
      (upage + offset < physBase ↔ upage < physBase) := by
    simp only [pgOfs, pgNo, pgSize, physBase] at *
    omega
  have same : s.translate t (upage + offset) = s.translate t upage := Pagedir.pte_eq_of_pgNo _ page.1
  have user : isUserVaddr (upage + offset) = isUserVaddr upage := decide_eq_decide.mpr page.2.2
  unfold State.readByte State.accessible
  rw [same, user, page.2.1]
  split
  · rfl
  · rfl

theorem Fresh.aligned (makes : s.fresh event = some fresh) :
    pgOfs fresh.upage = 0 := by
  cases event with
  | load t image env =>
    simp only [State.fresh] at makes
    split at makes <;> cases makes
    show pgOfs stackPage = 0
    decide
  | fault t addr esp user write env =>
    simp only [State.fresh] at makes
    split at makes <;> cases makes
    exact pgRoundDown_ofs addr
  | enter | read | write | exit => cases makes

theorem returned_of_settle {A : Type} {cur : Nat} {result : Execution State Halt A}
    (settled : settle result = some after) (running : (after.threads cur).phase = .running)
    (ended : ∀ why final, result = .stopped why final → Ended cur why final) :
    ∃ value, result = .returned value after := by
  cases result with
  | returned value final =>
    cases settled
    exact ⟨value, rfl⟩
  | stopped why final =>
    cases why with
    | exit status =>
      cases settled
      have exiting := ended (.exit status) after rfl status rfl
      rw [running] at exiting
      cases exiting
    | panic | diverge => cases settled

/-- The new page shows what its frame held before, under the arguments. -/
theorem fresh_ram (makes : s.fresh event = some fresh) (taken : step s event = some after)
    (running : (after.threads fresh.thread).phase = .running) (offset : Nat) :
    after.ram (after.translate fresh.thread fresh.upage).page offset =
      (fresh.args offset).getD (s.ram (after.translate fresh.thread fresh.upage).page offset) := by
  cases event with
  | enter | read | write | exit => cases makes
  | fault t addr esp user write env =>
    simp only [State.fresh] at makes
    split at makes <;> rename_i absent <;> cases makes
    simp only [step] at taken
    split at taken
    · have idle : Idle t (if addr = 0 ∨ isKernelVaddr addr ∨ !!(s.translate t addr).present then systemExitHelper t (-1) else
          if s.growsStack t addr esp user then pageGrowStack t (pgRoundDown addr) env else systemExitHelper t (-1)) :=
        leaves_ite (leaves_systemExitHelper _) (leaves_ite (idle_pageGrowStack _ _) (leaves_systemExitHelper _))
      have same : pageFault t addr esp (!(s.translate t addr).present) user env s =
          (if addr = 0 ∨ isKernelVaddr addr ∨ !!(s.translate t addr).present then systemExitHelper t (-1) else
            if s.growsStack t addr esp user then pageGrowStack t (pgRoundDown addr) env else systemExitHelper t (-1)) s := by
        unfold pageFault pageFaultIdentifier
        split
        · rfl
        · rw [bind_get, absent]
      rw [same] at taken
      obtain ⟨_, returned⟩ := returned_of_settle taken running fun why final stopped => leaves_stopped idle stopped
      rw [leaves_returned idle returned]
      rfl
    · cases taken
  | load t image env =>
    simp only [State.fresh] at makes
    split at makes <;> rename_i copies <;> cases makes
    simp only [step] at taken
    split at taken
    · obtain ⟨_, returned⟩ := returned_of_settle taken running fun why final => leaves_stopped (ends_startProcess image env)
      obtain ⟨kpage, mapped, bytes⟩ := startProcess_fills copies returned
      have born : (s.spawn t image.pagedir).ram = s.ram := by
        unfold State.spawn
        dsimp only
        split
        · rfl
        · rfl
      show after.ram (after.pte (after.threads t).pagedir stackPage).page offset = _
      rw [mapped, bytes, born, Function.update_self]
      show _ = (image.args offset).getD (s.ram (after.pte (after.threads t).pagedir stackPage).page offset)
      rw [mapped]
    · cases taken

/-- The new page is blank exactly when its frame was clean. -/
theorem Fresh.blank_iff_clean (makes : s.fresh event = some fresh) (taken : step s event = some after) :
    fresh.Blank after ↔ fresh.Clean s after := by
  have bytes : ∀ offset < pgSize, after.readByte fresh.thread (fresh.upage + offset) =
      (after.readByte fresh.thread fresh.upage).map fun _ =>
        (fresh.args offset).getD (s.ram (after.translate fresh.thread fresh.upage).page offset) := by
    intro offset bound
    rw [readByte_within after fresh.thread (Fresh.aligned makes) bound]
    by_cases running : (after.threads fresh.thread).phase = .running
    · rw [fresh_ram makes taken running offset]
    · simp [State.readByte, running]
  constructor
  · intro blank readable offset bound free
    obtain ⟨byte, read⟩ := Option.isSome_iff_exists.mp readable
    have shown := blank offset bound _ (by rw [bytes offset bound, read]; rfl)
    simpa [free] using shown
  · intro clean offset bound byte read
    rw [bytes offset bound] at read
    obtain ⟨first, readable, rfl⟩ := Option.map_eq_some_iff.mp read
    cases stored : fresh.args offset with
    | some value => rfl
    | none => exact clean (by rw [readable]; rfl) offset bound stored

/-- Of two runs that differ only in contents, a new stack page shows the same bytes in both, zero but
for the arguments, exactly if it was put on frames that held zeros. -/
theorem stack_pages_reveal_nothing {first second s after : State} {past counterparts : List Event} {event : Event}
    {fresh : Fresh} (alike : first.Alike second) (events : List.Forall₂ Event.Alike past counterparts)
    (reached : run step first past = some s) (makes : s.fresh event = some fresh) (taken : step s event = some after) :
    ∃ other next, run step second counterparts = some other ∧ step other event = some next ∧
      other.fresh event = some fresh ∧
      (fresh.Blank after ∧ fresh.Blank next ∧
          (∀ offset < pgSize, after.readByte fresh.thread (fresh.upage + offset) =
            next.readByte fresh.thread (fresh.upage + offset)) ↔
        fresh.Clean s after ∧ fresh.Clean other next) := by
  obtain ⟨other, arrived, related⟩ := run_alike events alike reached
  obtain ⟨next, followed, final⟩ := step_alike related (.same event) taken
  have same : other.fresh event = some fresh := by
    obtain ⟨ram, swap, rfl⟩ := related
    exact makes
  refine ⟨other, next, arrived, followed, same, ?_⟩
  rw [Fresh.blank_iff_clean makes taken, Fresh.blank_iff_clean same followed]
  refine ⟨fun both => ⟨both.1, both.2.1⟩, fun both => ⟨both.1, both.2, fun offset bound => ?_⟩⟩
  have here := (Fresh.blank_iff_clean makes taken).mpr both.1 offset bound
  have there := (Fresh.blank_iff_clean same followed).mpr both.2 offset bound
  have readable : (next.readByte fresh.thread (fresh.upage + offset)).isSome =
      (after.readByte fresh.thread (fresh.upage + offset)).isSome := by
    obtain ⟨ram, swap, rfl⟩ := final
    unfold State.readByte
    show Option.isSome (if (after.threads fresh.thread).phase = .running ∧
      after.accessible fresh.thread (fresh.upage + offset) false = true then _ else _) = _
    split
    · rfl
    · rfl
  cases shown : after.readByte fresh.thread (fresh.upage + offset) with
  | none =>
    rw [shown] at readable
    exact (Option.isNone_iff_eq_none.mp (by simpa using readable)).symm
  | some byte =>
    rw [shown] at readable
    obtain ⟨value, read⟩ := Option.isSome_iff_exists.mp readable
    rw [read, here byte shown, there value read]

/-- The first process of a machine whose memory is still zero. -/
theorem stack_pages_reveal_nothing_boot :
    ∃ after, step (bootState 4096) (.load 1 demoImage {}) = some after ∧ (after.readByte 1 stackPage).isSome = true ∧
      Fresh.Blank ⟨1, stackPage, demoImage.args⟩ after := by
  have enabled : ((step (bootState 4096) (.load 1 demoImage {})).any fun after =>
      (after.readByte 1 stackPage).isSome) = true := by decide +kernel
  obtain ⟨after, taken, readable⟩ := (Option.any_eq_true _ _).mp enabled
  have alike : (bootState 4096).Alike (bootState 4096) := ⟨(bootState 4096).ram, (bootState 4096).swap, rfl⟩
  obtain ⟨other, next, arrived, _, _, exactly⟩ := stack_pages_reveal_nothing alike .nil rfl rfl taken
  cases arrived
  exact ⟨after, taken, readable, (exactly.mpr ⟨fun _ _ _ _ => rfl, fun _ _ _ _ => rfl⟩).1⟩

def reuse (value : UInt8) : List Event :=
  [.load 1 demoImage {}, .write 1 stackPage value, .exit 1, .load 2 { demoImage with pagedir := 6 } {}]

/-- The new process reads the byte its predecessor stored. -/
theorem stack_page_shows_predecessor :
    ∃ first second, run step (bootState 4096) (reuse 7) = some first ∧ run step (bootState 4096) (reuse 9) = some second ∧
      first.readByte 2 stackPage = some 7 ∧ second.readByte 2 stackPage = some 9 := by
  have ends : ∀ value ∈ [7, 9], ((run step (bootState 4096) (reuse value)).any fun final =>
      decide (final.readByte 2 stackPage = some value)) = true := by decide +kernel
  obtain ⟨first, reached, seven⟩ := (Option.any_eq_true _ _).mp (ends 7 (by decide))
  obtain ⟨second, arrived, nine⟩ := (Option.any_eq_true _ _).mp (ends 9 (by decide))
  exact ⟨first, second, reached, arrived, of_decide_eq_true seven, of_decide_eq_true nine⟩

end Pintos.Vm
