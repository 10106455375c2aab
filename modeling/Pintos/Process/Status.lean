import Pintos.Process.Handshake
import Pintos.Syscall.Accesses
import Pintos.Syscall.Vocabulary
import Pintos.Vm.Page

/-! The status a process ends with (`userprog/exception.c`, `userprog/syscall.c`, `vm/page.c`).

A user process ends in a system call, by an exception that reaches `kill`, or
by a page fault, its own or one the kernel takes for it. What its parent gets
from `process_wait` is compared with the documented status: the argument of
`exit`, and -1 whenever the kernel ended the process.
-/

set_option autoImplicit false

namespace Pintos.Process
open Semantics

section Faults
open Vm Computation
variable {A B : Type} {cur : Nat} {env : Env}

def After (first : Kernel A) (post : A → State → Prop) (s : State) : Prop :=
  ∃ value after, first s = .returned value after ∧ post value after

@[simp] theorem after_get (post : State → State → Prop) : After (get : Kernel State) post = fun s => post s s := by
  funext s
  simp [After]

@[simp] theorem after_modify (change : State → State) (post : Unit → State → Prop) :
    After (modify change) post = fun s => post () (change s) := by
  funext s
  refine propext ⟨?_, fun met => ⟨(), change s, rfl, met⟩⟩
  rintro ⟨_, _, returned, met⟩
  cases returned
  exact met

@[simp] theorem after_assert (condition : Bool) (post : Unit → State → Prop) :
    After (Vm.assert condition) post = fun s => condition = true ∧ post () s := by
  funext s
  refine propext ⟨?_, fun met => ⟨(), s, assert_returned.mpr ⟨met.1, rfl⟩, met.2⟩⟩
  rintro ⟨_, _, returned, met⟩
  obtain ⟨holds, rfl⟩ := assert_returned.mp returned
  exact ⟨holds, met⟩

def RefusesUnless (body : Kernel A) (bad : State → Prop) : Prop :=
  ∀ s status final, body s = .stopped (.exit status) final → (status = -1 ↔ ¬ bad s)

def Refuses (body : Kernel A) : Prop := ∀ s status final, body s = .stopped (.exit status) final → status = -1

theorem refuses_pure (value : A) : Refuses (pure value : Kernel A) := nofun

theorem refuses_get : Refuses (get : Kernel State) := nofun

theorem refuses_modify (change : State → State) : Refuses (modify change) := nofun

theorem refuses_assert (condition : Bool) : Refuses (Vm.assert condition) := by
  intro s status final ended
  cases (assert_stopped.mp ended).2.1

theorem refuses_systemExitHelper : Refuses (Vm.systemExitHelper cur (-1) : Kernel A) := by
  intro s status final ended
  cases ended
  rfl

variable {first body : Kernel A} {bad : State → Prop}

theorem refuses_bind {next : A → Kernel B} (before : Refuses first) (after : ∀ value, Refuses (next value)) :
    Refuses (first >>= next) := by
  intro s status final ended
  rcases bind_stopped.mp ended with early | ⟨value, middle, -, late⟩
  · exact before s status final early
  · exact after value middle status final late

theorem refuses_ite {condition : Prop} [Decidable condition] {second : Kernel A} (yes : Refuses first)
    (no : Refuses second) : Refuses (if condition then first else second) := by
  by_cases met : condition
  · rwa [if_pos met]
  · rwa [if_neg met]

/-- The first part ends the process with -1 only, and the rest does unless it is left in one of the states given. -/
theorem refusesUnless_bind {next : A → Kernel B} {bad : A → State → Prop} (before : Refuses first)
    (after : ∀ value, RefusesUnless (next value) (bad value)) : RefusesUnless (first >>= next) (After first bad) := by
  intro s status final ended
  rcases bind_stopped.mp ended with early | ⟨value, middle, returned, late⟩
  · have unreached : ¬ After first bad s := by
      rintro ⟨value, middle, returned, -⟩
      cases early.symm.trans returned
    exact iff_of_true (before s status final early) unreached
  · rw [after value middle status final late]
    refine not_congr ⟨fun ill => ⟨value, middle, returned, ill⟩, ?_⟩
    rintro ⟨other, state, same, ill⟩
    cases returned.symm.trans same
    exact ill

theorem refusesUnless_ite {condition : Prop} [Decidable condition] {second : Kernel A} {other : State → Prop}
    (yes : RefusesUnless first bad) (no : RefusesUnless second other) :
    RefusesUnless (if condition then first else second) (if condition then bad else other) := by
  by_cases met : condition
  · simpa only [if_pos met] using yes
  · simpa only [if_neg met] using no

theorem refusesUnless_of_refuses (refuses : Refuses body) : RefusesUnless body fun _ => False :=
  fun s status final ended => iff_of_true (refuses s status final ended) id

theorem RefusesUnless.congr {other : State → Prop} (refuses : RefusesUnless body bad) (same : ∀ s, other s ↔ bad s) :
    RefusesUnless body other :=
  fun s status final ended => (refuses s status final ended).trans (not_congr (same s).symm)

theorem RefusesUnless.dropped {value : B} (refuses : RefusesUnless body bad) :
    RefusesUnless (body >>= fun _ => pure value) bad := by
  intro s status final ended
  rcases bind_stopped.mp ended with early | ⟨_, _, _, late⟩
  · exact refuses s status final early
  · cases late

theorem refusesUnless_exit {status : Int} (other : status ≠ -1) :
    RefusesUnless (Vm.systemExitHelper cur status : Kernel A) fun _ => True := by
  intro s found final ended
  cases ended
  exact iff_of_false other fun no => no trivial

theorem refuses_pageBuild (page : Page) : Refuses (pageBuild page) := nofun

theorem refuses_lookupPage (pd : Nat) : Refuses (lookupPage pd) := refuses_assert _

theorem refuses_evictSelect (fuel : Nat) : Refuses (evictSelect fuel) := by
  induction fuel with
  | zero => nofun
  | succ fuel ih =>
    refine refuses_bind refuses_get fun s => refuses_bind ?_ fun accessed => refuses_ite ?_ (refuses_pure _)
    · exact refuses_bind (refuses_lookupPage _) fun _ => refuses_bind refuses_get fun _ => refuses_pure _
    · refine refuses_bind ?_ fun _ => refuses_bind (refuses_modify _) fun _ => ih
      exact refuses_bind (refuses_lookupPage _) fun _ => refuses_modify _

theorem refuses_swapWrite (kpage page : Nat) : Refuses (swapWrite kpage page) := by
  refine refuses_bind (refuses_bind refuses_get fun s => ?_) fun sector =>
    refuses_bind (refuses_modify _) fun _ => refuses_modify _
  cases s.freeSlot with
  | none => nofun
  | some slot => exact refuses_bind (refuses_modify _) fun _ => refuses_pure _

theorem refuses_frameEvict : Refuses frameEvict := by
  refine refuses_bind (refuses_evictSelect _) fun _ => refuses_bind refuses_get fun s => refuses_bind ?_ fun _ =>
    refuses_bind (refuses_swapWrite _ _) fun _ => refuses_bind (refuses_modify _) fun _ => refuses_pure _
  exact refuses_bind (refuses_assert _) fun _ => refuses_bind (refuses_assert _) fun _ =>
    refuses_bind (refuses_lookupPage _) fun _ => refuses_modify _

theorem refuses_frameFindEmpty : Refuses frameFindEmpty := by
  refine refuses_bind refuses_get fun s => refuses_ite ?_ refuses_frameEvict
  cases s.firstFree with
  | none => exact refuses_pure _
  | some i => exact refuses_pure _

theorem refuses_storeBytes (kpage start count : Nat) (bytes : Nat → UInt8) : Refuses (storeBytes cur kpage start count bytes) := by
  refine refuses_ite (refuses_bind ?_ fun frame => refuses_modify _) (refuses_pure _)
  exact refuses_bind refuses_get fun s => refuses_ite (refuses_pure _) (refuses_ite (refuses_pure _) refuses_systemExitHelper)

theorem refuses_fileReadAt (file ofs kpage size : Nat) : Refuses (fileReadAt cur file ofs kpage size env) := by
  refine refuses_bind (refuses_assert _) fun _ => refuses_bind refuses_get fun s => ?_
  exact refuses_bind (refuses_storeBytes _ _ _ _) fun _ => refuses_pure _

theorem refuses_swapRead (kpage page : Nat) : Refuses (swapRead kpage page) := by
  refine refuses_bind refuses_get fun s => refuses_bind (refuses_modify _) fun _ => ?_
  exact refuses_bind (refuses_assert _) fun _ => refuses_bind (refuses_modify _) fun _ => refuses_modify _

theorem refuses_installPage (upage kpage : Nat) (writable allocated : Bool) :
    Refuses (installPage cur upage kpage writable allocated) := by
  refine refuses_bind refuses_get fun s => refuses_bind ?_ fun page => refuses_ite ?_ (refuses_pure _)
  · exact refuses_bind (refuses_assert _) fun _ => refuses_bind (refuses_lookupPage _) fun _ =>
      refuses_bind refuses_get fun _ => refuses_pure _
  · refine refuses_bind (refuses_assert _) fun _ => refuses_bind (refuses_assert _) fun _ =>
      refuses_bind (refuses_assert _) fun _ => refuses_bind (refuses_assert _) fun _ =>
      refuses_bind (refuses_lookupPage _) fun _ => refuses_bind refuses_get fun s => refuses_ite ?_ (refuses_pure _)
    exact refuses_bind (refuses_assert _) fun _ => refuses_bind (refuses_modify _) fun _ => refuses_pure _

theorem refuses_installLoop (upage kpage pagedir page : Nat) (indices : List Nat) :
    Refuses (installLoop cur upage kpage pagedir page indices) := by
  induction indices with
  | nil => exact refuses_pure _
  | cons i rest ih =>
    refine refuses_bind refuses_get fun s => refuses_ite (refuses_ite ?_ ?_) ih
    · exact refuses_bind refuses_systemExitHelper fun _ => ih
    · exact refuses_bind (refuses_modify _) fun _ => ih

theorem refuses_frameInstall (upage kpage pagedir page : Nat) (writable allocated : Bool) :
    Refuses (frameInstall cur upage kpage pagedir writable page allocated) := by
  refine refuses_bind (refuses_installPage _ _ _ _) fun success => ?_
  exact refuses_ite (refuses_bind (refuses_installLoop _ _ _ _ _) fun _ => refuses_pure _) (refuses_pure _)

def InstallFails (cur target upage kpage pagedir : Nat) (env : Env) (s : State) : Prop :=
  After (frameInstall cur upage kpage pagedir (s.pages target).writable target env.pageTable)
    (fun success _ => success = false) s

/-- A page from the executable: the file gives too few bytes, or the install fails. -/
def ReadInstallFails (cur target : Nat) (env : Env) : State → Prop :=
  After frameFindEmpty fun kpage s =>
    let page := s.pages target
    After (fileReadAt cur page.file page.ofs kpage page.pageReadBytes env)
      (fun amount s => amount ≠ page.pageReadBytes ∨
        After (storeBytes cur kpage page.pageReadBytes page.pageZeroBytes fun _ => 0)
          (fun _ s => InstallFails cur target page.upage kpage page.pagedir env s) s) s

def SwapInstallFails (cur target : Nat) (env : Env) : State → Prop :=
  After frameFindEmpty fun kpage s => kpage ≠ 0 ∧
    After (swapRead kpage target)
      (fun _ s => InstallFails cur target (s.pages target).upage kpage (s.pages target).pagedir env s) s

def GrowStackFails (cur upage : Nat) (env : Env) : State → Prop :=
  After frameFindEmpty fun kpage s => kpage ≠ 0 ∧
    let pd := (s.threads cur).pagedir
    After (pageBuild { upage := upage, writable := true, location := .inFrame, pagedir := pd })
      (fun entry s => InstallFails cur entry upage kpage pd env (s.pageAdd cur entry)) s

/-- The fault handler takes up the page and cannot bring it in. -/
def PageInFails (cur faultAddr esp : Nat) (notPresent user : Bool) (env : Env) (s : State) : Prop :=
  ¬ (faultAddr = 0 ∨ isKernelVaddr faultAddr ∨ !notPresent) ∧
    match s.hashFind cur (pgRoundDown faultAddr) with
    | none => s.growsStack cur faultAddr esp user ∧ GrowStackFails cur (pgRoundDown faultAddr) env s
    | some target =>
      match (s.pages target).location with
      | .inSwap => SwapInstallFails cur target env s
      | .inFilesys => ReadInstallFails cur target env s
      | _ => False

theorem refusesUnless_pageInstallToFrame (target upage kpage pagedir : Nat) :
    RefusesUnless (pageInstallToFrame cur target upage kpage pagedir env) (InstallFails cur target upage kpage pagedir env) := by
  refine RefusesUnless.congr (refusesUnless_bind refuses_get fun s => refusesUnless_bind (refuses_frameInstall _ _ _ _ _ _)
    fun success => refusesUnless_ite (refusesUnless_bind (refuses_modify _) fun _ => refusesUnless_exit (by decide))
      (refusesUnless_of_refuses (refuses_bind (refuses_modify _) fun _ => refuses_pure _))) fun s => ?_
  simp only [after_get]
  refine exists_congr fun success => exists_congr fun after => and_congr_right fun _ => ?_
  cases success <;> simp

theorem refusesUnless_pageReadInstall (target : Nat) :
    RefusesUnless (pageReadInstall cur target env) (ReadInstallFails cur target env) := by
  refine RefusesUnless.congr (refusesUnless_bind refuses_frameFindEmpty fun kpage => refusesUnless_bind refuses_get fun s =>
    refusesUnless_bind (refuses_fileReadAt _ _ _ _) fun amount => refusesUnless_ite
      (refusesUnless_bind (refuses_modify _) fun _ => refusesUnless_exit (by decide))
      (refusesUnless_bind (refuses_storeBytes _ _ _ _) fun _ =>
        (refusesUnless_pageInstallToFrame _ _ _ _).dropped)) fun s => ?_
  refine exists_congr fun kpage => exists_congr fun found => and_congr_right fun _ => ?_
  simp only [after_get]
  refine exists_congr fun amount => exists_congr fun after => and_congr_right fun _ => ?_
  by_cases short : amount = (found.pages target).pageReadBytes <;> simp [short]

theorem refusesUnless_pageSwapInstall (target : Nat) :
    RefusesUnless (pageSwapInstall cur target env) (SwapInstallFails cur target env) := by
  refine RefusesUnless.congr (refusesUnless_bind refuses_frameFindEmpty fun kpage => refusesUnless_bind (refuses_assert _)
    fun _ => refusesUnless_bind (refuses_swapRead _ _) fun _ => refusesUnless_bind refuses_get fun s =>
      (refusesUnless_pageInstallToFrame _ _ _ _).dropped) fun s => ?_
  refine exists_congr fun kpage => exists_congr fun found => and_congr_right fun _ => ?_
  simp

theorem refusesUnless_pageGrowStack (upage : Nat) :
    RefusesUnless (pageGrowStack cur upage env) (GrowStackFails cur upage env) := by
  refine RefusesUnless.congr (refusesUnless_bind refuses_frameFindEmpty fun kpage => refusesUnless_ite
    (refusesUnless_bind refuses_get fun s => refusesUnless_bind (refuses_pageBuild _) fun entry =>
      refusesUnless_bind (refuses_modify _) fun _ => (refusesUnless_pageInstallToFrame _ _ _ _).dropped)
    (refusesUnless_of_refuses (refuses_pure _))) fun s => ?_
  refine exists_congr fun kpage => exists_congr fun found => and_congr_right fun _ => ?_
  by_cases none : kpage = 0 <;> simp [none]

theorem refusesUnless_pageFault (faultAddr esp : Nat) (notPresent user : Bool) :
    RefusesUnless (pageFault cur faultAddr esp notPresent user env) (PageInFails cur faultAddr esp notPresent user env) := by
  intro s status final ended
  unfold pageFault at ended
  split at ended <;> rename_i bad
  · cases ended
    exact iff_of_true rfl fun fails => fails.1 bad
  · simp only [pageFaultIdentifier, bind_get] at ended
    rw [PageInFails, and_iff_right bad]
    cases found : s.hashFind cur (pgRoundDown faultAddr) with
    | none =>
      simp only [found] at ended
      split at ended <;> rename_i grows
      · rw [refusesUnless_pageGrowStack _ s status final ended]
        simp [grows]
      · cases ended
        simp [grows]
    | some target =>
      simp only [found] at ended
      cases place : (s.pages target).location with
      | inSwap =>
        simp only [place] at ended ⊢
        exact refusesUnless_pageSwapInstall _ s status final ended
      | inFilesys =>
        simp only [place] at ended ⊢
        exact refusesUnless_pageReadInstall _ s status final ended
      | inFrame | cleared =>
        simp only [place] at ended
        cases ended

end Faults

section Calls
open Syscall Procedure Computation
variable {A K : Type} {environment : Environment K} {world final : World K}

/-- The call ends the process with status -1, if at all. -/
def Denies : Call → Prop
  | .systemExitHelper status => status = -1
  | _ => True

theorem denies_of_inner {call : Call} (inner : call.Inner) : Denies call := by
  cases call with
  | systemExitHelper => exact inner.elim
  | load | store | checkPointer | hang | routine => trivial

theorem composes_denies : Composes fun A (body : Routines A) => Makes (I := calls) Denies body where
  inner := makes_mono fun _ => denies_of_inner
  bind := makes_bind
  checkPointer _ := ⟨trivial, fun _ => trivial⟩
  withFilesysLock inner := makes_bind ⟨trivial, fun _ => trivial⟩ fun _ =>
    makes_bind (makes_mono (fun _ => denies_of_inner) inner) fun _ => makes_bind ⟨trivial, fun _ => trivial⟩ fun _ => trivial
  refuse := ⟨rfl, nofun⟩

theorem exited_of_denies {body : Routines A} {status : Int} (denies : Makes (I := calls) Denies body)
    (ended : body.execute (checked environment) world = .stopped (.exited status) final) : status = -1 := by
  obtain ⟨call, before, denied, stopped⟩ := stopped_of_makes denies ended
  cases call with
  | load | store | checkPointer | routine =>
    simp only [checked, answer] at stopped
    split at stopped <;> cases stopped
    try rfl
  | hang => cases stopped
  | systemExitHelper other =>
    cases stopped
    exact denied

/-- The argument of a call that is `exit` and whose words can be fetched. -/
def exitArgument (memory : UserMemory) (stackPointer : Nat) : Option Int :=
  if validPointer stackPointer && decide ((memory.word stackPointer).bind Number.ofWord = some .exit) &&
      validPointer (ptrAdd stackPointer 4) then
    (memory.word (ptrAdd stackPointer 4)).map signed
  else none

theorem exited_syscallHandler {stackPointer : Nat} {status : Int}
    (ended : (syscallHandler stackPointer).execute (checked environment) world = .stopped (.exited status) final) :
    status = (exitArgument world.memory stackPointer).getD (-1) := by
  rw [syscallHandler, execute_bind] at ended
  rcases execute_argument environment world stackPointer with
    ⟨invalid, stopped⟩ | ⟨valid, word, read, fetched⟩ | ⟨-, -, fault, faulted⟩
  · rw [bind_of_stopped stopped] at ended
    cases ended
    simp [exitArgument, invalid]
  · rw [bind_of_returned fetched] at ended
    by_cases exits : Number.ofWord word = some .exit
    · rw [exits, dispatch, keepEax, execute_bind, systemExit, execute_bind] at ended
      rcases execute_argument environment world (ptrAdd stackPointer 4) with
        ⟨invalid, stopped⟩ | ⟨valid, argument, given, fetched⟩ | ⟨-, -, fault, faulted⟩
      · rw [bind_of_stopped (bind_of_stopped stopped)] at ended
        cases ended
        simp [exitArgument, invalid]
      · have exited : ((Syscall.systemExitHelper (signed argument) : Routines Unit).execute (checked environment)) world =
            .stopped (.exited (signed argument)) world := rfl
        rw [bind_of_stopped (by rw [bind_of_returned fetched]; exact exited)] at ended
        cases ended
        simp_all [exitArgument]
      · rw [bind_of_stopped (bind_of_stopped faulted)] at ended
        cases ended
    · have other : exitArgument world.memory stackPointer = none := by simp [exitArgument, read, exits]
      rw [other]
      exact exited_of_denies (composes_denies.dispatch stackPointer exits) ended
  · rw [bind_of_stopped faulted] at ended
    cases ended

end Calls

section Histories
variable {s next : System}

theorem status_advance {cur : Nat} (taken : advance s cur = some next) (t : Nat) :
    (next.threads t).exitStatus = (s.threads t).exitStatus ∧ (next.threads t).pc.exiting = (s.threads t).pc.exiting := by
  unfold advance at taken
  split at taken <;> rename_i here
  · split at taken
    · cases taken
      simp only [System.goto, set_threads]
      grind [Pc.exiting]
    · cases taken
  · cases taken
    simp only [set_threads]
    grind [Pc.exiting]
  · cases taken
    simp only [System.answer, System.goto, System.upBlockChild, set_threads]
    grind [Pc.exiting]
  · split at taken
    · cases taken
      simp only [System.goto, set_threads]
      grind [Pc.exiting]
    · cases taken
      simp only [System.goto, System.upBlockChild, set_threads]
      grind [Pc.exiting]
  · cases taken
    simp only [set_threads]
    grind [Pc.exiting]
  · split at taken
    · cases taken
      simp only [System.goto, set_threads]
      grind [Pc.exiting]
    · split at taken
      · cases taken
        simp only [set_threads]
        grind [Pc.exiting]
      · cases taken
  · cases taken

/-- A thread's exit status is set once, by the event that ends it. -/
theorem status_step {event : Event} (taken : step s event = some next) (t : Nat) :
    ((next.threads t).exitStatus = (s.threads t).exitStatus ∧ (next.threads t).pc.exiting = (s.threads t).pc.exiting) ∨
      ((next.threads t).exitStatus = 0 ∧ (s.threads t).pc.exiting = false) ∨
      ∃ status, event = .exit t status ∧ (next.threads t).exitStatus = status ∧ (next.threads t).pc.exiting = true := by
  cases event with
  | create parent child =>
    simp only [step] at taken
    split at taken <;> rename_i enabled
    · cases taken
      simp only [System.goto, set_threads]
      grind [Pc.exiting]
    · cases taken
  | register parent =>
    simp only [step] at taken
    split at taken <;> rename_i here
    · cases taken
      simp only [set_threads]
      grind [Pc.exiting]
    · cases taken
  | abandon parent =>
    simp only [step] at taken
    split at taken <;> rename_i here
    · cases taken
      simp only [System.goto, System.upBlockChild, set_threads]
      grind [Pc.exiting]
    · cases taken
  | wait parent tid =>
    simp only [step] at taken
    split at taken <;> rename_i here
    · split at taken
      · cases taken
        simp only [System.goto, set_threads]
        grind [Pc.exiting]
      · cases taken
        exact .inl ⟨rfl, rfl⟩
    · cases taken
  | exit thread status =>
    simp only [step] at taken
    split at taken <;> rename_i here
    · cases taken
      simp only [set_threads]
      grind [Pc.exiting]
    · cases taken
  | advance thread => exact .inl (status_advance taken t)

theorem status_of_exit {thread : Nat} {status : Int} {events : List Event}
    (exited : (s.threads thread).pc.exiting = true ∧ (s.threads thread).exitStatus = status)
    (reached : run step s events = some next) :
    (next.threads thread).pc.exiting = true ∧ (next.threads thread).exitStatus = status := by
  refine invariant_of_reached step
    (fun s => (s.threads thread).pc.exiting = true ∧ (s.threads thread).exitStatus = status) ?_ exited reached
  intro before event after left taken
  rcases status_step taken thread with ⟨same, exiting⟩ | ⟨-, fresh⟩ | ⟨other, ended, -, -⟩
  · exact ⟨exiting ▸ left.1, same ▸ left.2⟩
  · simp [left.1] at fresh
  · -- a thread that has begun to exit makes no second call of `exit`
    subst ended
    simp only [step] at taken
    split at taken <;> rename_i here
    · simp [here, Pc.exiting] at left
    · cases taken

theorem status_before_exit {thread : Nat} {events : List Event} (reached : run step boot events = some s)
    (here : (s.threads thread).pc.exiting = false) : (s.threads thread).exitStatus = 0 := by
  refine invariant_of_reached step
    (fun s => ∀ t, (s.threads t).pc.exiting = false → (s.threads t).exitStatus = 0) ?_ ?_ reached thread here
  · intro before event after fresh taken t outside
    rcases status_step taken t with ⟨same, exiting⟩ | ⟨zero, -⟩ | ⟨other, -, -, exiting⟩
    · exact same ▸ fresh t (exiting ▸ outside)
    · exact zero
    · simp [exiting] at outside
  · intro t _
    by_cases first : t = 1 <;> simp [boot, first]

end Histories

inductive Segment where
  | user
  | kernel
  | unknown
  deriving DecidableEq

/-- `kill` calls `thread_exit` on what the thread's `exit_status` is; in kernel code it panics. -/
def kill (exitStatus : Int) : Segment → Option Int
  | .user | .unknown => some exitStatus
  | .kernel => none

inductive Way (K : Type) where
  | systemCall (environment : Syscall.Environment K) (world : Syscall.World K) (stackPointer : Nat)
  | exception (vecNo : Nat) (cs : Segment)
  /-- A page fault taken in user mode, or in the kernel on user memory. -/
  | pageFault (s : Vm.State) (cur faultAddr esp : Nat) (notPresent user : Bool) (env : Vm.Env)

namespace Way
variable {K : Type}

/-- The exit status `thread_exit` finds, given the one the thread had; `none` when the process goes on. -/
def status (exitStatus : Int) : Way K → Option Int
  | .systemCall environment world stackPointer =>
    match (Syscall.syscallHandler stackPointer).execute (Syscall.checked environment) world with
    | .stopped (.exited status) _ => some status
    | _ => none
  | .exception _ cs => kill exitStatus cs
  | .pageFault s cur faultAddr esp notPresent user env =>
    match Vm.pageFault cur faultAddr esp notPresent user env s with
    | .stopped (.exit status) _ => some status
    | _ => none

/-- The argument of `exit`, or -1 when the kernel ended the process. -/
def documented : Way K → Int
  | .systemCall _ world stackPointer => (exitArgument world.memory stackPointer).getD (-1)
  | .exception _ _ | .pageFault .. => -1

/-- The ends that the kernel reports with another status than -1. -/
def Misreported : Way K → Prop
  | .systemCall .. => False
  | .exception _ _ => True
  | .pageFault s cur faultAddr esp notPresent user env => PageInFails cur faultAddr esp notPresent user env s

theorem status_eq_documented_iff {way : Way K} {status : Int} (ends : way.status 0 = some status) :
    status = way.documented ↔ ¬ way.Misreported := by
  cases way with
  | systemCall environment world stackPointer =>
    simp only [Way.status] at ends
    split at ends
    · cases ends
      exact iff_of_true (exited_syscallHandler (by assumption)) id
    · cases ends
  | exception vecNo cs =>
    have zero : status = 0 := by
      cases cs <;> simp_all [Way.status, kill]
    simp [documented, Misreported, zero]
  | pageFault s cur faultAddr esp notPresent user env =>
    simp only [Way.status] at ends
    split at ends
    · cases ends
      exact refusesUnless_pageFault faultAddr esp notPresent user s _ _ (by assumption)
    · cases ends

end Way

section Instances
open Syscall

def exitMemory : UserMemory where
  read address :=
    if 0xbffffff8 ≤ address ∧ address < 0xc0000000 then some ([1, 0, 0, 0, 57, 0, 0, 0].getD (address - 0xbffffff8) 0) else none
  writable _ := false

def exitCall : Way Unit := .systemCall (fun _ _ => none) ⟨exitMemory, ()⟩ 0xbffffff8

/-- A child is created, and after its exit with the given status its parent waits for it. -/
theorem waited_for_child (status : Int) : ∃ s final, run step boot [.create 1 2, .register 1] = some s ∧
    (s.threads 2).exitStatus = 0 ∧
    run step s [.exit 2 status, .advance 2, .advance 2, .wait 1 2, .advance 1, .advance 1, .advance 1] = some final ∧
    ⟨1, 2, some 2, status⟩ ∈ final.returns := by
  refine ⟨_, _, rfl, ?_, rfl, ?_⟩
  · rfl
  · exact List.mem_singleton.mpr rfl

end Instances

end Pintos.Process
