import Pintos.Process.StackLayout
import Pintos.Vm.Overlaps

/-! `setup_stack` (`userprog/process.c`) on the machine.

The stack page is built, added to the table and installed; then each byte is
stored through the address it has in the process. A store outside of the page
faults in kernel mode like any other access. Without a page for the copy of the
line the function returns `TID_ERROR`, which is true.
-/

set_option autoImplicit false

namespace Pintos.Process.Loading
open Semantics Computation Vm Arguments

inductive Stop where
  | halt (why : Halt)
  /-- A store to `fileArg0` or `dataAddresses` at an index that the array does not have. -/
  | overrun (index : Nat)
  deriving DecidableEq, Repr

structure Machine where
  vm : State
  /-- How often the parent's `wait_for_load` was raised. -/
  waitForLoad : Nat

abbrev Loader (A : Type) := Computation Machine Stop A

def onVm {A : Type} (kernel : Kernel A) : Loader A := fun m =>
  match kernel m.vm with
  | .returned value vm => .returned value { m with vm := vm }
  | .stopped why vm => .stopped (.halt why) { m with vm := vm }

/-- What `malloc` has for a load: the entries it can still make, and whether the table got its buckets. -/
structure Heap where
  room : Nat
  buckets : Bool := true

/-- The first part of `setup_stack`. Without buckets `hash_insert` reads through a null pointer, and the
fault handler's own look into the table does so again, until the kernel stops. -/
def stackFrame (cur : Nat) (heap : Heap) (env : Env) : Kernel Unit := do
  let kpage ← frameFindEmpty
  if kpage ≠ 0 then
    let s ← get
    let pd := (s.threads cur).pagedir
    let entry ← pageBuildWithin heap.room { upage := stackPage, writable := true, location := .inFrame, pagedir := pd }
    assert heap.buckets
    modify fun s => s.pageAdd cur entry
    let _ ← pageInstallToFrame cur entry stackPage kpage pd env
  else systemExitHelper cur (-6)

def stored (s : State) (cur addr : Nat) (byte : UInt8) : State :=
  let kpage := (s.translate cur addr).page
  (s.touch cur addr).setRam kpage (Function.update (s.ram kpage) (pgOfs addr) byte)

/-- A store of the kernel through an address of the process, tried again after a fault. -/
def storeUser (cur : Nat) (env : Env) (addr : Nat) (byte : UInt8) : Kernel Unit := do
  let s ← get
  if !s.accessible cur addr true then pageFault cur addr 0 (!(s.translate cur addr).present) false env
  let s ← get
  if s.accessible cur addr true then modify fun s => stored s cur addr byte
  else stop .diverge

def storeUsers (cur : Nat) (env : Env) : List (Nat × UInt8) → Kernel Unit
  | [] => return ()
  | (addr, byte) :: rest => do
    storeUser cur env addr byte
    storeUsers cur env rest

/-- What `setup_stack` returns, what it sets `*esp` to, and the bytes it has stored, the latest first. -/
structure Result where
  success : Bool
  esp : Option Nat := none
  stored : List (Nat × UInt8) := []

def setupStack (cur : Nat) (cmd : CommandLine) (copyPage : Bool) (heap : Heap) (env : Env) : Loader Result := do
  if !copyPage then return { success := true }
  else
    onVm (stackFrame cur heap env)
    match argumentStack cmd with
    | .tooLong => return { success := false }
    | .overrun index => stop (.overrun index)
    | .noRoom stack =>
      onVm (storeUsers cur env stack.stored.reverse)
      return { success := false, stored := stack.stored }
    | .built stack =>
      onVm (storeUsers cur env stack.stored.reverse)
      return { success := true, esp := some stack.myEsp, stored := stack.stored }

section OnVm
variable {A : Type} {kernel : Kernel A} {m final : Machine}

theorem onVm_returned {value : A} :
    onVm kernel m = .returned value final ↔
      ∃ vm, kernel m.vm = .returned value vm ∧ final = { m with vm := vm } := by
  unfold onVm
  cases kernel m.vm with
  | returned other vm =>
    simp only [Execution.returned.injEq]
    constructor
    · rintro ⟨rfl, rfl⟩
      exact ⟨vm, ⟨rfl, rfl⟩, rfl⟩
    · rintro ⟨_, ⟨rfl, rfl⟩, rfl⟩
      exact ⟨rfl, rfl⟩
  | stopped why vm => simp

theorem onVm_stopped {why : Halt} {vm : State} (ended : kernel m.vm = .stopped why vm) :
    onVm kernel m = .stopped (.halt why) { m with vm := vm } := by
  simp only [onVm, ended]

end OnVm

section Frame
variable {s final : State} {cur : Nat}

theorem translate_stackPage (s : State) (cur : Nat) {addr : Nat} (low : stackPage ≤ addr) (high : addr < physBase) :
    s.translate cur addr = s.translate cur stackPage := by
  refine Pagedir.pte_eq_of_pgNo _ ?_
  simp only [pgNo, stackPage, physBase, pgSize] at *
  omega

def StackMapped (s : State) (cur : Nat) : Prop :=
  (s.translate cur stackPage).present = true ∧ (s.translate cur stackPage).writable = true

theorem StackMapped.accessible (mapped : StackMapped s cur) {addr : Nat} (low : stackPage ≤ addr)
    (high : addr < physBase) : s.accessible cur addr true = true := by
  simp [State.accessible, translate_stackPage s cur low high, mapped.1, mapped.2, isUserVaddr, high]

theorem stackFrame_maps {heap : Heap} {env : Env} (done : stackFrame cur heap env s = .returned () final) :
    StackMapped final cur := by
  unfold stackFrame at done
  obtain ⟨kpage, found, -, rest⟩ := bind_returned.mp done
  split at rest
  · rw [bind_get] at rest
    obtain ⟨entry, built, making, checking⟩ := bind_returned.mp rest
    obtain ⟨_, checked, holds, adding⟩ := bind_returned.mp checking
    obtain ⟨-, rfl⟩ := assert_returned.mp holds
    rw [bind_modify] at adding
    obtain ⟨success, after, installed, returned⟩ := bind_returned.mp adding
    cases returned
    obtain ⟨_, between, asserted, filling⟩ := bind_returned.mp making
    obtain ⟨-, rfl⟩ := assert_returned.mp asserted
    cases filling
    have maps := pageInstallToFrame_maps installed
    refine ⟨by rw [maps], ?_⟩
    rw [maps]
    unfold State.pageAdd
    split <;> simp
  · cases rest

theorem translate_stored (s : State) (cur addr other : Nat) (byte : UInt8) :
    (stored s cur addr byte).translate cur other =
      if pgNo other = pgNo addr then { s.translate cur addr with accessed := true } else s.translate cur other := by
  have same : ((stored s cur addr byte).threads cur).pagedir = (s.threads cur).pagedir := rfl
  refine (State.pte_setPte ..).trans ?_
  rw [same]
  simp only [true_and]
  rfl

theorem accessible_stored (s : State) (cur addr other : Nat) (byte : UInt8) (write : Bool) :
    (stored s cur addr byte).accessible cur other write = s.accessible cur other write := by
  unfold State.accessible
  rw [translate_stored]
  split
  · rename_i same
    have entry : s.translate cur other = s.translate cur addr := Pagedir.pte_eq_of_pgNo _ same
    rw [entry]
  · rfl

theorem storeUser_of_accessible {addr : Nat} (env : Env) (byte : UInt8) (accessible : s.accessible cur addr true = true) :
    storeUser cur env addr byte s = .returned () (stored s cur addr byte) := by
  unfold storeUser
  simp [accessible, bind_apply]

theorem storeUsers_of_accessible (env : Env) (stores : List (Nat × UInt8))
    (accessible : ∀ store ∈ stores, s.accessible cur store.1 true = true) :
    storeUsers cur env stores s = .returned () (stores.foldl (fun s store => stored s cur store.1 store.2) s) := by
  induction stores generalizing s with
  | nil => rfl
  | cons store rest ih =>
    obtain ⟨first, others⟩ := List.forall_mem_cons.mp accessible
    rw [storeUsers, bind_of_returned (storeUser_of_accessible env store.2 first), List.foldl_cons]
    refine ih fun other mem => ?_
    rw [accessible_stored]
    exact others other mem

theorem stackMapped_stores (mapped : StackMapped s cur) (stores : List (Nat × UInt8)) :
    StackMapped (stores.foldl (fun s store => stored s cur store.1 store.2) s) cur := by
  induction stores generalizing s with
  | nil => exact mapped
  | cons store rest ih =>
    refine ih ?_
    unfold StackMapped
    rw [translate_stored]
    split
    · rename_i same
      have entry : s.translate cur stackPage = s.translate cur store.1 := Pagedir.pte_eq_of_pgNo _ same
      exact entry ▸ mapped
    · exact mapped

end Frame

section Claims
variable {m final : Machine} {cur : Nat} {cmd : CommandLine} {copyPage : Bool} {heap : Heap} {env : Env} {result : Result}

theorem setupStack_success (done : setupStack cur cmd copyPage heap env m = .returned result final)
    (success : result.success = true) :
    (copyPage = false ∧ result = { success := true }) ∨
    ∃ stack vm, copyPage = true ∧ argumentStack cmd = .built stack ∧ stackFrame cur heap env m.vm = .returned () vm
      ∧ storeUsers cur env stack.stored.reverse vm = .returned () final.vm
      ∧ result = { success := true, esp := some stack.myEsp, stored := stack.stored } := by
  unfold setupStack at done
  cases copyPage with
  | false =>
    cases done
    exact .inl ⟨rfl, rfl⟩
  | true =>
    refine .inr ?_
    obtain ⟨_, framed, installing, rest⟩ := bind_returned.mp done
    obtain ⟨vm, frame, rfl⟩ := onVm_returned.mp installing
    cases outcome : argumentStack cmd with
    | tooLong =>
      simp only [outcome] at rest
      cases rest
      cases success
    | overrun index =>
      simp only [outcome] at rest
      cases rest
    | noRoom stack =>
      simp only [outcome] at rest
      obtain ⟨_, _, _, returned⟩ := bind_returned.mp rest
      cases returned
      cases success
    | built stack =>
      simp only [outcome] at rest
      obtain ⟨_, after, storing, returned⟩ := bind_returned.mp rest
      obtain ⟨last, stores, rfl⟩ := onVm_returned.mp storing
      cases returned
      exact ⟨stack, vm, rfl, rfl, frame, stores, rfl⟩

theorem stored_inside {stack : Stack} (built : argumentStack cmd = .built stack) :
    (∀ store ∈ stack.stored, stackPage ≤ store.1 ∧ store.1 < physBase) ↔ cmd.stackSize ≤ pgSize := by
  obtain ⟨myEsp, filled, small⟩ := built_size built
  simp only [pgSize] at small
  constructor
  · intro inside
    obtain ⟨byte, lowest⟩ := (filled stack.myEsp).mpr ⟨le_rfl, by rw [myEsp]; simp only [physBase, CommandLine.stackSize]; omega⟩
    have low := (inside _ lowest).1
    simp only [myEsp, stackPage, physBase, pgSize] at low ⊢
    omega
  · intro fits store mem
    obtain ⟨low, high⟩ := (filled store.1).mp ⟨store.2, mem⟩
    simp only [myEsp, stackPage, physBase, pgSize] at low high fits ⊢
    omega

theorem stores_inside {s : State} {stack : Stack} (built : argumentStack cmd = .built stack) (mapped : StackMapped s cur)
    (fits : cmd.stackSize ≤ pgSize) (env : Env) :
    ∃ vm, storeUsers cur env stack.stored.reverse s = .returned () vm ∧ StackMapped vm cur := by
  refine ⟨_, storeUsers_of_accessible env _ fun store mem => ?_, stackMapped_stores mapped _⟩
  obtain ⟨low, high⟩ := (stored_inside built).mpr fits store (List.mem_reverse.mp mem)
  exact mapped.accessible low high

/-- Everything is stored in the stack page, which is installed, and `*esp` is set. -/
structure InStackPage (cur : Nat) (result : Result) (final : Machine) : Prop where
  inside : ∀ store ∈ result.stored, stackPage ≤ store.1 ∧ store.1 < physBase
  installed : (final.vm.translate cur stackPage).present = true
  esp : result.esp ≠ none

/-- With a frame for the stack page `setup_stack` returns the stack it has built. -/
theorem setupStack_of_frame {stack : Stack} {vm : State} (built : argumentStack cmd = .built stack)
    (fits : cmd.stackSize ≤ pgSize) (frame : stackFrame cur heap env m.vm = .returned () vm) :
    ∃ final, setupStack cur cmd true heap env m =
      .returned { success := true, esp := some stack.myEsp, stored := stack.stored } final := by
  obtain ⟨after, stores, -⟩ := stores_inside built (stackFrame_maps frame) fits env
  have installing : onVm (stackFrame cur heap env) m = .returned () { m with vm := vm } := onVm_returned.mpr ⟨vm, frame, rfl⟩
  have storing : onVm (storeUsers cur env stack.stored.reverse) { m with vm := vm } = .returned () { m with vm := after } :=
    onVm_returned.mpr ⟨after, stores, rfl⟩
  refine ⟨{ m with vm := after }, ?_⟩
  unfold setupStack
  simp only [Bool.not_true, Bool.false_eq_true, if_false]
  rw [bind_of_returned installing, built]
  exact bind_of_returned storing

def freshMachine : Machine := ⟨(bootState 4096).spawn 1 5, 0⟩

theorem freshMachine_frame : ∃ vm, stackFrame 1 { room := 8 } {} freshMachine.vm = .returned () vm := by
  have checked : (match stackFrame 1 { room := 8 } {} freshMachine.vm with
      | .returned () _ => true
      | .stopped _ _ => false) = true := by decide +kernel
  cases run : stackFrame 1 { room := 8 } {} freshMachine.vm with
  | returned value vm => exact ⟨vm, rfl⟩
  | stopped why vm =>
    rw [run] at checked
    cases checked

def echoX : CommandLine := ⟨[101, 99, 104, 111, 32, 120], by decide, by decide⟩

theorem echoX_returns :
    ∃ stack final, argumentStack echoX = .built stack ∧ setupStack 1 echoX true { room := 8 } {} freshMachine =
      .returned { success := true, esp := some stack.myEsp, stored := stack.stored } final := by
  obtain ⟨stack, built⟩ : ∃ stack, argumentStack echoX = .built stack :=
    argumentStack_builds (by decide) (by decide) (by decide)
  obtain ⟨vm, frame⟩ := freshMachine_frame
  obtain ⟨final, run⟩ := setupStack_of_frame built (by decide) frame
  exact ⟨stack, final, built, run⟩

/-- When `setup_stack` returns true, it has built its stack in the stack page exactly if it had a page for the copy of
the line and the stack takes no more than a page. -/
theorem setup_stack_in_page_iff (done : setupStack cur cmd copyPage heap env m = .returned result final)
    (success : result.success = true) :
    InStackPage cur result final ↔ copyPage = true ∧ cmd.stackSize ≤ pgSize := by
  obtain ⟨rfl, rfl⟩ | ⟨stack, vm, rfl, built, frame, stores, rfl⟩ := setupStack_success done success
  · exact ⟨fun inPage => absurd rfl inPage.esp, fun given => absurd given.1 (by decide)⟩
  · constructor
    · intro inPage
      exact ⟨rfl, (stored_inside built).mp inPage.inside⟩
    · rintro ⟨-, fits⟩
      obtain ⟨after, run, mapped⟩ := stores_inside built (stackFrame_maps frame) fits env
      obtain rfl : after = final.vm := by
        cases run.symm.trans stores
        rfl
      exact ⟨(stored_inside built).mpr fits, mapped.1, Option.some_ne_none _⟩

theorem setup_stack_in_page_echo :
    ∃ result final, setupStack 1 echoX true { room := 8 } {} freshMachine = .returned result final
      ∧ result.success = true ∧ (InStackPage 1 result final ↔ true = true ∧ echoX.stackSize ≤ pgSize) := by
  obtain ⟨stack, final, -, run⟩ := echoX_returns
  exact ⟨_, final, run, rfl, setup_stack_in_page_iff run rfl⟩

/-- Without a page for the copy nothing is done, and true is returned. -/
theorem no_copy_page_returns_true :
    ∃ result final, setupStack 1 echoX false { room := 8 } {} freshMachine = .returned result final
      ∧ result.success = true ∧ ¬InStackPage 1 result final :=
  ⟨_, _, rfl, rfl, fun inPage => inPage.esp rfl⟩

def ArgumentsPassed (cmd : CommandLine) (result : Result) : Prop :=
  ∃ esp, result.esp = some esp ∧ (⟨esp, result.stored⟩ : Stack).Passes (wordsOf space cmd.bytes)

theorem argumentsPassed_built {stack : Stack} (built : argumentStack cmd = .built stack)
    (nonempty : wordsOf space cmd.bytes ≠ []) :
    ArgumentsPassed cmd { success := true, esp := some stack.myEsp, stored := stack.stored } ↔
      cmd.bytes.head? ≠ some space ∧ cmd.bytes.getLast? ≠ some space := by
  rw [← built_passes_iff built nonempty]
  constructor
  · rintro ⟨esp, isSet, passes⟩
    cases isSet
    exact passes
  · intro passes
    exact ⟨_, rfl, passes⟩

/-- When `setup_stack` returns true for a line with at least one word, the stack has the words as its arguments exactly
if there was a page for the copy of the line and the line does not start or end with a space. -/
theorem setup_stack_passes_iff (nonempty : wordsOf space cmd.bytes ≠ [])
    (done : setupStack cur cmd copyPage heap env m = .returned result final) (success : result.success = true) :
    ArgumentsPassed cmd result ↔
      copyPage = true ∧ cmd.bytes.head? ≠ some space ∧ cmd.bytes.getLast? ≠ some space := by
  obtain ⟨rfl, rfl⟩ | ⟨stack, vm, rfl, built, -, -, rfl⟩ := setupStack_success done success
  · refine ⟨?_, fun given => absurd given.1 (by decide)⟩
    rintro ⟨esp, isSet, -⟩
    cases isSet
  · rw [argumentsPassed_built built nonempty, and_iff_right rfl]

theorem setup_stack_passes_echo :
    ∃ result final, setupStack 1 echoX true { room := 8 } {} freshMachine = .returned result final
      ∧ result.success = true ∧ (ArgumentsPassed echoX result ↔
        true = true ∧ echoX.bytes.head? ≠ some space ∧ echoX.bytes.getLast? ≠ some space) := by
  obtain ⟨stack, final, -, run⟩ := echoX_returns
  exact ⟨_, final, run, rfl, setup_stack_passes_iff (by decide) run rfl⟩

def aSpace : CommandLine := ⟨[97, 32], by decide, by decide⟩

/-- The address of the only word has been overwritten. -/
theorem trailing_space_loses_word :
    ∃ result final, setupStack 1 aSpace true { room := 8 } {} freshMachine = .returned result final
      ∧ result.success = true ∧ ¬ArgumentsPassed aSpace result := by
  obtain ⟨stack, built⟩ : ∃ stack, argumentStack aSpace = .built stack :=
    argumentStack_builds (by decide) (by decide) (by decide)
  obtain ⟨vm, frame⟩ := freshMachine_frame
  obtain ⟨final, run⟩ := setupStack_of_frame built (by decide) frame
  refine ⟨_, final, run, rfl, ?_⟩
  rw [argumentsPassed_built built (by decide)]
  decide

end Claims

end Pintos.Process.Loading
