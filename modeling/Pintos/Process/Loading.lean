import Mathlib.Algebra.GroupWithZero.Nat
import Pintos.Process.SetupStack

/-! `load` and `start_process` (`userprog/process.c`) as the parent sees them.

The parent sleeps on `wait_for_load` until `load` raises it behind the label
`done`. Whatever ends the thread before that label leaves the parent asleep: a
table or an entry that `malloc` has no memory for, a stack page that is not
installed, an argument stored outside of the stack page. A child whose `parent`
is not set yet goes through a null pointer at the label itself.
-/

set_option autoImplicit false

namespace Pintos.Process.Loading
open Semantics Computation Vm Arguments

structure Memory where
  /-- `malloc` of the `struct hash` of the table. -/
  table : Bool
  heap : Heap
  /-- The page `pagedir_create` obtained, 0 when none. -/
  pagedir : Nat
  filesysOpen : List UInt8 → Option Nat
  /-- The bounce buffer of each read of a header is allocated. -/
  bounce : Nat → Bool
  copyPage : Bool
  env : Env
  /-- `register_child_with_parent` has set `parent` before the load ends. -/
  registered : Bool

def field (bytes : List UInt8) (ofs size : Nat) : Nat := ofBytes ((bytes.drop ofs).take size)

def ehdrSize : Nat := 52

def phdrSize : Nat := 32

/-- The members of `struct Elf32_Ehdr` that are used. -/
structure Ehdr where
  eIdent : List UInt8
  eType : Nat
  eMachine : Nat
  eVersion : Nat
  ePhoff : Nat
  ePhentsize : Nat
  ePhnum : Nat
  deriving DecidableEq, Repr

def ehdrOf (bytes : List UInt8) : Ehdr where
  eIdent := bytes.take 16
  eType := field bytes 16 2
  eMachine := field bytes 18 2
  eVersion := field bytes 20 4
  ePhoff := field bytes 28 4
  ePhentsize := field bytes 42 2
  ePhnum := field bytes 44 2

def phdrOf (bytes : List UInt8) (ofs : Nat) : Phdr where
  pType := .ofNat (field bytes ofs 4)
  pOffset := .ofNat (field bytes (ofs + 4) 4)
  pVaddr := .ofNat (field bytes (ofs + 8) 4)
  pFilesz := .ofNat (field bytes (ofs + 16) 4)
  pMemsz := .ofNat (field bytes (ofs + 20) 4)
  pFlags := .ofNat (field bytes (ofs + 24) 4)

def ehdrAccepted (bytes : List UInt8) (bounce : Bool) : Bool :=
  readAmount bytes.length 0 ehdrSize bounce == ehdrSize
    && (ehdrOf bytes).eIdent.take 7 == [127, 69, 76, 70, 1, 1, 1]
    && (ehdrOf bytes).eType == 2
    && (ehdrOf bytes).eMachine == 3
    && (ehdrOf bytes).eVersion == 1
    && (ehdrOf bytes).ePhentsize == phdrSize
    && decide ((ehdrOf bytes).ePhnum ≤ 1024)

inductive Header where
  /-- `goto done` -/
  | rejected
  | ignored
  | segment (phdr : Phdr)

def headerAt (bytes : List UInt8) (fileOfs : Int) (bounce : Bool) : Header :=
  if fileOfs < 0 ∨ bytes.length < fileOfs then .rejected
  else if readAmount bytes.length fileOfs.toNat phdrSize bounce ≠ phdrSize then .rejected
  else
    let phdr := phdrOf bytes fileOfs.toNat
    if phdr.pType = ptDynamic ∨ phdr.pType = ptInterp ∨ phdr.pType = ptShlib then .rejected
    else if phdr.pType = ptLoad then
      if validateSegment phdr bytes.length then .segment phdr else .rejected
    else .ignored

/-- The loop over the program headers, from header `i` on; the entries left on the heap, or `goto done`. -/
def loadPhdrs (cur file : Nat) (buckets : Bool) (bounce : Nat → Bool) : Nat → Nat → Int → Nat → Kernel (Option Nat)
  | 0, _, _, room => return some room
  | count + 1, i, fileOfs, room => do
    let s ← get
    match headerAt (s.files file) fileOfs (bounce (i + 1)) with
    | .rejected => return none
    | .ignored => loadPhdrs cur file buckets bounce count (i + 1) (fileOfs + phdrSize) room
    | .segment phdr =>
      -- Without buckets the first `page_add` does not come back.
      assert buckets
      loadPhdr room cur file phdr
      loadPhdrs cur file buckets bounce count (i + 1) (fileOfs + phdrSize) (room - phdr.pageCnt)

def nameOf (array : Nat → UInt8) : List UInt8 := ((List.range arraySize).map array).takeWhile (· ≠ 0)

def loadExecutable (cur : Nat) (cmd : CommandLine) (memory : Memory) (file : Nat) : Loader Bool := do
  let m ← get
  let ehdr := ehdrOf (m.vm.files file)
  if !ehdrAccepted (m.vm.files file) (memory.bounce 0) then return false
  else
    let left ← onVm (loadPhdrs cur file memory.heap.buckets memory.bounce ehdr.ePhnum 0 (signed32 ehdr.ePhoff)
      memory.heap.room)
    match left with
    | none => return false
    | some room =>
      let result ← setupStack cur cmd memory.copyPage { memory.heap with room := room } memory.env
      return result.success

/-- `load` before the label `done`. A null table is written through by `page_init`. -/
def loadBody (cur : Nat) (cmd : CommandLine) (memory : Memory) : Loader Bool := do
  match fileArg0 cmd with
  | .error index => stop (.overrun index)
  | .ok array =>
    if !memory.table then onVm (systemExitHelper cur (-1))
    else
      onVm (modify fun s => s.spawn cur memory.pagedir)
      if memory.pagedir = 0 then return false
      else
        match memory.filesysOpen (nameOf array) with
        | none => return false
        | some file => loadExecutable cur cmd memory file

/-- `load`. Page 0 is never mapped, so that a null `parent` ends the process. -/
def load (cur : Nat) (cmd : CommandLine) (memory : Memory) : Loader Bool := do
  let success ← loadBody cur cmd memory
  if memory.registered then
    modify fun m => { m with waitForLoad := m.waitForLoad + 1 }
    return success
  else onVm (systemExitHelper cur (-1))

def startProcess (cur : Nat) (cmd : CommandLine) (memory : Memory) : Loader Unit := do
  let success ← load cur cmd memory
  if !success then onVm (systemExitHelper cur 0)

/-! ### Only the label raises the semaphore -/

def Quiet {A : Type} (part : Loader A) : Prop := ∀ m, (part m).state.waitForLoad = m.waitForLoad

section Quiet
variable {A B : Type}

theorem quiet_pure (value : A) : Quiet (pure value) := fun _ => rfl

theorem quiet_stop (why : Stop) : Quiet (stop why : Loader A) := fun _ => rfl

theorem quiet_onVm (kernel : Kernel A) : Quiet (onVm kernel) := by
  intro m
  unfold onVm
  cases kernel m.vm <;> rfl

theorem Quiet.bind {first : Loader A} {next : A → Loader B} (quiet : Quiet first) (later : ∀ value, Quiet (next value)) :
    Quiet (first >>= next) := by
  intro m
  have start := quiet m
  rw [bind_apply]
  cases run : first m with
  | returned value after =>
    rw [run] at start
    exact (later value after).trans start
  | stopped why after =>
    rw [run] at start
    exact start

theorem quiet_setupStack (cur : Nat) (cmd : CommandLine) (copyPage : Bool) (heap : Heap) (env : Env) :
    Quiet (setupStack cur cmd copyPage heap env) := by
  unfold setupStack
  split
  · exact quiet_pure _
  · refine (quiet_onVm _).bind fun _ => ?_
    split
    · exact quiet_pure _
    · exact quiet_stop _
    · exact (quiet_onVm _).bind fun _ => quiet_pure _
    · exact (quiet_onVm _).bind fun _ => quiet_pure _

theorem quiet_loadExecutable (cur : Nat) (cmd : CommandLine) (memory : Memory) (file : Nat) :
    Quiet (loadExecutable cur cmd memory file) := by
  unfold loadExecutable
  refine Quiet.bind (fun _ => rfl) fun _ => ?_
  split
  · exact quiet_pure _
  refine (quiet_onVm _).bind fun left => ?_
  split
  · exact quiet_pure _
  · exact Quiet.bind (quiet_setupStack _ _ _ _ _) fun _ => quiet_pure _

theorem quiet_loadBody (cur : Nat) (cmd : CommandLine) (memory : Memory) : Quiet (loadBody cur cmd memory) := by
  unfold loadBody
  split
  · exact quiet_stop _
  split
  · exact quiet_onVm _
  refine (quiet_onVm _).bind fun _ => ?_
  split
  · exact quiet_pure _
  split
  · exact quiet_pure _
  · exact quiet_loadExecutable _ _ _ _

/-- The semaphore is raised once if `load` comes to its label with a parent, and not at all otherwise. -/
theorem startProcess_raises (cur : Nat) (cmd : CommandLine) (memory : Memory) (m : Machine) :
    (startProcess cur cmd memory m).state.waitForLoad = m.waitForLoad + 1 ↔
      memory.registered = true ∧ ∃ success after, loadBody cur cmd memory m = .returned success after := by
  have quiet := quiet_loadBody cur cmd memory m
  unfold startProcess
  cases run : loadBody cur cmd memory m with
  | stopped why after =>
    rw [run] at quiet
    have ended : load cur cmd memory m = .stopped why after := bind_of_stopped run
    rw [bind_of_stopped ended]
    change after.waitForLoad = m.waitForLoad at quiet
    change after.waitForLoad = _ ↔ _
    simp [quiet]
  | returned success after =>
    rw [run] at quiet
    change after.waitForLoad = m.waitForLoad at quiet
    cases registered : memory.registered with
    | false =>
      have ended : load cur cmd memory m = onVm (systemExitHelper cur (-1)) after := by
        rw [load, bind_of_returned run, registered]
        rfl
      have still := (quiet_onVm (systemExitHelper cur (-1) : Kernel Bool) after).trans quiet
      rw [bind_apply, ended]
      change ((onVm (systemExitHelper cur (-1)) after : Execution Machine Stop Bool)).state.waitForLoad = _ ↔ _
      rw [still]
      simp
    | true =>
      have done : load cur cmd memory m = .returned success { after with waitForLoad := after.waitForLoad + 1 } := by
        rw [load, bind_of_returned run, registered]
        rfl
      have raised : ∀ part : Loader Unit, Quiet part →
          (part { after with waitForLoad := after.waitForLoad + 1 }).state.waitForLoad = m.waitForLoad + 1 := by
        intro part still
        rw [still, quiet]
      rw [bind_of_returned done]
      refine iff_of_true (raised _ ?_) ⟨rfl, success, after, rfl⟩
      split
      · exact quiet_onVm _
      · exact quiet_pure _

end Quiet

/-! ### When the label is reached -/

/-- What the loop over the program headers finds: the segments it loads, and whether it comes to its end. -/
structure Scan where
  segments : List Phdr
  complete : Bool

def Scan.pageCnt (scan : Scan) : Nat := (scan.segments.map Phdr.pageCnt).sum

def scanPhdrs (bytes : List UInt8) (bounce : Nat → Bool) : Nat → Nat → Int → Scan
  | 0, _, _ => ⟨[], true⟩
  | count + 1, i, fileOfs =>
    match headerAt bytes fileOfs (bounce (i + 1)) with
    | .rejected => ⟨[], false⟩
    | .ignored => scanPhdrs bytes bounce count (i + 1) (fileOfs + phdrSize)
    | .segment phdr =>
      let rest := scanPhdrs bytes bounce count (i + 1) (fileOfs + phdrSize)
      ⟨phdr :: rest.segments, rest.complete⟩

theorem headerAt_segment {bytes : List UInt8} {fileOfs : Int} {bounce : Bool} {phdr : Phdr}
    (found : headerAt bytes fileOfs bounce = .segment phdr) : Accepted phdr bytes.length := by
  unfold headerAt at found
  split at found
  · cases found
  split at found
  · cases found
  simp only at found
  split at found
  · cases found
  split at found
  · split at found
    · rename_i valid
      cases found
      exact validateSegment_iff.mp valid
    · cases found
  · cases found

def Scan.Loads (scan : Scan) (heap : Heap) : Prop :=
  (scan.segments = [] ∨ heap.buckets = true) ∧ scan.pageCnt ≤ heap.room

/-- The loop adds the entries of the segments it finds, or the kernel stops for want of memory. -/
theorem loadPhdrs_eq {s : State} {cur file : Nat} (short : (s.files file).length < 2 ^ 31) {buckets : Bool}
    {bounce : Nat → Bool} {count i : Nat} {fileOfs : Int} {scan : Scan}
    (scanned : scanPhdrs (s.files file) bounce count i fileOfs = scan) (room : Nat) :
    (scan.Loads ⟨room, buckets⟩ →
      loadPhdrs cur file buckets bounce count i fileOfs room s =
        .returned (if scan.complete then some (room - scan.pageCnt) else none)
          (s.addAll cur (segmentEntries scan.segments file (s.threads cur).pagedir)))
    ∧ (¬scan.Loads ⟨room, buckets⟩ → ∃ final, loadPhdrs cur file buckets bounce count i fileOfs room s = .stopped .panic final) := by
  induction count generalizing s i fileOfs room scan with
  | zero =>
    subst scanned
    refine ⟨fun _ => rfl, fun fails => absurd ?_ fails⟩
    exact ⟨.inl rfl, Nat.zero_le _⟩
  | succ count ih =>
    cases found : headerAt (s.files file) fileOfs (bounce (i + 1)) with
    | rejected =>
      simp only [scanPhdrs, loadPhdrs, bind_get, found] at scanned ⊢
      subst scanned
      refine ⟨fun _ => rfl, fun fails => absurd ?_ fails⟩
      exact ⟨.inl rfl, Nat.zero_le _⟩
    | ignored =>
      simp only [scanPhdrs, loadPhdrs, bind_get, found] at scanned ⊢
      exact ih short scanned room
    | segment phdr =>
      have accepted := headerAt_segment found
      have loaded := loadPhdr_eq accepted cur file (accepted.first_offset short) room s
      simp only [scanPhdrs, loadPhdrs, bind_get, found] at scanned ⊢
      obtain ⟨rest, others⟩ : ∃ rest, scanPhdrs (s.files file) bounce count (i + 1) (fileOfs + phdrSize) = rest := ⟨_, rfl⟩
      rw [others] at scanned
      subst scanned
      cases buckets with
      | false =>
        refine ⟨fun loads => ?_, fun _ => ⟨s, rfl⟩⟩
        obtain ⟨empty | given, -⟩ := loads
        · cases empty
        · cases given
      | true =>
        have pages : Scan.pageCnt ⟨phdr :: rest.segments, rest.complete⟩ = phdr.pageCnt + rest.pageCnt := by
          simp only [Scan.pageCnt, List.map_cons, List.sum_cons]
        rw [bind_of_returned (assert_true s)]
        by_cases enough : phdr.pageCnt ≤ room
        · rw [if_pos enough] at loaded
          rw [bind_of_returned loaded]
          have files : (s.addAll cur (phdr.entries file (s.threads cur).pagedir)).files = s.files := addAll_files ..
          rw [← files] at short others
          have later := ih short others (room - phdr.pageCnt)
          rw [addAll_pagedir, ← addAll_append] at later
          have same : Scan.Loads ⟨phdr :: rest.segments, rest.complete⟩ ⟨room, true⟩ ↔
              rest.Loads ⟨room - phdr.pageCnt, true⟩ := by
            simp only [Scan.Loads, pages, or_true, true_and]
            omega
          rw [same, pages, ← Nat.sub_sub]
          exact later
        · rw [if_neg enough] at loaded
          obtain ⟨final, failed⟩ := loaded
          refine ⟨fun loads => ?_, fun _ => ⟨final, bind_of_stopped failed⟩⟩
          have total := loads.2
          rw [pages] at total
          exact absurd (Nat.le_of_add_right_le total) enough

/-! ### `setup_stack` to its end -/

section Setup
variable {cur : Nat} {cmd : CommandLine} {heap : Heap} {env : Env} {m : Machine}

/-- `setup_stack` gets the stack page installed, stays in its array, and a stack of more than a page is stored. -/
structure StackSetUp (cur : Nat) (cmd : CommandLine) (heap : Heap) (env : Env) (s : State) : Prop where
  array : ∀ index, argumentStack cmd ≠ .overrun index
  frame : ∃ vm, stackFrame cur heap env s = .returned () vm
  stores : ∀ vm stack, stackFrame cur heap env s = .returned () vm → argumentStack cmd = .built stack →
    pgSize < cmd.stackSize → ∃ after, storeUsers cur env stack.stored.reverse vm = .returned () after

theorem stores_line {s : State} {stack : Stack} (ended : argumentStack cmd = .noRoom stack) (mapped : StackMapped s cur) :
    ∃ vm, storeUsers cur env stack.stored.reverse s = .returned () vm := by
  obtain ⟨filled, myEsp, short⟩ := argumentStack_noRoom ended
  refine ⟨_, storeUsers_of_accessible env _ fun store mem => ?_⟩
  obtain ⟨low, high⟩ := (filled store.1).mp ⟨store.2, List.mem_reverse.mp mem⟩
  refine mapped.accessible ?_ high
  rw [myEsp, CommandLine.onStack_myEsp] at low
  simp only [stackPage, physBase, pgSize, availStackSpace] at *
  omega

theorem setupStack_returns_iff :
    (∃ result after, setupStack cur cmd true heap env m = .returned result after) ↔
      StackSetUp cur cmd heap env m.vm := by
  constructor
  · rintro ⟨result, after, done⟩
    obtain ⟨_, framed, installing, rest⟩ := bind_returned.mp done
    obtain ⟨vm, frame, rfl⟩ := onVm_returned.mp installing
    refine ⟨fun index overrun => ?_, ⟨vm, frame⟩, fun other stack same built _ => ?_⟩
    · simp only [overrun] at rest
      cases rest
    · cases frame.symm.trans same
      simp only [built] at rest
      obtain ⟨_, later, storing, -⟩ := bind_returned.mp rest
      obtain ⟨last, stores, -⟩ := onVm_returned.mp storing
      exact ⟨last, stores⟩
  · rintro ⟨array, ⟨vm, frame⟩, stores⟩
    have mapped := stackFrame_maps frame
    have installing : onVm (stackFrame cur heap env) m = .returned () { m with vm := vm } :=
      onVm_returned.mpr ⟨vm, frame, rfl⟩
    have stored : ∀ (log : List (Nat × UInt8)) (result : Result),
        (∃ after, storeUsers cur env log vm = .returned () after) →
        ∃ after, (onVm (storeUsers cur env log) >>= fun _ => (return result : Loader Result)) { m with vm := vm } =
          .returned result after := by
      rintro log result ⟨after, run⟩
      have storing : onVm (storeUsers cur env log) { m with vm := vm } = .returned () { m with vm := after } :=
        onVm_returned.mpr ⟨after, run, rfl⟩
      exact ⟨_, bind_of_returned storing⟩
    unfold setupStack
    simp only [Bool.not_true, Bool.false_eq_true, if_false]
    rw [bind_of_returned installing]
    cases outcome : argumentStack cmd with
    | tooLong => exact ⟨_, _, rfl⟩
    | overrun index => exact absurd outcome (array index)
    | noRoom stack => exact ⟨_, stored _ _ (stores_line outcome mapped)⟩
    | built stack =>
      refine ⟨_, stored _ _ ?_⟩
      by_cases fits : cmd.stackSize ≤ pgSize
      · obtain ⟨after, run, -⟩ := stores_inside outcome mapped fits env
        exact ⟨after, run⟩
      · exact stores vm stack frame outcome (Nat.lt_of_not_le fits)

end Setup

/-! ### `load` to its label -/

section Label
variable {cur : Nat} {cmd : CommandLine} {memory : Memory} {m : Machine}

theorem nameOf_eq {array : Nat → UInt8} {word : List UInt8} (noNul : 0 ∉ word) (short : word.length < arraySize)
    (letters : ∀ j < word.length, array j = word.getD j 0) (nul : array word.length = 0) : nameOf array = word := by
  have start : (List.range word.length).map array = word := by
    refine List.ext_getElem (by simp) fun j below inside => ?_
    rw [List.getElem_map, List.getElem_range, letters j inside, List.getD_eq_getElem _ _ inside]
  have split : (List.range arraySize).map array =
      word ++ 0 :: (List.range (arraySize - word.length - 1)).map fun j => array (word.length + (j + 1)) := by
    obtain ⟨more, total⟩ := Nat.exists_eq_add_of_lt short
    rw [total, Nat.add_assoc, List.range_add, List.map_append, start, Nat.add_sub_cancel_left, Nat.add_sub_cancel,
      List.range_succ_eq_map]
    simp [nul]
  have plain : ∀ letter ∈ word, decide (letter ≠ 0) = true := by
    intro letter mem
    refine decide_eq_true fun same => noNul ?_
    exact same ▸ mem
  rw [nameOf, split, List.takeWhile_append_of_pos plain]
  simp

theorem nameOf_fileArg0 {array : Nat → UInt8} (copied : fileArg0 cmd = .ok array) : nameOf array = cmd.firstWord := by
  have short := (fileArg0_ok_iff cmd).mp ⟨array, copied⟩
  obtain ⟨spelling, line⟩ | ⟨count, line⟩ := spelled_or_blank space cmd.bytes
  · have first : cmd.firstWord = spelling.first := by
      rw [CommandLine.firstWord, ← line, spelling.wordsOf_line]
      rfl
    rw [first] at short ⊢
    obtain ⟨other, same, nul, letters⟩ := (fileArg0_spelling line.symm).1 short
    cases copied.symm.trans same
    refine nameOf_eq (fun mem => cmd.noNul ?_) short letters nul
    rw [← line]
    exact Spelling.mem_line List.mem_cons_self mem
  · have first : cmd.firstWord = [] := by
      rw [CommandLine.firstWord, line, ← List.append_nil (List.replicate count space), wordsOf_replicate, wordsOf_nil]
      rfl
    obtain ⟨other, same, nul⟩ := fileArg0_blank line
    cases copied.symm.trans same
    rw [first]
    exact nameOf_eq List.not_mem_nil (by decide) (fun _ below => absurd below (Nat.not_lt_zero _)) nul

/-- Once the header of the executable is accepted, the entries of its segments are allocated, and `setup_stack` comes
to its end. -/
def ExecutableLoads (cur : Nat) (cmd : CommandLine) (memory : Memory) (s : State) (file : Nat) : Prop :=
  ehdrAccepted (s.files file) (memory.bounce 0) = true →
    let ehdr := ehdrOf (s.files file)
    let scan := scanPhdrs (s.files file) memory.bounce ehdr.ePhnum 0 (signed32 ehdr.ePhoff)
    scan.Loads memory.heap
    ∧ (scan.complete = true → memory.copyPage = true →
      StackSetUp cur cmd { memory.heap with room := memory.heap.room - scan.pageCnt } memory.env
        (s.addAll cur (segmentEntries scan.segments file (s.threads cur).pagedir)))

theorem loadExecutable_returns_iff {file : Nat} (short : (m.vm.files file).length < 2 ^ 31) :
    (∃ success after, loadExecutable cur cmd memory file m = .returned success after) ↔
      ExecutableLoads cur cmd memory m.vm file := by
  unfold loadExecutable ExecutableLoads
  rw [bind_get]
  cases accepted : ehdrAccepted (m.vm.files file) (memory.bounce 0) with
  | false => exact iff_of_true ⟨_, _, rfl⟩ nofun
  | true =>
    obtain ⟨scan, scanned⟩ : ∃ scan, scanPhdrs (m.vm.files file) memory.bounce (ehdrOf (m.vm.files file)).ePhnum 0
      (signed32 (ehdrOf (m.vm.files file)).ePhoff) = scan := ⟨_, rfl⟩
    have phdrs := @loadPhdrs_eq m.vm cur file short memory.heap.buckets _ _ _ _ scan scanned memory.heap.room
    simp only [scanned, Bool.not_true, Bool.false_eq_true, if_false, true_implies]
    by_cases given : scan.Loads memory.heap
    · have run := onVm_returned.mpr ⟨_, phdrs.1 given, rfl⟩
      rw [bind_of_returned run, and_iff_right given]
      cases scan.complete with
      | false => exact iff_of_true ⟨_, _, rfl⟩ nofun
      | true =>
        simp only [if_true, true_implies]
        cases memory.copyPage with
        | false => exact iff_of_true ⟨_, _, rfl⟩ nofun
        | true =>
          simp only [true_implies]
          have set_up := @setupStack_returns_iff cur cmd { memory.heap with room := memory.heap.room - scan.pageCnt } memory.env
            ⟨m.vm.addAll cur (segmentEntries scan.segments file (m.vm.threads cur).pagedir), m.waitForLoad⟩
          rw [← set_up]
          constructor
          · rintro ⟨success, after, done⟩
            obtain ⟨result, last, set, -⟩ := bind_returned.mp done
            exact ⟨result, last, set⟩
          · rintro ⟨result, last, set⟩
            exact ⟨_, _, bind_of_returned set⟩
    · obtain ⟨final, failed⟩ := phdrs.2 given
      rw [bind_of_stopped (onVm_stopped failed)]
      refine iff_of_false ?_ fun loads => given loads.1
      rintro ⟨success, after, done⟩
      cases done

/-- Nothing ends the thread before the label: the name fits its array, the table is allocated, and if there is a
directory and the executable is opened, it is loaded. -/
def ReachesLabel (cur : Nat) (cmd : CommandLine) (memory : Memory) (m : Machine) : Prop :=
  cmd.firstWord.length < arraySize ∧ memory.table = true
  ∧ (memory.pagedir ≠ 0 → ∀ file, memory.filesysOpen cmd.firstWord = some file →
    ExecutableLoads cur cmd memory (m.vm.spawn cur memory.pagedir) file)

theorem loadBody_returns_iff (short : ∀ file, (m.vm.files file).length < 2 ^ 31) :
    (∃ success after, loadBody cur cmd memory m = .returned success after) ↔ ReachesLabel cur cmd memory m := by
  unfold loadBody ReachesLabel
  have copied := fileArg0_ok_iff cmd
  cases name : fileArg0 cmd with
  | error index =>
    rw [name] at copied
    refine iff_of_false ?_ fun reaches => ?_
    · rintro ⟨success, after, done⟩
      cases done
    · obtain ⟨array, done⟩ := copied.mpr reaches.1
      cases done
  | ok array =>
    rw [name] at copied
    rw [and_iff_right (copied.mp ⟨array, rfl⟩)]
    simp only [nameOf_fileArg0 name]
    cases memory.table with
    | false =>
      refine iff_of_false ?_ fun reaches => absurd reaches.1 (by decide)
      rintro ⟨success, after, done⟩
      cases done
    | true =>
      have spawned : onVm (modify fun s => s.spawn cur memory.pagedir) m =
          .returned () { m with vm := m.vm.spawn cur memory.pagedir } := rfl
      simp only [Bool.not_true, Bool.false_eq_true, if_false, true_and]
      rw [bind_of_returned spawned]
      by_cases directory : memory.pagedir = 0
      · rw [if_pos directory]
        exact iff_of_true ⟨_, _, rfl⟩ fun some => absurd directory some
      rw [if_neg directory]
      simp only [ne_eq, directory, not_false_eq_true, true_implies]
      cases opened : memory.filesysOpen cmd.firstWord with
      | none => exact iff_of_true ⟨_, _, rfl⟩ nofun
      | some file =>
        have files : (m.vm.spawn cur memory.pagedir).files = m.vm.files := by
          unfold State.spawn
          rw [if_neg directory]
          rfl
        simp only [Option.some.injEq, forall_eq']
        exact loadExecutable_returns_iff (m := { m with vm := m.vm.spawn cur memory.pagedir }) (by rw [files]; exact short file)

def bareExecutable : List UInt8 :=
  [127, 69, 76, 70, 1, 1, 1] ++ List.replicate 9 0 ++ [2, 0, 3, 0, 1, 0, 0, 0] ++ List.replicate 4 0 ++ [52, 0, 0, 0]
    ++ List.replicate 10 0 ++ [32, 0] ++ List.replicate 8 0

def bareMachine : Machine := ⟨{ bootState 0 with files := fun _ => bareExecutable }, 0⟩

def enoughMemory : Memory where
  table := true
  heap := { room := 8 }
  pagedir := 5
  filesysOpen _ := some 1
  bounce _ := true
  copyPage := true
  env := {}
  registered := true

/-- The thread ended with `status` and nothing raised `wait_for_load`. -/
def endedUnraised (status : Int) : Execution Machine Stop Unit → Bool
  | .stopped (.halt (.exit found)) final => found == status && final.waitForLoad == 0
  | _ => false

theorem endedUnraised_ended {status : Int} {result : Execution Machine Stop Unit}
    (ended : endedUnraised status result = true) :
    ∃ final, result = .stopped (.halt (.exit status)) final ∧ final.waitForLoad = 0 := by
  unfold endedUnraised at ended
  split at ended
  · rename_i found final
    simp only [Bool.and_eq_true, beq_iff_eq] at ended
    exact ⟨final, by rw [ended.1], ended.2⟩
  · cases ended

end Label

end Pintos.Process.Loading
