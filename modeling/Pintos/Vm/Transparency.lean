import Pintos.Vm.Contents

/-! Demand paging is transparent to the processes.

From a state in which every page is still in its executable, every byte a
process reads is the one it last wrote there, or the initial byte of the page if
it has written none, whatever faults, evictions and exits happened in between.
A stack page starts with whatever its first frame held. The page at address 0 is
the exception: its frame looks free and is handed out again.
-/

set_option autoImplicit false

namespace Pintos.Vm
open Semantics

variable {s m final : State} {move : Move} {event : Event}

/-- The value the event stores at the address of the process. -/
def Event.written (t addr : Nat) : Event → Option UInt8
  | .write u a value => if u = t ∧ a = addr then some value else none
  | _ => none

def lastWrite (t addr : Nat) (events : List Event) : Option UInt8 :=
  events.reverse.findSome? (Event.written t addr)

theorem lastWrite_concat (t addr : Nat) (past : List Event) (event : Event) :
    lastWrite t addr (past ++ [event]) = (event.written t addr).or (lastWrite t addr past) := by
  unfold lastWrite
  rw [List.reverse_append, List.reverse_singleton, List.singleton_append, List.findSome?_cons]
  cases event.written t addr <;> rfl

/-- The initial byte of the page at an address: that of its segment, or for a
page that grew later, the one right after the fault that created it. -/
inductive Origin (s : State) (events : List Event) (t addr : Nat) : UInt8 → Prop where
  | segment {p : Nat} : s.Owns t p → (s.pages p).upage = pgRoundDown addr →
      Origin s events t addr (s.segmentByte (s.pages p) (pgOfs addr))
  | grown {before after : List Event} {event : Event} {middle made : State} {p : Nat} :
      events = before ++ event :: after → run step s before = some middle → step middle event = some made →
      middle.hashFind t (pgRoundDown addr) = none → made.Owns t p → (made.pages p).upage = pgRoundDown addr →
      Origin s events t addr (made.pageByte p (pgOfs addr))

variable {t addr : Nat} {here : State} {value : UInt8}

theorem Origin.later {events : List Event} {byte : UInt8} (origin : Origin s events t addr byte) (event : Event) :
    Origin s (events ++ [event]) t addr byte := by
  cases origin with
  | segment owned upage => exact .segment owned upage
  | grown split reached taken absent owned upage =>
    subst split
    exact .grown (List.append_assoc _ _ _) reached taken absent owned upage

/-- What the processes see after the events is a flat memory of their own. -/
def Transparent (s : State) (events : List Event) (final : State) : Prop :=
  ∀ t addr value, final.readByte t addr = some value →
    ∃ byte, Origin s events t addr byte ∧ value = (lastWrite t addr events).getD byte

/-- Processes with well-formed tables whose pages are all still in their
executables, with nothing in a frame. -/
structure Ready (s : State) : Prop where
  frames : Frames s
  free : ∀ i < totalPages, s.frameTable i = { kpage := (s.frameTable i).kpage }
  tables : Tables s
  filesys : ∀ t p, s.Owns t p → (s.pages p).location = .inFilesys
  whole : ∀ t p, s.Owns t p → (s.pages p).pageReadBytes + (s.pages p).pageZeroBytes = pgSize
  unmapped : ∀ t va, (s.threads t).phase = .running → (s.pte (s.threads t).pagedir va).present = false

/-- No process is started, and no page at address 0 is brought in. -/
def Event.Paging (s : State) (event : Event) : Prop := ¬event.Loads ∧ ¬event.MapsNull s

instance : (event : Event) → Decidable event.Loads
  | .load .. => inferInstanceAs (Decidable True)
  | .enter .. | .fault .. | .read .. | .write .. | .exit .. => inferInstanceAs (Decidable False)

instance (s : State) (event : Event) : Decidable (event.Paging s) := inferInstanceAs (Decidable (¬_ ∧ ¬_))

structure Intact (s : State) : Prop where
  sound : Sound s
  backed : Backed s
  whole : Whole s

theorem Ready.intact (ready : Ready s) : Intact s := by
  have outside : ∀ {t p location}, s.Owns t p → (s.pages p).location = location → location = .inFilesys :=
    fun owned located => located.symm.trans (ready.filesys _ _ owned)
  have unused : ∀ i < totalPages, (s.frameTable i).pagedir = 0 := fun i bound => by rw [ready.free i bound]
  refine ⟨⟨ready.frames, ready.tables, ?_, ?_⟩, ?_, fun t p owned _ => ready.whole t p owned⟩
  · refine ⟨fun i bound given => absurd (unused i bound) given, fun i bound _ => by rw [ready.free i bound], ?_, ?_⟩
    · intro t va running present
      rw [ready.unmapped t va running] at present
      cases present
    · intro t p _ owned located
      cases outside owned located
  · refine ⟨fun owned located => ?_, fun has => ?_, fun has => ?_⟩
    · cases outside owned located
    · cases outside has.owned has.located
    · cases outside has.owned has.located
  · refine ⟨fun owned located => ?_, fun i bound given => absurd (unused i bound) given⟩
    cases outside owned located

/-! ## Steps that are not writes -/

/-- What a step has left of the pages that processes had before it. -/
structure Carried (s here : State) : Prop where
  intact : Intact here
  older : ∀ t, (here.threads t).phase = .running → Older s here t
  unmoved : ∀ t p, (here.threads t).phase = .running → s.Owns t p → Unmoved s here t p

theorem Carried.absent (carried : Carried s here) {upage : Nat} (running : (here.threads t).phase = .running)
    (missing : here.hashFind t upage = none) : s.hashFind t upage = none := by
  refine hashFind_of_none fun p owned => ?_
  have kept := carried.unmoved t p running owned
  rw [← kept.upage]
  exact hashFind_none missing kept.owned

theorem Carried.act (carried : Carried s here) (fits : move.Fits here) (elsewhere : ¬move.AtNull here)
    (old : ¬move.Fresh here) (quiet : ∀ u q bytes, move ≠ .store u q bytes) : Carried s (here.act move) := by
  obtain ⟨sound, backed, whole⟩ := carried.intact
  refine ⟨⟨sound.act fits, backed.act sound fits elsewhere, whole.act sound.tables fits⟩, fun t running => ?_,
    fun t p running owned => ?_⟩
  · have last := older_of_act sound.tables fits old running
    have earlier := carried.older t last.running
    refine ⟨earlier.running, fun q owned => ?_⟩
    rcases last.page q owned with ⟨kept, upage⟩ | none
    · rw [upage]
      exact earlier.page q kept
    · exact Or.inr (carried.absent last.running none)
  · have before := (older_of_act sound.tables fits old running).running
    have kept := carried.unmoved t p before owned
    exact kept.trans (.act sound backed whole fits quiet before kept.owned)

theorem Intact.carried (intact : Intact s) : Carried s s := by
  refine ⟨intact, fun t running => ⟨running, fun q owned => Or.inl ⟨owned, rfl⟩⟩, fun t p running owned => ?_⟩
  exact ⟨owned, rfl, fun _ _ => rfl⟩

theorem Intact.carried_step (intact : Intact s) (paging : event.Paging s) (taken : step s event = some final)
    (quiet : ∀ t addr value, event ≠ .write t addr value) : Carried s final := by
  have clear : event.ClearOfStack := by
    cases event with
    | load => exact absurd trivial paging.1
    | _ => trivial
  have nothing : ¬event.Stores s := by
    cases event with
    | load => exact absurd trivial paging.1
    | write t addr value => exact absurd rfl (quiet t addr value)
    | fault t addr esp user write env =>
      simp only [step] at taken
      split at taken <;> rename_i enabled
      · exact Bool.eq_false_iff.mp (intact.backed.null_unmapped intact.sound enabled.1)
      · cases taken
    | _ => exact id
  refine (step_path intact.sound clear taken).keeps (Carried s) (fun here next before allowed => ?_) intact.carried
  refine before.act allowed.fits (fun null => paging.2 (allowed.null null)) (fun fresh => paging.1 (allowed.fresh fresh)) ?_
  rintro u q bytes rfl
  exact nothing (allowed.store u q bytes rfl)

/-! ## Writes -/

theorem write_step (taken : step s (.write t addr value) = some final) :
    ((s.threads t).phase = .running ∧ s.accessible t addr true = true) ∧
      final = (s.touch t addr).setRam (s.translate t addr).page
        (Function.update (s.ram (s.translate t addr).page) (pgOfs addr) value) := by
  simp only [step] at taken
  split at taken <;> rename_i enabled
  · cases taken
    exact ⟨enabled, rfl⟩
  · cases taken

theorem Intact.write (intact : Intact s) (taken : step s (.write t addr value) = some final) :
    Intact final := by
  have clear : Event.ClearOfStack (.write t addr value) := trivial
  refine (step_path intact.sound clear taken).keeps Intact (fun here next before allowed => ?_) intact
  exact ⟨before.sound.act allowed.fits, before.backed.act before.sound allowed.fits allowed.null,
    before.whole.act before.sound.tables allowed.fits⟩

theorem Intact.write_byte (intact : Intact s) (taken : step s (.write t addr value) = some final) {u p other : Nat}
    (running : (s.threads u).phase = .running) (owned : s.Owns u p) (upage : (s.pages p).upage = pgRoundDown other) :
    final.pageByte p (pgOfs other) = if t = u ∧ addr = other then value else s.pageByte p (pgOfs other) := by
  obtain ⟨⟨writing, accessible⟩, equation⟩ := write_step taken
  obtain ⟨q, ownedQ, upageQ, locatedQ, frame⟩ := intact.sound.accessed writing accessible
  rw [frame] at equation
  have pages : final.pages = s.pages := by rw [equation]; rfl
  have stored : ∀ kpage o, final.ram kpage o =
      if kpage = (s.pages q).kpage ∧ o = pgOfs addr then value else s.ram kpage o := by
    intro kpage o
    rw [equation, State.setRam_ram]
    by_cases here : kpage = (s.pages q).kpage
    · subst here
      by_cases offset : o = pgOfs addr <;> simp [offset]
    · simp [here, State.touch]
  by_cases page : p = q
  · subst page
    have owner := intact.sound.tables.owner owned ownedQ
    subst owner
    have offsets : pgOfs other = pgOfs addr ↔ addr = other := by
      rw [upageQ] at upage
      constructor
      · intro offset
        rw [← pgRoundDown_add_ofs addr, ← pgRoundDown_add_ofs other, upage, offset]
      · exact fun equal => by rw [equal]
    unfold State.pageByte
    rw [pages, locatedQ]
    simp only [stored, true_and, offsets]
  · have elsewhere : ¬(t = u ∧ addr = other) := by
      rintro ⟨rfl, rfl⟩
      exact page (intact.sound.tables.upage_inj owned ownedQ (upage.trans upageQ.symm))
    have stays : final.Owns u p := by
      rw [equation]
      exact owned
    have unmoved : Unmoved s final u p := by
      refine .of_page stays (by rw [pages]) (by rw [equation]; rfl) (fun located => ?_) fun _ _ _ => by rw [equation]; rfl
      funext o
      rw [stored, if_neg]
      rintro ⟨same, _⟩
      exact page (intact.backed.page_of_kpage intact.sound running owned located writing ownedQ locatedQ same)
    rw [if_neg elsewhere]
    exact unmoved.bytes _ (pgOfs_lt other)

/-! ## Runs -/

/-- Every byte of every running process has its origin in the events so far. -/
structure Explained (s : State) (past : List Event) (here : State) : Prop where
  reached : run step s past = some here
  intact : Intact here
  unwritten : ∀ t addr, (here.threads t).phase = .running → here.hashFind t (pgRoundDown addr) = none →
    lastWrite t addr past = none
  bytes : ∀ t p addr, (here.threads t).phase = .running → here.Owns t p → (here.pages p).upage = pgRoundDown addr →
    ∃ byte, Origin s past t addr byte ∧ here.pageByte p (pgOfs addr) = (lastWrite t addr past).getD byte

theorem Ready.explained (ready : Ready s) : Explained s [] s := by
  refine ⟨rfl, ready.intact, fun _ _ _ _ => rfl, fun t p addr _ owned upage => ⟨_, .segment owned upage, ?_⟩⟩
  unfold State.pageByte
  rw [ready.filesys t p owned]
  rfl

theorem Explained.write {past : List Event} {next : State} (explained : Explained s past here)
    (taken : step here (.write t addr value) = some next) :
    Explained s (past ++ [.write t addr value]) next := by
  obtain ⟨⟨writing, accessible⟩, equation⟩ := write_step taken
  have threads : next.threads = here.threads := by rw [equation]; rfl
  have pages : next.pages = here.pages := by rw [equation]; rfl
  have written : ∀ u other, lastWrite u other (past ++ [.write t addr value]) =
      if t = u ∧ addr = other then some value else lastWrite u other past := by
    intro u other
    rw [lastWrite_concat]
    simp only [Event.written]
    split <;> rfl
  refine ⟨(run_append step).mpr ⟨here, explained.reached, (run_cons_some step).mpr ⟨next, taken, rfl⟩⟩,
    explained.intact.write taken, fun u other running absent => ?_, fun u p other running owned upage => ?_⟩
  · rw [threads] at running
    unfold State.hashFind at absent
    rw [threads, pages] at absent
    rw [written, if_neg]
    · exact explained.unwritten u other running absent
    · rintro ⟨rfl, rfl⟩
      obtain ⟨p, owned, upage, _⟩ := explained.intact.sound.accessed writing accessible
      exact hashFind_none absent owned upage
  · rw [threads] at running
    rw [pages] at upage
    unfold State.Owns at owned
    rw [threads] at owned
    obtain ⟨byte, origin, same⟩ := explained.bytes u p other running owned upage
    refine ⟨byte, origin.later _, ?_⟩
    rw [written, explained.intact.write_byte taken running owned upage]
    split
    · rfl
    · exact same

theorem Explained.carried {past : List Event} {next : State} (explained : Explained s past here)
    (carried : Carried here next) (taken : step here event = some next)
    (quiet : ∀ t addr value, event ≠ .write t addr value) : Explained s (past ++ [event]) next := by
  have written : ∀ u other, lastWrite u other (past ++ [event]) = lastWrite u other past := by
    intro u other
    rw [lastWrite_concat]
    cases event with
    | write t addr value => exact absurd rfl (quiet t addr value)
    | _ => rfl
  refine ⟨(run_append step).mpr ⟨here, explained.reached, (run_cons_some step).mpr ⟨next, taken, rfl⟩⟩,
    carried.intact, fun u other running absent => ?_, fun u p other running owned upage => ?_⟩
  · rw [written]
    exact explained.unwritten u other (carried.older u running).running (carried.absent running absent)
  have older := carried.older u running
  rw [written]
  rcases older.page p owned with ⟨before, same⟩ | absent
  · obtain ⟨byte, origin, shown⟩ := explained.bytes u p other older.running before (same.symm.trans upage)
    refine ⟨byte, origin.later _, ?_⟩
    rw [← shown]
    exact (carried.unmoved u p running before).bytes _ (pgOfs_lt other)
  · -- The page is new: its bytes are the initial ones, and nothing was written there before.
    rw [upage] at absent
    rw [explained.unwritten u other older.running absent]
    exact ⟨_, .grown rfl explained.reached taken absent owned upage, rfl⟩

theorem demand_paging_transparent {events : List Event} (ready : Ready s) (along : Along step Event.Paging s events)
    (reached : run step s events = some final) : Transparent s events final := by
  have explained : Explained s events final := by
    refine history_of_run step (Explained s) (fun past here event next before paging taken => ?_) ready.explained along reached
    by_cases writes : ∃ t addr value, event = .write t addr value
    · obtain ⟨t, addr, value, rfl⟩ := writes
      exact before.write taken
    · have quiet : ∀ t addr value, event ≠ .write t addr value := fun t addr value same => writes ⟨t, addr, value, same⟩
      exact before.carried (before.intact.carried_step paging taken quiet) taken quiet
  intro t addr value reads
  unfold State.readByte at reads
  split at reads <;> rename_i enabled
  · obtain ⟨p, owned, upage, located, frame⟩ := explained.intact.sound.accessed enabled.1 enabled.2
    obtain ⟨byte, origin, shown⟩ := explained.bytes t p addr enabled.1 owned upage
    refine ⟨byte, origin, ?_⟩
    unfold State.pageByte at shown
    rw [located] at shown
    cases reads
    rw [frame]
    exact shown
  · cases reads

def readyState : State :=
  { bootState 4096 with
    pages := fun p =>
      { upage := 0x08048000, file := 1, writable := true, pageReadBytes := pgSize, location := .inFilesys,
        swapLocation := noSlot, pagedir := p + 4 }
    nextPage := 3
    directories := [5, 6]
    threads := fun t => if t = 1 ∨ t = 2 then { phase := .running, spt := [t], pagedir := t + 4 } else {} }

theorem readyState_ready : Ready readyState := by
  have thread : ∀ {t}, (readyState.threads t).live → t = 1 ∨ t = 2 := by
    intro t live
    by_contra other
    simp [readyState, other, Thread.live] at live
  have given : ∀ {t}, t = 1 ∨ t = 2 → readyState.threads t = { phase := .running, spt := [t], pagedir := t + 4 } :=
    fun is => if_pos is
  have owned : ∀ {t p}, readyState.Owns t p → p = t ∧ (t = 1 ∨ t = 2) := by
    intro t p owns
    unfold State.Owns at owns
    by_cases is : t = 1 ∨ t = 2
    · rw [given is] at owns
      exact ⟨List.mem_singleton.mp owns, is⟩
    · simp [readyState, is] at owns
  have directory : ∀ {t}, (readyState.threads t).live → (readyState.threads t).pagedir = t + 4 :=
    fun live => by rw [given (thread live)]
  have live : ∀ {t p}, readyState.Owns t p → (readyState.threads t).live :=
    fun owns => Or.inl (by rw [given (owned owns).2])
  refine ⟨⟨(bootState_boot 4096).kpage_pos, (bootState_boot 4096).kpage_inj, by decide⟩, fun _ _ => rfl, ?_,
    fun _ _ _ => rfl, fun _ _ _ => rfl, fun _ _ _ => rfl⟩
  constructor
  case next_pos => decide
  case allocated =>
    intro t p owns
    obtain ⟨rfl, rfl | rfl⟩ := owned owns <;> decide
  case owner => exact fun first second => (owned first).1.symm.trans (owned second).1
  case live => exact live
  case directory =>
    intro t p owns
    rw [directory (live owns)]
    omega
  case running =>
    intro t running
    rw [directory (Or.inl running)]
    omega
  case registered =>
    intro t live _
    rw [directory live]
    rcases thread live with rfl | rfl <;> decide
  case exclusive =>
    intro t u liveT liveU same _
    rw [directory liveT, directory liveU] at same
    omega
  case pagedir =>
    intro t p owns
    rw [directory (live owns), (owned owns).1]
    rfl
  case upage_inj => exact fun first second _ => (owned first).1.trans (owned second).1.symm
  case aligned => exact fun _ => (by decide : pgOfs 0x08048000 = 0)
  case user => exact fun _ => (by decide : 0x08048000 < physBase)

/-- Both processes bring in and change the page, one grows its stack and the other exits. -/
def sharedRun : List Event :=
  [.fault 1 0x08048000 (physBase - 16) true true {}, .write 1 0x08048010 9,
    .fault 2 0x08048000 (physBase - 16) true false {}, .write 2 0x08048010 5,
    .fault 1 (physBase - 4) (physBase - 16) true true {}, .exit 2, .read 1 0x08048010]

theorem demand_paging_transparent_sharedRun :
    ∃ final, run step readyState sharedRun = some final ∧ Transparent readyState sharedRun final := by
  have enabled : (run step readyState sharedRun).isSome = true := by decide +kernel
  obtain ⟨final, reached⟩ := Option.isSome_iff_exists.mp enabled
  exact ⟨final, reached, demand_paging_transparent readyState_ready (by decide +kernel) reached⟩

/-- A stack that grows into page 0, and a page-in afterwards. -/
def nullRun : List Event := [.fault 1 4 36 true true {}, .write 1 4 9, .fault 1 0x08048000 36 true false {}]

/-- What was written to page 0 is lost to the next page-in. -/
theorem null_page_overwritten :
    Ready readyState ∧ ∃ final, run step readyState nullRun = some final ∧ ¬Transparent readyState nullRun final := by
  have overwritten : (run step readyState nullRun).any (fun final => final.readByte 1 4 = some 7) = true := by
    decide +kernel
  obtain ⟨final, reached, reads⟩ := (Option.any_eq_true _ _).mp overwritten
  refine ⟨readyState_ready, final, reached, fun transparent => ?_⟩
  obtain ⟨byte, _, same⟩ := transparent 1 4 7 (of_decide_eq_true reads)
  have last : lastWrite 1 4 nullRun = some 9 := by decide
  rw [last, Option.getD_some] at same
  exact absurd same (by decide)

end Pintos.Vm
