import Pintos.Syscall.Handlers

/-! The user bytes a routine touches.

`Accesses` says that every byte touched is at a user address, and what holds
when the routine returns. Each loop over user memory has an exact rule: it
stays below `PHYS_BASE` when the bytes it wants end there, or when it is
stopped by a byte below `PHYS_BASE` before it gets there.
-/

set_option autoImplicit false

namespace Pintos.Syscall
open Semantics

def UserAddress (address : Nat) : Prop := 0 < address ∧ address < physBase

instance (address : Nat) : Decidable (UserAddress address) := inferInstanceAs (Decidable (_ ∧ _))

def Call.Lawful (call : Call) : Prop := ∀ address, call.touches = some address → UserAddress address

theorem validPointer_iff (pointer : Nat) : validPointer pointer = true ↔ UserAddress pointer := by
  simp only [validPointer, isKernelVaddr, UserAddress, Bool.not_eq_true', Bool.or_eq_false_iff, beq_eq_false_iff_ne,
    decide_eq_false_iff_not]
  omega

theorem ptrAdd_one {address : Nat} (below : address < physBase) : ptrAdd address 1 = address + 1 := by
  simp only [ptrAdd, physBase] at *
  omega

section Rules
variable {K A B : Type}

def Accesses (environment : Environment K) (body : Routines A) (world : World K) (post : A → World K → Prop) : Prop :=
  Procedure.Keeps (I := calls) (checked environment) Call.Lawful body world post

variable {environment : Environment K} {world : World K}

@[simp] theorem accesses_pure (value : A) (post : A → World K → Prop) :
    Accesses environment (pure value) world post ↔ post value world := Iff.rfl

@[simp] theorem accesses_bind (first : Routines A) (next : A → Routines B) (post : B → World K → Prop) :
    Accesses environment (first >>= next) world post ↔
      Accesses environment first world fun value after => Accesses environment (next value) after post :=
  Procedure.keeps_bind first next world post

@[simp] theorem accesses_ite (condition : Prop) [Decidable condition] (first second : Routines A)
    (post : A → World K → Prop) :
    Accesses environment (if condition then first else second) world post ↔
      (condition → Accesses environment first world post) ∧ (¬condition → Accesses environment second world post) := by
  by_cases met : condition <;> simp [met]

@[simp] theorem accesses_load (address : Nat) (post : UInt8 → World K → Prop) :
    Accesses environment (load address) world post ↔
      UserAddress address ∧ ∀ byte, world.memory.read address = some byte → post byte world := by
  rw [Accesses, load, Procedure.keeps_perform]
  refine and_congr (by simp [Call.Lawful, Call.touches]) ?_
  simp only [checked, answer]
  cases world.memory.read address with
  | none => simp
  | some byte => simp

@[simp] theorem accesses_store (address : Nat) (byte : UInt8) (post : Unit → World K → Prop) :
    Accesses environment (store address byte) world post ↔
      UserAddress address ∧ (world.memory.writable address = true →
        post () { world with memory := world.memory.write address byte }) := by
  rw [Accesses, store, Procedure.keeps_perform]
  refine and_congr (by simp [Call.Lawful, Call.touches]) ?_
  simp only [checked, answer]
  cases world.memory.writable address with
  | false => simp
  | true => exact ⟨fun stored _ => stored () _ rfl, fun stored _ _ same => by cases same; exact stored rfl⟩

@[simp] theorem accesses_checkPointer (pointer : Nat) (post : Unit → World K → Prop) :
    Accesses environment (checkPointer pointer) world post ↔ (UserAddress pointer → post () world) := by
  rw [Accesses, checkPointer, Procedure.keeps_perform, ← validPointer_iff]
  simp only [checked, answer, Call.Lawful, Call.touches]
  cases validPointer pointer with
  | false => simp
  | true => exact ⟨fun passed _ => passed.2 () _ rfl, fun passed => ⟨nofun, fun _ _ same => by cases same; exact passed rfl⟩⟩

@[simp] theorem accesses_routine (which : Routine) (post : which.Reply → World K → Prop) :
    Accesses (A := no_index which.Reply) environment (routine which) world post ↔
      ∀ reply kernel, environment which world.kernel = some (reply, kernel) → post reply ⟨world.memory, kernel⟩ := by
  rw [Accesses, routine, Procedure.keeps_perform]
  simp only [checked, answer, Call.Lawful, Call.touches]
  cases environment which world.kernel with
  | none => simp
  | some replied =>
    obtain ⟨reply, kernel⟩ := replied
    simp

@[simp] theorem accesses_systemExitHelper (status : Int) (post : A → World K → Prop) :
    Accesses environment (systemExitHelper status) world post :=
  ⟨nofun, nofun⟩

@[simp] theorem accesses_hang (post : A → World K → Prop) : Accesses environment hang world post :=
  ⟨nofun, nofun⟩

@[simp] theorem accesses_assert (condition : Bool) (post : Unit → World K → Prop) :
    Accesses environment (assert condition) world post ↔ (condition = true → post () world) := by
  cases condition with
  | true => simp [assert]
  | false => exact ⟨fun _ => nofun, fun _ => ⟨nofun, nofun⟩⟩

end Rules

/-- Reading or writing the bytes from an address on stays below `PHYS_BASE`:
they end there, or one of them below it stops the access. -/
def Within (proceeds : Nat → Bool) (address count : Nat) : Prop :=
  address + count ≤ physBase ∨ ∃ index < count, address + index < physBase ∧ proceeds (address + index) = false

section Ranges
variable {proceeds : Nat → Bool} {address count : Nat}

theorem within_zero (below : address ≤ physBase) : Within proceeds address 0 := .inl below

theorem within_succ (below : address < physBase) :
    Within proceeds address (count + 1) ↔ proceeds address = false ∨ Within proceeds (address + 1) count := by
  constructor
  · rintro (ends | ⟨index, inside, low, stops⟩)
    · exact .inr (.inl (by omega))
    · cases index with
      | zero => exact .inl stops
      | succ index => exact .inr (.inr ⟨index, by omega, by omega, by rwa [Nat.add_assoc, Nat.add_comm 1]⟩)
  · rintro (stops | ends | ⟨index, inside, low, stops⟩)
    · exact .inr ⟨0, by omega, below, stops⟩
    · exact .inl (by omega)
    · exact .inr ⟨index + 1, by omega, by omega, by rwa [Nat.add_comm index, ← Nat.add_assoc]⟩

theorem Within.low (within : Within proceeds address (count + 1)) : address < physBase := by
  rcases within with ends | ⟨index, _, low, _⟩
  · omega
  · omega

theorem Within.fewer {fewer : Nat} (within : Within proceeds address count) (less : fewer ≤ count) :
    Within proceeds address fewer := by
  rcases within with ends | ⟨index, inside, low, stops⟩
  · exact .inl (by omega)
  · rcases Nat.lt_or_ge index fewer with early | late
    · exact .inr ⟨index, early, low, stops⟩
    · exact .inl (by omega)

theorem Within.fits (within : Within proceeds address count)
    (through : ∀ index < count, proceeds (address + index) = true) : address + count ≤ physBase := by
  rcases within with ends | ⟨index, inside, _, stops⟩
  · exact ends
  · exact absurd (through index inside) (by simp [stops])

theorem Within.rest {first : Nat} (within : Within proceeds address (first + count))
    (through : ∀ index < first, proceeds (address + index) = true) : Within proceeds (address + first) count := by
  rcases within with ends | ⟨index, inside, low, stops⟩
  · exact .inl (by omega)
  · rcases Nat.lt_or_ge index first with early | late
    · exact absurd (through index early) (by simp [stops])
    · refine .inr ⟨index - first, by omega, by omega, ?_⟩
      rwa [show address + first + (index - first) = address + index by omega]

theorem Within.join {first : Nat} (start : Within proceeds address first)
    (later : (∀ index < first, proceeds (address + index) = true) → Within proceeds (address + first) count) :
    Within proceeds address (first + count) := by
  by_cases through : ∀ index < first, proceeds (address + index) = true
  · rcases later through with ends | ⟨index, inside, low, stops⟩
    · exact .inl (by omega)
    · exact .inr ⟨first + index, by omega, by omega, by rwa [← Nat.add_assoc]⟩
  · push Not at through
    obtain ⟨index, inside, stops⟩ := through
    rcases start with ends | ⟨other, between, low, other_stops⟩
    · exact .inr ⟨index, by omega, by omega, by simpa using stops⟩
    · exact .inr ⟨other, by omega, low, other_stops⟩

end Ranges

namespace UserMemory

def bytes (memory : UserMemory) : Nat → Nat → Option (List UInt8)
  | 0, _ => some []
  | count + 1, address => (memory.read address).bind fun byte =>
    (memory.bytes count (ptrAdd address 1)).map fun rest => byte :: rest

def writeAll (memory : UserMemory) : List UInt8 → Nat → UserMemory
  | [], _ => memory
  | byte :: rest, address => (memory.write address byte).writeAll rest (ptrAdd address 1)

@[simp] theorem writable_writeAll (memory : UserMemory) (bytes : List UInt8) (address : Nat) :
    (memory.writeAll bytes address).writable = memory.writable := by
  induction bytes generalizing memory address with
  | nil => rfl
  | cons byte rest ih => exact ih _ _

variable {memory : UserMemory} {count address : Nat}

theorem readable_of_bytes {bytes : List UInt8} (fetched : memory.bytes count address = some bytes) :
    ∀ index < count, address + index < physBase → memory.readable (address + index) = true := by
  induction count generalizing address bytes with
  | zero => exact fun index none => absurd none (Nat.not_lt_zero index)
  | succ count ih =>
    simp only [UserMemory.bytes, Option.bind_eq_some_iff, Option.map_eq_some_iff] at fetched
    obtain ⟨byte, first, rest, later, _⟩ := fetched
    intro index inside low
    cases index with
    | zero => simp [readable, first]
    | succ index =>
      rw [ptrAdd_one (by omega)] at later
      rw [Nat.add_comm index, ← Nat.add_assoc]
      exact ih later index (by omega) (by omega)

theorem through_of_bytes {bytes : List UInt8} (within : Within memory.readable address count)
    (fetched : memory.bytes count address = some bytes) :
    ∀ index < count, memory.readable (address + index) = true := by
  intro index inside
  rcases within with ends | ⟨other, between, low, stops⟩
  · exact readable_of_bytes fetched index inside (by omega)
  · exact absurd (readable_of_bytes fetched other between low) (by simp [stops])

theorem bytes_of_readable (below : address + count ≤ physBase)
    (through : ∀ index < count, memory.readable (address + index) = true) :
    ∃ bytes, memory.bytes count address = some bytes := by
  induction count generalizing address with
  | zero => exact ⟨[], rfl⟩
  | succ count ih =>
    have first : memory.readable address = true := through 0 (Nat.succ_pos count)
    obtain ⟨byte, fetched⟩ := Option.isSome_iff_exists.mp first
    have others : ∀ index < count, memory.readable (address + 1 + index) = true := fun index inside => by
      rw [Nat.add_assoc, Nat.add_comm 1]
      exact through (index + 1) (by omega)
    obtain ⟨rest, later⟩ := ih (by omega) others
    exact ⟨byte :: rest, by simp [UserMemory.bytes, fetched, ptrAdd_one (by omega : address < physBase), later]⟩

def word (memory : UserMemory) (address : Nat) : Option Nat := (memory.bytes 4 address).map littleEndian

def continues (memory : UserMemory) (address : Nat) : Bool :=
  match memory.read address with
  | none => false
  | some byte => byte ≠ 0

/-- The string at an address ends, or runs into an unreadable byte, below `PHYS_BASE`. -/
def Terminated (memory : UserMemory) (string : Nat) : Prop :=
  ∃ index, string + index < physBase ∧ memory.continues (string + index) = false

/-- An argument word: unless its address is refused, its four bytes stay below
`PHYS_BASE`, and the condition holds of the word when all four can be read. -/
def Argument (memory : UserMemory) (address : Nat) (condition : Nat → Prop) : Prop :=
  UserAddress address →
    Within memory.readable address 4 ∧ ∀ word, memory.word address = some word → condition word

theorem Argument.mono {condition weaker : Nat → Prop} (implied : ∀ word, condition word → weaker word)
    (argument : memory.Argument address condition) :
    memory.Argument address weaker :=
  fun user => ⟨(argument user).1, fun word fetched => implied word ((argument user).2 word fetched)⟩

theorem Terminated.within {string : Nat} (terminated : memory.Terminated string) :
    Within memory.continues string count := by
  obtain ⟨index, low, stops⟩ := terminated
  rcases Nat.lt_or_ge index count with early | late
  · exact .inr ⟨index, early, low, stops⟩
  · exact .inl (by omega)

end UserMemory

section Loops
variable {K : Type} {environment : Environment K} {world : World K}

variable {address string : Nat} {post : Nat → World K → Prop}

theorem accesses_copyIn (count : Nat) (start : 0 < address) (below : address ≤ physBase)
    (post : List UInt8 → World K → Prop) :
    Accesses environment (copyIn count address) world post ↔
      Within world.memory.readable address count ∧
        ∀ bytes, world.memory.bytes count address = some bytes → post bytes world := by
  induction count generalizing address post with
  | zero => simp [copyIn, UserMemory.bytes, within_zero below]
  | succ count ih =>
    simp only [copyIn, accesses_bind, accesses_load]
    rcases Nat.lt_or_eq_of_le below with low | rfl
    · have next := fun byte => ih (Nat.succ_pos address) low fun rest after => post (byte :: rest) after
      simp only [ptrAdd_one low, accesses_pure, within_succ low, UserMemory.bytes, UserAddress, start, low,
        and_self, true_and, UserMemory.readable]
      cases world.memory.read address with
      | none => simp
      | some byte =>
        simp only [Option.some.injEq, forall_eq', Option.isSome_some, Bool.true_eq_false, false_or, Option.bind_some,
          Option.map_eq_some_iff, forall_exists_index, and_imp, forall_apply_eq_imp_iff₂]
        exact next byte
    · constructor
      · rintro ⟨⟨_, low⟩, _⟩
        omega
      · rintro ⟨within, _⟩
        exact absurd within.low (Nat.lt_irrefl _)

theorem accesses_copyOut (bytes : List UInt8) (start : 0 < address) (below : address ≤ physBase)
    (post : Unit → World K → Prop) :
    Accesses environment (copyOut bytes address) world post ↔
      Within world.memory.writable address bytes.length ∧
        ((∀ index < bytes.length, world.memory.writable (address + index) = true) →
          post () { world with memory := world.memory.writeAll bytes address }) := by
  induction bytes generalizing address world with
  | nil => simp [copyOut, UserMemory.writeAll, within_zero below]
  | cons byte rest ih =>
    simp only [copyOut, accesses_bind, accesses_store, List.length_cons]
    rcases Nat.lt_or_eq_of_le below with low | rfl
    · have next : 0 < address + 1 := Nat.succ_pos address
      simp only [ptrAdd_one low, ih next low, within_succ low, UserAddress, start, low, and_self,
        true_and, UserMemory.write, UserMemory.writeAll]
      cases first : world.memory.writable address with
      | false =>
        simp only [Bool.false_eq_true, false_imp_iff, true_or, true_and, true_iff]
        intro all
        exact absurd (all 0 (Nat.succ_pos _)) (by simp [first])
      | true =>
        simp only [Bool.true_eq_false, false_or, forall_const]
        refine and_congr_right fun _ => ⟨fun stored all => stored fun index inside => ?_,
          fun stored all => stored fun index inside => ?_⟩
        · rw [Nat.add_assoc, Nat.add_comm 1]
          exact all (index + 1) (by omega)
        · cases index with
          | zero => exact first
          | succ index =>
            rw [Nat.add_comm index, ← Nat.add_assoc]
            exact all index (by omega)
    · constructor
      · rintro ⟨⟨_, low⟩, _⟩
        omega
      · rintro ⟨within, _⟩
        exact absurd within.low (Nat.lt_irrefl _)

theorem accesses_loadWord (user : UserAddress address) (post : Nat → World K → Prop) :
    Accesses environment (loadWord address) world post ↔
      Within world.memory.readable address 4 ∧
        ∀ word, world.memory.word address = some word → post word world := by
  simp only [loadWord, accesses_bind, accesses_copyIn 4 user.1 (Nat.le_of_lt user.2), accesses_pure, UserMemory.word,
    Option.map_eq_some_iff, forall_exists_index, and_imp, forall_apply_eq_imp_iff₂]

theorem accesses_fetch {A : Type} (address : Nat) (next : Nat → Routines A) (post : A → World K → Prop) :
    Accesses environment (argument address >>= next) world post ↔
      world.memory.Argument address fun word => Accesses environment (next word) world post := by
  simp only [argument, accesses_bind, accesses_checkPointer, UserMemory.Argument]
  exact imp_congr_right fun user => accesses_loadWord user _

theorem accesses_loaded {A : Type} (address : Nat) (next : UInt8 → Routines A) (post : A → World K → Prop) :
    Accesses environment (load address >>= next) world post ↔
      UserAddress address ∧
        ∀ byte, world.memory.read address = some byte → Accesses environment (next byte) world post := by
  rw [accesses_bind, accesses_load]

theorem accesses_checked {A : Type} (pointer : Nat) (next : Unit → Routines A) (post : A → World K → Prop) :
    Accesses environment (checkPointer pointer >>= next) world post ↔
      (UserAddress pointer → Accesses environment (next ()) world post) := by
  rw [accesses_bind, accesses_checkPointer]

theorem strlenLoop_terminated (bound : Nat) {length : Nat} (start : 0 < address)
    (terminated : world.memory.Terminated address)
    (ends : ∀ more, address + more < physBase → post (length + more) world) :
    Accesses environment (strlenLoop bound address length) world post := by
  induction bound generalizing address length with
  | zero => exact accesses_hang post
  | succ bound ih =>
    obtain ⟨index, inside, stops⟩ := terminated
    have low : address < physBase := by omega
    simp only [strlenLoop, accesses_bind, accesses_load, accesses_ite, accesses_pure, ptrAdd_one low]
    refine ⟨⟨start, low⟩, fun byte fetched => ⟨fun _ => ends 0 (by omega), fun more => ?_⟩⟩
    refine ih (Nat.succ_pos address) ?_ fun later inside => ?_
    · cases index with
      | zero => simp [UserMemory.continues, fetched, more] at stops
      | succ index => exact ⟨index, by omega, by rwa [Nat.add_assoc, Nat.add_comm 1]⟩
    · rw [Nat.add_assoc]
      exact ends (1 + later) (by omega)

/-- A string loop that touches user addresses only has met the end of its string. -/
theorem terminated_of_strlenLoop {bound length : Nat} (below : address ≤ physBase)
    (enough : physBase < address + bound) (within : Accesses environment (strlenLoop bound address length) world post) :
    world.memory.Terminated address := by
  induction bound generalizing address length with
  | zero => omega
  | succ bound ih =>
    simp only [strlenLoop, accesses_bind, accesses_load, accesses_ite, accesses_pure] at within
    obtain ⟨⟨_, low⟩, later⟩ := within
    cases stops : world.memory.continues address with
    | false => exact ⟨0, low, stops⟩
    | true =>
      obtain ⟨byte, fetched, more⟩ : ∃ byte, world.memory.read address = some byte ∧ byte ≠ 0 := by
        simp only [UserMemory.continues] at stops
        cases first : world.memory.read address with
        | none => simp [first] at stops
        | some byte => exact ⟨byte, rfl, by simpa [first] using stops⟩
      have next := (later byte fetched).2 more
      rw [ptrAdd_one low] at next
      obtain ⟨index, lower, ends⟩ := ih (by omega) (by omega) next
      exact ⟨index + 1, by omega, by rwa [Nat.add_comm index, ← Nat.add_assoc]⟩

theorem accesses_strlen (start : 0 < string) (terminated : world.memory.Terminated string)
    (ends : ∀ length, string + length < physBase → post length world) :
    Accesses environment (strlen string) world post :=
  strlenLoop_terminated addresses start terminated fun length inside => by simpa using ends length inside

theorem terminated_of_strlen (user : UserAddress string) (within : Accesses environment (strlen string) world post) :
    world.memory.Terminated string := by
  refine terminated_of_strlenLoop (Nat.le_of_lt user.2) ?_ within
  simp only [addresses, physBase]
  omega

/-- After `strlen` has found the end, the copy stays before it. -/
theorem accesses_strlcpy {source size : Nat} {post : List UInt8 → World K → Prop} (user : UserAddress source)
    (terminated : world.memory.Terminated source) (copied : ∀ bytes, post bytes world) :
    Accesses environment (strlcpy source size) world post := by
  simp only [strlcpy, accesses_bind, accesses_ite, accesses_pure]
  refine accesses_strlen user.1 terminated fun length inside => ⟨fun _ => ?_, fun _ => copied _⟩
  rw [accesses_copyIn _ user.1 (Nat.le_of_lt user.2)]
  exact ⟨.inl (by omega), fun bytes _ => copied bytes⟩

theorem accesses_strcmp {other : List UInt8} {post : Int → World K → Prop} (start : 0 < string)
    (within : Within world.memory.continues string (other.length + 1)) (compared : ∀ order, post order world) :
    Accesses environment (strcmp string other) world post := by
  have low := within.low
  induction other generalizing string with
  | nil =>
    simp only [strcmp, accesses_bind, accesses_load, accesses_pure]
    exact ⟨⟨start, low⟩, fun _ _ => compared _⟩
  | cons byte rest ih =>
    simp only [strcmp, accesses_bind, accesses_load, accesses_ite, accesses_pure, ptrAdd_one low]
    refine ⟨⟨start, low⟩, fun read fetched => ⟨fun equal => ?_, fun _ => compared _⟩⟩
    have later : Within world.memory.continues (string + 1) (rest.length + 1) := by
      rcases (within_succ low).mp within with stops | later
      · simp [UserMemory.continues, fetched, equal.1] at stops
      · exact later
    exact ih (Nat.succ_pos string) later later.low

def UserMemory.text (memory : UserMemory) : Nat → Nat → List UInt8
  | 0, _ => []
  | count + 1, address => (memory.read address).getD 0 :: memory.text count (address + 1)

theorem length_text (memory : UserMemory) (count address : Nat) : (memory.text count address).length = count := by
  induction count generalizing address with
  | zero => rfl
  | succ count ih => simp [UserMemory.text, ih]

/-- A comparison with the whole text below `PHYS_BASE` goes on past it. -/
theorem not_accesses_strcmp {count : Nat} {post : Int → World K → Prop} (ends : string + count = physBase)
    (text : ∀ index < count, world.memory.continues (string + index) = true) :
    ¬ Accesses environment (strcmp string (world.memory.text count string)) world post := by
  induction count generalizing string with
  | zero =>
    simp only [UserMemory.text, strcmp, accesses_bind, accesses_load, UserAddress]
    omega
  | succ count ih =>
    have low : string < physBase := by omega
    simp only [UserMemory.text, strcmp, accesses_bind, accesses_load, accesses_ite, ptrAdd_one low]
    rintro ⟨_, later⟩
    have first := text 0 (Nat.succ_pos count)
    simp only [UserMemory.continues, Nat.add_zero] at first
    cases fetched : world.memory.read string with
    | none => simp [fetched] at first
    | some byte =>
      rw [fetched] at first later
      refine ih (by omega) (fun index inside => ?_) ((later byte rfl).1 ⟨by simpa using first, rfl⟩)
      rw [Nat.add_assoc, Nat.add_comm 1]
      exact text (index + 1) (by omega)

end Loops

section Fetching
open Procedure Computation
variable {K : Type} {environment : Environment K} {world : World K}

theorem execute_load (address : Nat) : (load address).execute (checked environment) world =
    match world.memory.read address with
    | some byte => .returned byte world
    | none => .stopped (.faulted address) world := by
  rw [load, execute_perform]
  rfl

theorem execute_checkPointer (pointer : Nat) : (checkPointer pointer).execute (checked environment) world =
    if validPointer pointer then .returned () world else .stopped (.exited (-1)) world := by
  rw [checkPointer, execute_perform]
  cases valid : validPointer pointer <;> simp [checked, answer, valid]

theorem execute_copyIn (count address : Nat) :
    (∃ bytes, world.memory.bytes count address = some bytes ∧
      (copyIn count address).execute (checked environment) world = .returned bytes world) ∨
    (world.memory.bytes count address = none ∧
      ∃ fault, (copyIn count address).execute (checked environment) world = .stopped (.faulted fault) world) := by
  induction count generalizing address with
  | zero => exact .inl ⟨[], rfl, rfl⟩
  | succ count ih =>
    cases first : world.memory.read address with
    | none =>
      refine .inr ⟨by simp [UserMemory.bytes, first], address, ?_⟩
      rw [copyIn, execute_bind]
      exact bind_of_stopped (by simp [execute_load, first])
    | some byte =>
      have loaded : (load address).execute (checked environment) world = .returned byte world := by simp [execute_load, first]
      rcases ih (ptrAdd address 1) with ⟨rest, fetched, copied⟩ | ⟨missing, fault, faulted⟩
      · refine .inl ⟨byte :: rest, by simp [UserMemory.bytes, first, fetched], ?_⟩
        rw [copyIn, execute_bind, bind_of_returned loaded, execute_bind, bind_of_returned copied]
        rfl
      · refine .inr ⟨by simp [UserMemory.bytes, first, missing], fault, ?_⟩
        rw [copyIn, execute_bind, bind_of_returned loaded, execute_bind]
        exact bind_of_stopped faulted

theorem execute_argument (environment : Environment K) (world : World K) (address : Nat) :
    (validPointer address = false ∧
      (argument address).execute (checked environment) world = .stopped (.exited (-1)) world) ∨
    (validPointer address = true ∧ ∃ word, world.memory.word address = some word ∧
      (argument address).execute (checked environment) world = .returned word world) ∨
    (validPointer address = true ∧ world.memory.word address = none ∧
      ∃ fault, (argument address).execute (checked environment) world = .stopped (.faulted fault) world) := by
  rw [argument, execute_bind]
  cases valid : validPointer address with
  | false => exact .inl ⟨rfl, bind_of_stopped (by simp [execute_checkPointer, valid])⟩
  | true =>
    rw [bind_of_returned (by rw [execute_checkPointer, if_pos valid]), loadWord, execute_bind, UserMemory.word]
    rcases execute_copyIn 4 address with ⟨bytes, fetched, copied⟩ | ⟨missing, fault, faulted⟩
    · refine .inr (.inl ⟨rfl, littleEndian bytes, by rw [fetched]; rfl, ?_⟩)
      rw [bind_of_returned copied]
      rfl
    · exact .inr (.inr ⟨rfl, by rw [missing]; rfl, fault, bind_of_stopped faulted⟩)

def UserMemory.fetch (memory : UserMemory) (address : Nat) : Option Nat :=
  if validPointer address then memory.word address else none

theorem UserMemory.word_of_fetch {memory : UserMemory} {address word : Nat} (fetched : memory.fetch address = some word) :
    memory.word address = some word := by
  unfold UserMemory.fetch at fetched
  split at fetched
  · exact fetched
  · cases fetched

theorem argument_returned {address word : Nat} {after : World K} :
    (argument address).execute (checked environment) world = .returned word after ↔
      world.memory.fetch address = some word ∧ after = world := by
  rcases execute_argument environment world address with
    ⟨invalid, stopped⟩ | ⟨valid, found, read, returned⟩ | ⟨valid, missing, fault, faulted⟩
  · simp [stopped, UserMemory.fetch, invalid]
  · simp [returned, UserMemory.fetch, valid, read, eq_comm]
  · simp [faulted, UserMemory.fetch, valid, missing]

end Fetching

end Pintos.Syscall
