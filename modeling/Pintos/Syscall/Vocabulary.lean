import Pintos.Syscall.Handlers

/-! The calls the handlers are made of.

Which calls a routine can make, whatever their replies: the file system
routines neither end the process nor look at its open files, and every handler
is made of such routines, pointer checks and parts under `filesys_lock`.
-/

set_option autoImplicit false

namespace Pintos.Syscall
open Semantics

/-- The calls made inside the brackets: no lock operation and no end of the process. -/
def Call.Inner : Call → Prop
  | .load _ | .store _ _ | .hang => True
  | .checkPointer _ | .systemExitHelper _ => False
  | .routine .lockAcquire | .routine .lockRelease => False
  | .routine _ => True

abbrev Inner {A : Type} (body : Routines A) : Prop := Procedure.Makes (I := calls) Call.Inner body

/-- The calls made for a file system request: none of them looks at the open files of the thread. -/
def Call.Filing : Call → Prop
  | .routine .numOpenFiles | .routine (.setNumOpenFiles _) => False
  | .routine (.fdPointer _) | .routine (.setFdPointer _ _) => False
  | call => call.Inner

abbrev Filing {A : Type} (body : Routines A) : Prop := Procedure.Makes (I := calls) Call.Filing body

/-- The calls made for a request that involve no position in a file and no assertion. -/
def Call.Plain : Call → Prop
  | .routine .assertionFailed | .routine (.byteToSector _ _) | .routine (.setFilePos _ _) => False
  | .routine (.inodeCreate _ _) | .routine (.blockWrite _ _) => False
  | call => call.Filing

abbrev Plain {A : Type} (body : Routines A) : Prop := Procedure.Makes (I := calls) Call.Plain body

section Filing
open Procedure

theorem plain_load (address : Nat) : Plain (load address) := ⟨trivial, fun _ => trivial⟩

theorem plain_store (address : Nat) (byte : UInt8) : Plain (store address byte) := ⟨trivial, fun _ => trivial⟩

theorem plain_hang {A : Type} : Plain (hang : Routines A) := ⟨trivial, nofun⟩

theorem plain_routine {which : Routine} (plain : Call.Plain (.routine which)) : Plain (routine which) :=
  ⟨plain, fun _ => trivial⟩

theorem makes_copyIn {allowed : Call → Prop} (loads : ∀ address, allowed (.load address)) (count address : Nat) :
    Makes (I := calls) allowed (copyIn count address) := by
  induction count generalizing address with
  | zero => exact trivial
  | succ count ih => exact makes_bind ⟨loads _, fun _ => trivial⟩ fun byte => makes_bind (ih _) fun _ => trivial

theorem makes_argument {allowed : Call → Prop} (loads : ∀ address, allowed (.load address))
    (checks : ∀ pointer, allowed (.checkPointer pointer)) (address : Nat) :
    Makes (I := calls) allowed (argument address) :=
  makes_bind ⟨checks _, fun _ => trivial⟩ fun _ => makes_bind (makes_copyIn loads _ _) fun _ => trivial

theorem plain_copyIn (count address : Nat) : Plain (copyIn count address) := makes_copyIn (fun _ => trivial) count address

theorem plain_copyOut (bytes : List UInt8) (address : Nat) : Plain (copyOut bytes address) := by
  induction bytes generalizing address with
  | nil => exact trivial
  | cons byte rest ih => exact makes_bind (plain_store _ _) fun _ => ih _

theorem plain_strlenLoop (bound address length : Nat) : Plain (strlenLoop bound address length) := by
  induction bound generalizing address length with
  | zero => exact plain_hang
  | succ bound ih => exact makes_bind (plain_load _) fun byte => makes_ite trivial (ih _ _)

theorem plain_strcmp (string : Nat) (other : List UInt8) : Plain (strcmp string other) := by
  induction other generalizing string with
  | nil => exact makes_bind (plain_load _) fun _ => trivial
  | cons byte rest ih => exact makes_bind (plain_load _) fun read => makes_ite (ih _) trivial

theorem plain_strlcpy (source size : Nat) : Plain (strlcpy source size) :=
  makes_bind (plain_strlenLoop _ _ _) fun _ => makes_ite (plain_copyIn _ _) trivial

theorem plain_fileLength (file : Nat) : Plain (fileLength file) :=
  makes_bind (plain_routine trivial) fun _ => plain_routine trivial

theorem plain_lookupLoop (name bound number : Nat) : Plain (lookupLoop name bound number) := by
  induction bound generalizing number with
  | zero => exact plain_hang
  | succ bound ih =>
    refine makes_bind (plain_routine trivial) fun entry => ?_
    cases entry with
    | none => exact trivial
    | some entry => exact makes_ite (makes_bind (plain_strcmp _ _) fun _ => makes_ite trivial (ih _)) (ih _)

theorem plain_freeEntryLoop (bound number : Nat) : Plain (freeEntryLoop bound number) := by
  induction bound generalizing number with
  | zero => exact plain_hang
  | succ bound ih =>
    refine makes_bind (plain_routine trivial) fun entry => ?_
    cases entry with
    | none => exact trivial
    | some entry => exact makes_ite (ih _) trivial

theorem plain_dirAdd (name sector : Nat) : Plain (dirAdd name sector) := by
  refine makes_bind (plain_load _) fun first => makes_ite trivial ?_
  refine makes_bind (plain_strlenLoop _ _ _) fun length => makes_ite trivial ?_
  refine makes_bind (plain_lookupLoop _ _ _) fun present => makes_ite trivial ?_
  exact makes_bind (plain_freeEntryLoop _ _) fun number => makes_bind (plain_strlcpy _ _) fun _ => plain_routine trivial

theorem plain_dirLookup (name : Nat) : Plain (dirLookup name) := by
  refine makes_bind (plain_lookupLoop _ _ _) fun found => ?_
  cases found with
  | none => exact trivial
  | some found => exact plain_routine trivial

theorem plain_filesysOpen (name : Nat) : Plain (filesysOpen name) := by
  refine makes_bind (plain_routine trivial) fun dir => makes_ite ?_ (plain_routine trivial)
  exact makes_bind (plain_dirLookup name) fun inode => makes_bind (plain_routine trivial) fun _ => plain_routine trivial

theorem plain_filesysRemove (name : Nat) : Plain (filesysRemove name) := by
  refine makes_bind (plain_routine trivial) fun dir => makes_ite ?_ trivial
  refine makes_bind (makes_bind (plain_lookupLoop _ _ _) fun found => ?_) fun success =>
    makes_bind (plain_routine trivial) fun _ => trivial
  cases found with
  | none => exact trivial
  | some found =>
    refine makes_bind (plain_routine trivial) fun inode => makes_ite trivial ?_
    exact makes_bind (plain_routine trivial) fun erased =>
      makes_bind (makes_ite (plain_routine trivial) trivial) fun _ => makes_bind (plain_routine trivial) fun _ => trivial

theorem plain_putbuf (buffer count : Nat) : Plain (putbuf buffer count) := by
  refine makes_bind (plain_routine trivial) fun _ => makes_bind ?_ fun _ => plain_routine trivial
  induction count generalizing buffer with
  | zero => exact trivial
  | succ count ih => exact makes_bind (plain_load _) fun _ => makes_bind (plain_routine trivial) fun _ => ih _

theorem plain_processExecute (fileName : Nat) : Plain (processExecute fileName) := by
  refine makes_bind (plain_routine trivial) fun page => makes_ite ?_ trivial
  refine makes_bind (plain_strlcpy _ _) fun command => makes_bind ?_ fun _ => plain_routine trivial
  exact makes_bind (plain_routine trivial) fun page => makes_ite (makes_bind (plain_strlcpy _ _) fun _ => trivial) trivial

theorem filing_of_call {call : Call} (plain : call.Plain) : call.Filing := by
  unfold Call.Plain at plain
  split at plain
  · exact plain.elim
  · exact plain.elim
  · exact plain.elim
  · exact plain.elim
  · exact plain.elim
  · exact plain

theorem filing_of_plain {A : Type} {body : Routines A} (plain : Plain body) : Filing body :=
  makes_mono (fun _ => filing_of_call) plain

theorem filing_routine {which : Routine} (filing : Call.Filing (.routine which)) : Filing (routine which) :=
  ⟨filing, fun _ => trivial⟩

theorem filing_readLoop (inode buffer bound : Nat) (size offset : Int) (bytesRead : Nat) (bounce : Bool) :
    Filing (readLoop inode buffer bound size offset bytesRead bounce) := by
  induction bound generalizing size offset bytesRead bounce with
  | zero => exact filing_of_plain plain_hang
  | succ bound ih =>
    refine makes_ite (makes_bind (filing_routine trivial) fun sectorIdx => ?_) trivial
    refine makes_bind (filing_routine trivial) fun length => makes_ite trivial ?_
    refine makes_bind (makes_ite trivial (filing_routine trivial)) fun ready => makes_ite ?_ trivial
    exact makes_bind (filing_routine trivial) fun sector => makes_bind (filing_of_plain (plain_copyOut _ _)) fun _ => ih _ _ _ _

theorem filing_writeLoop (inode buffer bound : Nat) (size offset : Int) (bytesWritten : Nat) (bounce : Bool) :
    Filing (writeLoop inode buffer bound size offset bytesWritten bounce) := by
  induction bound generalizing size offset bytesWritten bounce with
  | zero => exact filing_of_plain plain_hang
  | succ bound ih =>
    refine makes_ite (makes_bind (filing_routine trivial) fun sectorIdx => ?_) trivial
    refine makes_bind (filing_routine trivial) fun length => makes_ite trivial ?_
    refine makes_bind (makes_ite trivial (filing_routine trivial)) fun ready => makes_ite ?_ trivial
    refine makes_bind (makes_ite (filing_routine trivial) trivial) fun sector => ?_
    exact makes_bind (filing_of_plain (plain_copyIn _ _)) fun bytes => makes_bind (filing_routine trivial) fun _ => ih _ _ _ _

theorem filing_fileRead (file buffer : Nat) (size : Int) : Filing (fileRead file buffer size) := by
  refine makes_bind (filing_routine trivial) fun inode => makes_bind (filing_routine trivial) fun pos => ?_
  refine makes_bind ?_ fun bytesRead => makes_bind (filing_routine trivial) fun _ => trivial
  exact makes_bind (filing_readLoop _ _ _ _ _ _ _) fun _ => makes_bind (filing_routine trivial) fun _ => trivial

theorem filing_fileWrite (file buffer : Nat) (size : Int) : Filing (fileWrite file buffer size) := by
  refine makes_bind (filing_routine trivial) fun inode => makes_bind (filing_routine trivial) fun pos => ?_
  refine makes_bind ?_ fun bytesWritten => makes_bind (filing_routine trivial) fun _ => trivial
  refine makes_bind (filing_routine trivial) fun denied => makes_ite trivial ?_
  exact makes_bind (filing_writeLoop _ _ _ _ _ _ _) fun _ => makes_bind (filing_routine trivial) fun _ => trivial

theorem filing_assert (condition : Bool) : Filing (assert condition) := makes_ite trivial ⟨trivial, nofun⟩

theorem filing_fileSeek (file : Nat) (newPos : Int) : Filing (fileSeek file newPos) :=
  makes_bind (filing_assert _) fun _ => filing_routine trivial

theorem filing_filesysCreate (name : Nat) (size : Int) : Filing (filesysCreate name size) := by
  refine makes_bind (filing_routine trivial) fun dir => makes_ite ?_ trivial
  refine makes_bind (makes_bind (filing_routine trivial) fun allocated => ?_) fun _ =>
    makes_bind (filing_routine trivial) fun _ => trivial
  cases allocated with
  | none => exact trivial
  | some sector =>
    refine makes_bind (makes_bind (filing_assert _) fun _ => filing_routine trivial) fun created => ?_
    exact makes_bind (makes_ite (filing_of_plain (plain_dirAdd _ _)) trivial) fun success =>
      makes_bind (makes_ite (filing_routine trivial) trivial) fun _ => trivial

theorem inner_of_call {call : Call} (filing : call.Filing) : call.Inner := by
  unfold Call.Filing at filing
  split at filing
  · exact filing.elim
  · exact filing.elim
  · exact filing.elim
  · exact filing.elim
  · exact filing

theorem inner_of_filing {A : Type} {body : Routines A} (filing : Filing body) : Inner body :=
  makes_mono (fun _ => inner_of_call) filing

theorem inner_of_plain {A : Type} {body : Routines A} (plain : Plain body) : Inner body :=
  inner_of_filing (filing_of_plain plain)

theorem inner_routine {which : Routine} (inner : Call.Inner (.routine which)) : Inner (routine which) :=
  ⟨inner, fun _ => trivial⟩

theorem inner_openFile (fd : Int) : Inner (openFile fd) := makes_ite (inner_routine trivial) trivial

theorem inner_openSlotLoop (file left i : Nat) : Inner (openSlotLoop file left i) := by
  induction left generalizing i with
  | zero => exact trivial
  | succ left ih =>
    refine makes_bind (inner_routine trivial) fun pointer => makes_ite ?_ (ih _)
    exact makes_bind (inner_routine trivial) fun _ => makes_bind (inner_routine trivial) fun _ =>
      makes_bind (inner_routine trivial) fun _ => trivial

end Filing

structure Composes (holds : (A : Type) → Routines A → Prop) : Prop where
  inner : ∀ {A : Type} {body : Routines A}, Inner body → holds A body
  bind : ∀ {A B : Type} {first : Routines A} {next : A → Routines B},
    holds A first → (∀ value, holds B (next value)) → holds B (first >>= next)
  checkPointer : ∀ pointer, holds Unit (checkPointer pointer)
  withFilesysLock : ∀ {A : Type} {body : Routines A}, Inner body → holds A (withFilesysLock body)
  refuse : holds (Option Int) (systemExitHelper (-1))

namespace Composes
open Procedure
variable {holds : (A : Type) → Routines A → Prop} (composes : Composes holds) {A : Type}
include composes

theorem pure (value : A) : holds A (Pure.pure value) := composes.inner trivial

theorem ite {condition : Prop} [Decidable condition] {first second : Routines A} (yes : holds A first)
    (no : holds A second) : holds A (if condition then first else second) := by
  by_cases met : condition
  · rwa [if_pos met]
  · rwa [if_neg met]

theorem argument (address : Nat) : holds Nat (argument address) :=
  composes.bind (composes.checkPointer _) fun _ => composes.inner (makes_bind (inner_of_plain (plain_copyIn _ _)) fun _ => trivial)

theorem onFile {fd : Int} {missing : A} {use : Nat → Routines A} (used : ∀ file, holds A (use file)) :
    holds A (openFile fd >>= fun file => if file = 0 then Pure.pure missing else use file) :=
  composes.bind (composes.inner (inner_openFile fd)) fun file => composes.ite (composes.pure missing) (used file)

theorem toEax {handler : Routines Int} (held : holds Int handler) : holds (Option Int) (toEax handler) :=
  composes.bind held fun _ => composes.pure _

theorem keepEax {handler : Routines Unit} (held : holds Unit handler) : holds (Option Int) (keepEax handler) :=
  composes.bind held fun _ => composes.pure _

/-- Every handler but the one of `exit` is made of such parts. -/
theorem dispatch (stackPointer : Nat) {number : Option Number} (other : number ≠ some .exit) :
    holds (Option Int) (dispatch stackPointer number) := by
  have fetch := composes.argument
  match number with
  | none => exact composes.refuse
  | some .exit => exact absurd rfl other
  | some .halt => exact composes.keepEax (composes.inner ⟨trivial, nofun⟩)
  | some .exec =>
    refine composes.toEax (composes.bind (fetch _) fun name => composes.bind (composes.checkPointer _) fun _ => ?_)
    exact composes.inner (inner_of_plain (plain_processExecute name))
  | some .wait => exact composes.toEax (composes.bind (fetch _) fun _ => composes.inner (inner_routine trivial))
  | some .create =>
    refine composes.toEax (composes.bind (fetch _) fun name => composes.bind (composes.checkPointer _) fun _ => ?_)
    exact composes.bind (fetch _) fun size =>
      composes.bind (composes.withFilesysLock (inner_of_filing (filing_filesysCreate name _))) fun _ => composes.pure _
  | some .remove =>
    refine composes.toEax (composes.bind (fetch _) fun name => composes.bind (composes.checkPointer _) fun _ => ?_)
    exact composes.bind (composes.withFilesysLock (inner_of_plain (plain_filesysRemove name))) fun _ => composes.pure _
  | some .open =>
    refine composes.toEax (composes.bind (composes.inner (inner_routine trivial)) fun count =>
      composes.ite (composes.pure _) ?_)
    refine composes.bind (fetch _) fun name => composes.bind (composes.checkPointer _) fun _ => ?_
    refine composes.bind (composes.withFilesysLock (inner_of_plain (plain_filesysOpen name))) fun file => ?_
    exact composes.ite (composes.pure _) (composes.inner (inner_openSlotLoop file _ _))
  | some .filesize =>
    refine composes.toEax (composes.bind (fetch _) fun fd => composes.onFile fun file => ?_)
    exact composes.withFilesysLock (inner_of_plain (plain_fileLength file))
  | some .read =>
    refine composes.toEax (composes.bind (fetch _) fun fd => composes.bind (fetch _) fun buffer => ?_)
    refine composes.bind (composes.checkPointer _) fun _ => composes.bind (fetch _) fun length => composes.ite ?_ ?_
    · exact composes.inner (makes_bind (inner_routine trivial) fun _ => trivial)
    · exact composes.onFile fun file => composes.withFilesysLock (inner_of_filing (filing_fileRead file buffer _))
  | some .write =>
    refine composes.toEax (composes.bind (fetch _) fun fd => composes.bind (fetch _) fun string => ?_)
    refine composes.bind (composes.checkPointer _) fun _ => composes.bind (fetch _) fun length => ?_
    refine composes.bind (composes.checkPointer _) fun _ => composes.ite (composes.pure _) (composes.ite ?_ ?_)
    · exact composes.inner (makes_bind (inner_of_plain (plain_putbuf string length)) fun _ => trivial)
    · exact composes.onFile fun _ => composes.withFilesysLock
        (makes_bind (inner_openFile _) fun file => inner_of_filing (filing_fileWrite file string _))
  | some .seek =>
    refine composes.keepEax (composes.bind (fetch _) fun fd => composes.bind (fetch _) fun position => ?_)
    exact composes.onFile fun file => composes.withFilesysLock (inner_of_filing (filing_fileSeek file _))
  | some .tell =>
    refine composes.toEax (composes.bind (fetch _) fun fd => composes.onFile fun file => ?_)
    exact composes.withFilesysLock (inner_routine trivial)
  | some .close =>
    refine composes.keepEax (composes.bind (fetch _) fun fd => composes.onFile fun file => ?_)
    refine composes.bind (composes.withFilesysLock (inner_routine trivial)) fun _ => composes.inner ?_
    exact makes_bind (inner_routine trivial) fun _ => makes_bind (inner_routine trivial) fun _ => inner_routine trivial

end Composes

end Pintos.Syscall
