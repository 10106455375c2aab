import Mathlib.Data.List.Perm.Basic
import Pintos.Semantics.Computation

/-! The loop of `thread_exit` over the children that were not waited for
(`threads/thread.c`, `threads/palloc.c`, `lib/kernel/list.c`).

The nodes of `child_list` are pages of their own, linked through the words of
the page. The loop is run on that memory: giving a page back overwrites its
words, and the next node is read from whatever the memory then holds.
-/

set_option autoImplicit false

namespace Pintos.Process.ExitLoop
open Semantics Computation

def physBase : Nat := 0xc0000000

def pageSize : Nat := 4096

/-- The bytes `palloc_free_multiple` leaves in a page, read as a word. -/
def poison : Nat := 0xcccccccc

inductive Event where
  | up (kid : Nat)
  | freed (page : Nat)
  | links (elem : Nat)
  deriving DecidableEq, Repr

inductive Stop where
  | fault (address : Nat)
  | panic
  | outOfFuel
  deriving DecidableEq, Repr

/-- Kernel memory by aligned words. `ram` bytes are mapped at `physBase`, `pooled` are the
pages of the two pools and `used` those whose bit is set. -/
structure Machine where
  ram : Nat
  word : Nat → Nat
  pooled : Nat → Bool
  used : Nat → Bool
  trace : List Event

def Machine.Mapped (m : Machine) (address : Nat) : Prop := physBase ≤ address ∧ address + 4 ≤ physBase + m.ram

instance (m : Machine) (address : Nat) : Decidable (m.Mapped address) :=
  inferInstanceAs (Decidable (_ ∧ _))

abbrev Kernel := Computation Machine Stop

def load (address : Nat) : Kernel Nat := fun m =>
  if m.Mapped address then .returned (m.word address) m else .stopped (.fault address) m

def assert (condition : Bool) : Kernel Unit := if condition then pure () else stop .panic

def note (event : Event) : Kernel Unit := modify fun m => { m with trace := m.trace ++ [event] }

def Machine.poisoned (m : Machine) (page : Nat) : Machine :=
  { m with word := fun address => if page ≤ address ∧ address < page + pageSize then poison else m.word address }

def pallocFreePage (page : Nat) : Kernel Unit := do
  assert (page % pageSize = 0)
  if page = 0 then
    return ()
  let m ← get
  -- A page of neither pool is NOT_REACHED.
  assert (m.pooled page)
  note (.freed page)
  modify (·.poisoned page)
  assert (m.used page)
  modify fun m => { m with used := fun other => if other = page then false else m.used other }

/- An element is its `prev` word and then its `next` word; a list is its head and then its tail. -/

def listBegin (list : Nat) : Kernel Nat := load (list + 4)

def listEnd (list : Nat) : Nat := list + 8

def isHead (prev next : Nat) : Bool := prev == 0 && next != 0

def isInterior (prev next : Nat) : Bool := prev != 0 && next != 0

def listNext (elem : Nat) : Kernel Nat := do
  assert (elem ≠ 0)
  note (.links elem)
  let prev ← load elem
  let next ← load (elem + 4)
  assert (isHead prev next || isInterior prev next)
  return next

/-- `list_entry (e, struct child, elem)`: `kid` is the word before the element. -/
def childOf (elem : Nat) : Nat := (elem + 2 ^ 32 - 4) % 2 ^ 32

def release (elem : Nat) : Kernel Unit := do
  let kid ← load (childOf elem)
  note (.up kid)
  pallocFreePage (childOf elem)

def releaseFrom (list : Nat) : Nat → Nat → Kernel Unit
  | 0, _ => stop .outOfFuel
  | fuel + 1, elem =>
    if elem = listEnd list then pure ()
    else do
      release elem
      let next ← listNext elem
      releaseFrom list fuel next

def releaseChildren (list fuel : Nat) : Kernel Unit := do
  let first ← listBegin list
  releaseFrom list fuel first

structure Node where
  page : Nat
  kid : Nat
  deriving DecidableEq, Repr

def Node.elem (node : Node) : Nat := node.page + 4

/-- A node as `register_child_with_parent` made it: a page of the kernel pool of its own. -/
structure Node.Stored (m : Machine) (list : Nat) (node : Node) : Prop where
  aligned : node.page % pageSize = 0
  low : physBase ≤ node.page
  high : node.page + pageSize ≤ physBase + m.ram
  pooled : m.pooled node.page = true
  used : m.used node.page = true
  kid : m.word node.page = node.kid
  apart : list + 16 ≤ node.page ∨ node.page + pageSize ≤ list

def Linked (m : Machine) (list : Nat) : Nat → Nat → List Node → Prop
  | prev, elem, [] => elem = listEnd list ∧ m.word elem = prev ∧ m.word (elem + 4) = 0
  | prev, elem, node :: rest =>
    elem = node.elem ∧ m.word elem = prev ∧ Linked m list elem (m.word (elem + 4)) rest

/-- An exiting process and its `child_list`. The machine has at most 64 MB, the cap of `start.S`. -/
structure Parent where
  machine : Machine
  list : Nat
  nodes : List Node
  capped : machine.ram ≤ 2 ^ 26
  low : physBase ≤ list
  high : list + 16 ≤ physBase + machine.ram
  quiet : machine.trace = []
  head : machine.word list = 0
  linked : Linked machine list list (machine.word (list + 4)) nodes
  stored : ∀ node ∈ nodes, node.Stored machine list
  distinct : (nodes.map Node.page).Nodup

def ups (trace : List Event) : List Nat := trace.filterMap fun event => match event with
  | .up kid => some kid
  | _ => none

def frees (trace : List Event) : List Nat := trace.filterMap fun event => match event with
  | .freed page => some page
  | _ => none

def LinksLive (trace : List Event) : Prop :=
  trace.Pairwise fun first second => ∀ page, first = .freed page → second ≠ .links (page + 4)

/-- The loop ends, each child is released once and each node freed once, and no freed node is walked through. -/
def Releases (parent : Parent) : Prop :=
  ∃ fuel final, releaseChildren parent.list fuel parent.machine = .returned () final ∧
    (ups final.trace).Perm (parent.nodes.map Node.kid) ∧ (frees final.trace).Perm (parent.nodes.map Node.page) ∧
      LinksLive final.trace

theorem load_of_mapped {m : Machine} {address : Nat} (mapped : m.Mapped address) :
    load address m = .returned (m.word address) m := if_pos mapped

theorem load_of_unmapped {m : Machine} {address : Nat} (unmapped : ¬ m.Mapped address) :
    load address m = .stopped (.fault address) m := if_neg unmapped

theorem bind_assert {A : Type} {condition : Bool} (met : condition = true) (next : Unit → Kernel A) (m : Machine) :
    (assert condition >>= next) m = next () m := by
  subst met
  rfl

theorem bind_note {A : Type} (event : Event) (next : Unit → Kernel A) (m : Machine) :
    (note event >>= next) m = next () { m with trace := m.trace ++ [event] } := rfl

section Body
variable {m : Machine} {list : Nat} {node : Node}

theorem childOf_elem (stored : node.Stored m list) (capped : m.ram ≤ 2 ^ 26) : childOf node.elem = node.page := by
  have high := stored.high
  have base : physBase = 0xc0000000 := rfl
  unfold childOf Node.elem
  omega

theorem Node.Stored.mapped (stored : node.Stored m list) {offset : Nat} (inside : offset + 4 ≤ pageSize) :
    m.Mapped (node.page + offset) :=
  ⟨by have := stored.low; omega, by have := stored.high; omega⟩

def Machine.released (m : Machine) (node : Node) : Machine :=
  { m.poisoned node.page with
    used := fun other => if other = node.page then false else m.used other
    trace := m.trace ++ [.up node.kid] ++ [.freed node.page] }

theorem pallocFreePage_returned (stored : node.Stored m list) :
    pallocFreePage node.page m = .returned ()
      { m.poisoned node.page with
        used := fun other => if other = node.page then false else m.used other
        trace := m.trace ++ [.freed node.page] } := by
  have nonzero : node.page ≠ 0 := by
    have := stored.low
    have base : physBase = 0xc0000000 := rfl
    omega
  unfold pallocFreePage
  rw [bind_assert (by simpa using stored.aligned), if_neg nonzero]
  simp only [bind_get]
  rw [bind_assert stored.pooled, bind_note]
  simp only [bind_modify]
  rw [bind_assert stored.used]
  rfl

theorem release_returned (stored : node.Stored m list) (capped : m.ram ≤ 2 ^ 26) :
    release node.elem m = .returned () (m.released node) := by
  have kid : load node.page m = .returned node.kid m := by
    have mapped : m.Mapped node.page := stored.mapped (show 0 + 4 ≤ pageSize by decide)
    rw [load_of_mapped mapped, stored.kid]
  unfold release
  rw [childOf_elem stored capped, bind_of_returned kid, bind_note]
  have noted : node.Stored { m with trace := m.trace ++ [.up node.kid] } list := { stored with }
  exact pallocFreePage_returned noted

/-- The element of a freed node is still taken for an interior one, and leads to the poison. -/
theorem listNext_released (stored : node.Stored m list) :
    listNext node.elem (m.released node) = .returned poison
      { m.released node with trace := (m.released node).trace ++ [.links node.elem] } := by
  have poisonAt (offset : Nat) (inside : offset < pageSize) : (m.released node).word (node.page + offset) = poison :=
    if_pos ⟨by omega, by omega⟩
  have loads (offset : Nat) (inside : offset + 4 ≤ pageSize) (trace : List Event) :
      load (node.page + offset) { m.released node with trace := trace } =
        .returned poison { m.released node with trace := trace } := by
    have mapped : ({ m.released node with trace := trace } : Machine).Mapped (node.page + offset) := stored.mapped inside
    rw [load_of_mapped mapped]
    exact congrArg₂ _ (poisonAt offset (by omega)) rfl
  unfold listNext Node.elem
  rw [bind_assert (by simp), bind_note, bind_of_returned (loads 4 (by decide) _), bind_of_returned (loads 8 (by decide) _),
    bind_assert (by decide)]
  rfl

end Body

theorem first_elem (parent : Parent) {node : Node} {rest : List Node} (nodes : parent.nodes = node :: rest) :
    listBegin parent.list parent.machine = .returned node.elem parent.machine := by
  have linked := parent.linked
  rw [nodes] at linked
  have mapped : parent.machine.Mapped (parent.list + 4) :=
    ⟨by have := parent.low; omega, by have := parent.high; omega⟩
  rw [listBegin, load_of_mapped mapped, linked.1]

def Machine.left (m : Machine) (node : Node) : Machine :=
  { m.released node with trace := (m.released node).trace ++ [.links node.elem] }

/-- With a child left the loop goes on from the poison of the page it has just given back. -/
theorem releaseChildren_next (parent : Parent) {node : Node} {rest : List Node}
    (nodes : parent.nodes = node :: rest) (fuel : Nat) :
    releaseChildren parent.list (fuel + 1) parent.machine =
      releaseFrom parent.list fuel poison (parent.machine.left node) := by
  have stored : node.Stored parent.machine parent.list := parent.stored node (by simp [nodes])
  have inner : node.elem ≠ listEnd parent.list := by
    have apart := stored.apart
    have page : pageSize = 4096 := rfl
    unfold Node.elem listEnd
    omega
  rw [releaseChildren, bind_of_returned (first_elem parent nodes), releaseFrom, if_neg inner,
    bind_of_returned (release_returned stored parent.capped), bind_of_returned (listNext_released stored)]
  rfl

/-- No memory is mapped at the poison, so the next pass faults on the way to `kid`. -/
theorem releaseFrom_poison (parent : Parent) (node : Node) (fuel : Nat) :
    releaseFrom parent.list (fuel + 1) poison (parent.machine.left node) =
      .stopped (.fault (poison - 4)) (parent.machine.left node) := by
  have base : physBase = 0xc0000000 := rfl
  have capped := parent.capped
  have within := parent.high
  have far : poison ≠ listEnd parent.list := by
    unfold listEnd poison
    omega
  have unmapped : ¬ (parent.machine.left node).Mapped (childOf poison) := by
    rintro ⟨-, below⟩
    have ram : (parent.machine.left node).ram = parent.machine.ram := rfl
    have address : childOf poison = 0xccccccc8 := rfl
    omega
  rw [releaseFrom, if_neg far]
  exact bind_of_stopped (bind_of_stopped (load_of_unmapped unmapped))

theorem releaseChildren_empty (parent : Parent) (nodes : parent.nodes = []) :
    releaseChildren parent.list 1 parent.machine = .returned () parent.machine := by
  have linked := parent.linked
  rw [nodes] at linked
  have mapped : parent.machine.Mapped (parent.list + 4) :=
    ⟨by have := parent.low; omega, by have := parent.high; omega⟩
  have first : listBegin parent.list parent.machine = .returned (listEnd parent.list) parent.machine := by
    rw [listBegin, load_of_mapped mapped, linked.1]
  rw [releaseChildren, bind_of_returned first, releaseFrom, if_pos rfl]
  rfl

theorem releaseChildren_unfinished (parent : Parent) (nonempty : parent.nodes ≠ []) (fuel : Nat) (final : Machine) :
    releaseChildren parent.list fuel parent.machine ≠ .returned () final := by
  obtain ⟨node, rest, nodes⟩ := List.exists_cons_of_ne_nil nonempty
  match fuel with
  | 0 =>
    rw [releaseChildren, bind_of_returned (first_elem parent nodes)]
    nofun
  | 1 =>
    rw [releaseChildren_next parent nodes]
    nofun
  | fuel + 2 =>
    rw [releaseChildren_next parent nodes, releaseFrom_poison]
    nofun

/-- The loop does what it is for exactly when no child is left. -/
theorem children_released_iff (parent : Parent) : Releases parent ↔ parent.nodes = [] := by
  constructor
  · rintro ⟨fuel, final, returned, -⟩
    by_contra nonempty
    exact releaseChildren_unfinished parent nonempty fuel final returned
  · intro empty
    refine ⟨1, parent.machine, releaseChildren_empty parent empty, ?_⟩
    rw [parent.quiet, empty]
    exact ⟨List.Perm.refl _, List.Perm.refl _, List.Pairwise.nil⟩

/-- A machine of 4 MB and a process with one child: its thread is at `0xc0104000`, the node at
`0xc0105000` and the child's thread at `0xc0106000`. -/
def oneChild : Machine where
  ram := 0x400000
  word := fun address =>
    if address = 0xc0104104 then 0xc0105004
    else if address = 0xc0104108 then 0xc0105004
    else if address = 0xc0105000 then 0xc0106000
    else if address = 0xc0105004 then 0xc0104100
    else if address = 0xc0105008 then 0xc0104108
    else 0
  pooled := fun page => 0xc0101000 ≤ page ∧ page < 0xc0400000
  used := fun page => page = 0xc0104000 ∨ page = 0xc0105000 ∨ page = 0xc0106000
  trace := []

def oneChildParent : Parent where
  machine := oneChild
  list := 0xc0104100
  nodes := [⟨0xc0105000, 0xc0106000⟩]
  capped := by decide
  low := by decide
  high := by decide
  quiet := rfl
  head := by decide
  linked := by unfold Linked Linked; decide
  stored := by
    intro node member
    obtain rfl := List.mem_singleton.mp member
    exact ⟨by decide, by decide, by decide, by decide, by decide, by decide, by decide⟩
  distinct := by decide

/-- The only child is released and its node freed, then the freed links are read and the exit faults. -/
theorem one_child_walks_freed_node :
    ∃ final, releaseChildren oneChildParent.list 2 oneChildParent.machine = .stopped (.fault 0xccccccc8) final ∧
      final.trace = [.up 0xc0106000, .freed 0xc0105000, .links 0xc0105004] ∧ ¬ LinksLive final.trace ∧
        ¬ Releases oneChildParent := by
  refine ⟨oneChild.left ⟨0xc0105000, 0xc0106000⟩, ?_, rfl, ?_, ?_⟩
  · exact (releaseChildren_next oneChildParent rfl 1).trans (releaseFrom_poison oneChildParent _ 0)
  · intro live
    have pair := (List.pairwise_cons.mp (List.pairwise_cons.mp live).2).1 (.links 0xc0105004) (by decide)
    exact pair 0xc0105000 rfl rfl
  · rintro ⟨fuel, final, returned, -⟩
    exact releaseChildren_unfinished oneChildParent nofun fuel final returned

end Pintos.Process.ExitLoop
