import Mathlib.Data.List.Pairwise
import Mathlib.Order.RelClasses
import Pintos.Lib.Hash
import Pintos.Semantics.Refinement

/-! Hash tables are finite maps.

Elements that neither precedes the other are equal as keys, and a map has at
most one element for each key. The table finds what the map has, whatever the
order of growth, shrinking and failed allocations, as long as equal keys have
equal hashes.
-/

set_option autoImplicit false

namespace Pintos.Lib
open Semantics

namespace Hash
variable {α : Type} (hash : α → UInt32) (less : α → α → Bool)

def equal (a b : α) : Bool := !less a b && !less b a

abbrev KeyMap (α : Type) := α → Option α

namespace KeyMap

def put (m : KeyMap α) (new : α) : KeyMap α := fun e => if equal less new e then some new else m e

def drop (m : KeyMap α) (key : α) : KeyMap α := fun e => if equal less key e then none else m e

end KeyMap

inductive Op (α : Type) where
  | insert (new : α) (allocated : Bool)
  | replace (new : α) (allocated : Bool)
  | find (e : α)
  | delete (e : α) (allocated : Bool)

def specified (m : KeyMap α) : Op α → KeyMap α × Option α
  | .insert new _ => (if m new = none then m.put less new else m, m new)
  | .replace new _ => (m.put less new, m new)
  | .find e => (m, m e)
  | .delete e _ => (m.drop less e, m e)

def perform [DecidableEq α] (h : Hash α) : Op α → Hash α × Option α
  | .insert new allocated => h.insert hash less new allocated
  | .replace new allocated => h.replace hash less new allocated
  | .find e => (h, h.find hash less e)
  | .delete e allocated => h.delete hash less e allocated

def elems (h : Hash α) : List α := (List.range h.bucketCnt).flatMap h.buckets

structure Arranged (h : Hash α) : Prop where
  power : ∃ k, h.bucketCnt = 2 ^ k
  four : 4 ≤ h.bucketCnt
  seated : ∀ i, ∀ e ∈ h.buckets i, h.findBucket hash e = i
  single : ∀ i, (h.buckets i).Pairwise fun a b => equal less a b = false

structure Valid (h : Hash α) : Prop extends Arranged hash less h where
  count : h.elemCnt = h.elems.length

def spread (elements : List α) (elemCnt cnt : Nat) : Hash α :=
  ⟨elemCnt, cnt, fun i => (elements.filter fun e => (hash e).toNat &&& (cnt - 1) = i).reverse⟩

section Powers

theorem isPowerOf2_iff {x : Nat} : isPowerOf2 x = true ↔ ∃ k, x = 2 ^ k := by
  unfold isPowerOf2 turnOffLeast1bit
  by_cases zero : x = 0
  · simp only [zero, bne_self_eq_false, Bool.false_and, Bool.false_eq_true, false_iff, not_exists]
    exact fun k => (Nat.two_pow_pos k).ne
  · simp only [bne_iff_ne, ne_eq, zero, not_false_eq_true, Bool.and_eq_true, beq_iff_eq, true_and]
    exact Nat.and_sub_one_eq_zero_iff_isPowerOfTwo zero

/-- The loop stops at a power of two that is as large as any below the number it starts with. -/
theorem powerOf2_spec {x k : Nat} (large : 2 ^ k ≤ x) : (∃ j, powerOf2 x = 2 ^ j) ∧ 2 ^ k ≤ powerOf2 x := by
  fun_induction powerOf2 x with
  | case1 x power => exact ⟨isPowerOf2_iff.mp power, large⟩
  | case2 x other positive ih =>
    apply ih
    -- the highest bit is not the one that is turned off
    have top := Nat.and_sub_one_testBit_log2 positive fun power => other (isPowerOf2_iff.mpr power)
    have high : 2 ^ k ≤ 2 ^ x.log2 := Nat.pow_le_pow_right (by omega) ((Nat.le_log2 positive).mpr large)
    exact high.trans (Nat.ge_two_pow_of_testBit top)
  | case3 other zero =>
    have := Nat.two_pow_pos k
    omega

end Powers

section Keys
variable {less}

theorem equal_iff {a b : α} : equal less a b = true ↔ less a b = false ∧ less b a = false := by
  simp [equal]

theorem equal_comm (a b : α) : equal less a b = equal less b a := Bool.and_comm _ _

theorem equal_symm {a b : α} (same : equal less a b = true) : equal less b a = true := by
  rw [equal_comm]
  exact same

variable [order : IsStrictWeakOrder α fun a b => less a b = true]
include order

theorem equal_refl (a : α) : equal less a a = true := by
  have strict : less a a ≠ true := order.irrefl a
  simp [equal, strict]

theorem equal_trans {a b c : α} (first : equal less a b = true) (second : equal less b c = true) : equal less a c = true := by
  rw [equal_iff] at first second ⊢
  have incomparable := order.incomp_trans a b c (by simp [first]) (by simp [second])
  simpa using incomparable

end Keys

section Tables
variable {hash less} {h : Hash α}

theorem findBucket_lt (four : 4 ≤ h.bucketCnt) (e : α) : h.findBucket hash e < h.bucketCnt := by
  have below : h.findBucket hash e ≤ h.bucketCnt - 1 := Nat.and_le_right
  omega

theorem findBucket_congr (consistent : ∀ a b, equal less a b = true → hash a = hash b) {a b : α}
    (same : equal less a b = true) : h.findBucket hash a = h.findBucket hash b := by
  unfold findBucket
  rw [consistent a b same]

theorem mem_elems (arranged : Arranged hash less h) {e : α} : e ∈ h.elems ↔ e ∈ h.buckets (h.findBucket hash e) := by
  unfold elems
  rw [List.mem_flatMap]
  constructor
  · rintro ⟨i, -, inside⟩
    rw [arranged.seated i e inside]
    exact inside
  · exact fun inside => ⟨_, List.mem_range.mpr (findBucket_lt arranged.four e), inside⟩

variable (consistent : ∀ a b, equal less a b = true → hash a = hash b)
include consistent

theorem elems_pairwise (arranged : Arranged hash less h) : h.elems.Pairwise fun a b => equal less a b = false := by
  unfold elems
  rw [List.pairwise_flatMap]
  refine ⟨fun i _ => arranged.single i, List.pairwise_lt_range.imp fun {i j} below a first b second => ?_⟩
  by_contra same
  have one : h.findBucket hash a = h.findBucket hash b := findBucket_congr consistent (by simpa using same)
  rw [arranged.seated i a first, arranged.seated j b second] at one
  omega

variable [order : IsStrictWeakOrder α fun a b => less a b = true]
include order

section
variable (arranged : Arranged hash less h)
include arranged

theorem elems_nodup : h.elems.Nodup := by
  refine (elems_pairwise consistent arranged).imp fun {a b} apart same => ?_
  rw [same, equal_refl] at apart
  cases apart

omit order in
theorem elems_unique {a b : α} (first : a ∈ h.elems) (second : b ∈ h.elems) (same : equal less a b = true) : a = b := by
  by_contra apart
  have symmetric : Std.Symm fun a b : α => equal less a b = false := ⟨fun a b apart => by rwa [equal_comm]⟩
  have different := (elems_pairwise consistent arranged).forall first second apart
  rw [same] at different
  cases different

theorem find_eq_some {e a : α} : h.find hash less e = some a ↔ a ∈ h.elems ∧ equal less a e = true := by
  unfold find findElem
  constructor
  · intro found
    have inside := List.mem_of_find?_eq_some found
    have same := List.find?_some found
    change equal less a e = true at same
    rw [← findBucket_congr consistent same] at inside
    exact ⟨(mem_elems arranged).mpr inside, same⟩
  · rintro ⟨inside, same⟩
    rw [mem_elems arranged, findBucket_congr consistent same] at inside
    cases found : (h.buckets (h.findBucket hash e)).find? fun hi => !less hi e && !less e hi with
    | none => exact absurd same (List.find?_eq_none.mp found a inside)
    | some b =>
      have same' := List.find?_some found
      change equal less b e = true at same'
      have inside' := List.mem_of_find?_eq_some found
      rw [← findBucket_congr consistent same'] at inside'
      rw [← findBucket_congr consistent same] at inside
      have one := elems_unique consistent arranged ((mem_elems arranged).mpr inside') ((mem_elems arranged).mpr inside)
        (equal_trans same' (equal_symm same))
      rw [one]

theorem find_eq_none {e : α} : h.find hash less e = none ↔ ∀ a ∈ h.elems, equal less a e = false := by
  rw [Option.eq_none_iff_forall_ne_some]
  simp only [ne_eq, find_eq_some consistent arranged, not_and, Bool.not_eq_true]

theorem length_elems_of_mem_iff {expected : List α}
    (nodup : expected.Nodup) (same : ∀ a, a ∈ h.elems ↔ a ∈ expected) : h.elems.length = expected.length :=
  ((List.perm_ext_iff_of_nodup (elems_nodup consistent arranged) nodup).mpr same).length_eq

end

theorem insertElem_valid (valid : Valid hash less h) {new : α} (absent : ∀ a ∈ h.elems, equal less a new = false) :
    Valid hash less (h.insertElem (h.findBucket hash new) new) ∧
      ∀ a, a ∈ (h.insertElem (h.findBucket hash new) new).elems ↔ a ∈ new :: h.elems := by
  have arranged : Arranged hash less (h.insertElem (h.findBucket hash new) new) := by
    refine ⟨valid.power, valid.four, fun i e inside => ?_, fun i => ?_⟩
    · simp only [insertElem, pushFront] at inside
      split at inside
      · rename_i here
        cases inside with
        | head => exact here.symm
        | tail _ inside => exact valid.seated i e inside
      · exact valid.seated i e inside
    · simp only [insertElem, pushFront]
      split
      · rename_i here
        refine List.pairwise_cons.mpr ⟨fun a inside => ?_, valid.single i⟩
        rw [equal_comm]
        have seat := valid.seated i a inside
        exact absent a ((mem_elems valid.toArranged).mpr (seat ▸ inside))
      · exact valid.single i
  have members (a : α) : a ∈ (h.insertElem (h.findBucket hash new) new).elems ↔ a ∈ new :: h.elems := by
    rw [mem_elems arranged, List.mem_cons, mem_elems valid.toArranged]
    show a ∈ pushFront h.buckets (h.findBucket hash new) new (h.findBucket hash a) ↔ _
    unfold pushFront
    split
    · exact List.mem_cons
    · rename_i elsewhere
      have other : a ≠ new := fun same => elsewhere (by rw [same])
      simp [other]
  have fresh : new ∉ h.elems := by
    intro inside
    have apart := absent new inside
    rw [equal_refl] at apart
    cases apart
  refine ⟨⟨arranged, ?_⟩, members⟩
  rw [length_elems_of_mem_iff consistent arranged (List.nodup_cons.mpr ⟨fresh, elems_nodup consistent valid.toArranged⟩) members,
    List.length_cons, ← valid.count]
  rfl

theorem removeElem_valid [DecidableEq α] (valid : Valid hash less h) {old : α} (inside : old ∈ h.elems) :
    Valid hash less (h.removeElem old) ∧ ∀ a, a ∈ (h.removeElem old).elems ↔ a ∈ h.elems.erase old := by
  have nodup := elems_nodup consistent valid.toArranged
  have arranged : Arranged hash less (h.removeElem old) :=
    ⟨valid.power, valid.four, fun i e inside => valid.seated i e (List.mem_of_mem_erase inside),
      fun i => (valid.single i).sublist List.erase_sublist⟩
  have members (a : α) : a ∈ (h.removeElem old).elems ↔ a ∈ h.elems.erase old := by
    rw [mem_elems arranged, nodup.mem_erase_iff, mem_elems valid.toArranged]
    show a ∈ (h.buckets (h.findBucket hash a)).erase old ↔ _
    have once : (h.buckets (h.findBucket hash a)).Nodup := by
      refine (valid.single _).imp fun {a b} apart same => ?_
      rw [same, equal_refl] at apart
      cases apart
    exact once.mem_erase_iff
  refine ⟨⟨arranged, ?_⟩, members⟩
  rw [length_elems_of_mem_iff consistent arranged (nodup.erase old) members, List.length_erase_of_mem inside, ← valid.count]
  rfl

omit consistent order in
/-- The elements end up in their buckets, those that were moved last in front. -/
theorem moveAll_eq (old : Hash α) (elemCnt cnt : Nat) :
    moveAll hash old ⟨elemCnt, cnt, fun _ => []⟩ = spread hash old.elems elemCnt cnt := by
  have pushed (moved : List α) : ∀ new : Hash α,
      moved.foldl (fun new e => { new with buckets := pushFront new.buckets (new.findBucket hash e) e }) new =
        { new with buckets := fun i => (moved.filter fun e => new.findBucket hash e = i).reverse ++ new.buckets i } := by
    induction moved with
    | nil => exact fun new => rfl
    | cons e rest ih =>
      intro new
      rw [List.foldl_cons, ih]
      simp only [Hash.mk.injEq, true_and]
      funext i
      have same (cnt : Nat) (buckets : Nat → List α) (a : α) :
          findBucket hash ⟨cnt, new.bucketCnt, buckets⟩ a = findBucket hash new a := rfl
      by_cases here : new.findBucket hash e = i
      · simp [pushFront, same, here]
      · simp [pushFront, same, here, Ne.symm here]
  unfold moveAll spread
  rw [← List.foldl_flatMap]
  show (old.elems.foldl _ _) = _
  rw [pushed]
  simp only [List.append_nil]
  rfl

omit order in
theorem spread_arranged (arranged : Arranged hash less h) {cnt : Nat} (power : ∃ k, cnt = 2 ^ k) (four : 4 ≤ cnt) :
    Arranged hash less (spread hash h.elems h.elemCnt cnt) := by
  refine ⟨power, four, fun i e inside => ?_, fun i => ?_⟩
  · simp only [spread, List.mem_reverse, List.mem_filter, decide_eq_true_eq] at inside
    exact inside.2
  · simp only [spread, List.pairwise_reverse]
    refine ((elems_pairwise consistent arranged).sublist List.filter_sublist).imp fun {a b} apart => ?_
    rw [equal_comm]
    exact apart

omit consistent order in
theorem newBucketCnt_spec (h : Hash α) : (∃ k, h.newBucketCnt = 2 ^ k) ∧ 4 ≤ h.newBucketCnt := by
  have four : 2 ^ 2 ≤ if h.elemCnt / bestElemsPerBucket < 4 then 4 else h.elemCnt / bestElemsPerBucket := by
    split <;> omega
  exact powerOf2_spec four

theorem rehash_valid (valid : Valid hash less h) (allocated : Bool) :
    Valid hash less (h.rehash hash allocated) ∧ ∀ a, a ∈ (h.rehash hash allocated).elems ↔ a ∈ h.elems := by
  have kept : Valid hash less h ∧ ∀ a, a ∈ h.elems ↔ a ∈ h.elems := ⟨valid, fun _ => Iff.rfl⟩
  unfold rehash
  dsimp only
  split
  · exact kept
  · split
    · rw [moveAll_eq]
      obtain ⟨power, four⟩ := newBucketCnt_spec h
      have arranged := spread_arranged consistent valid.toArranged power four
      have members (a : α) : a ∈ (spread hash h.elems h.elemCnt h.newBucketCnt).elems ↔ a ∈ h.elems := by
        rw [mem_elems arranged]
        simp [spread, findBucket]
      refine ⟨⟨arranged, ?_⟩, members⟩
      rw [length_elems_of_mem_iff consistent arranged (elems_nodup consistent valid.toArranged) members]
      exact valid.count
    · exact kept

end Tables

structure Represents (m : KeyMap α) (h : Hash α) : Prop extends Valid hash less h where
  found : ∀ e, m e = h.find hash less e

section Operations
variable {hash less} {h : Hash α} {m : KeyMap α} [DecidableEq α]
variable (consistent : ∀ a b, equal less a b = true → hash a = hash b)
variable [order : IsStrictWeakOrder α fun a b => less a b = true]
include consistent order

omit [DecidableEq α] in
theorem Represents.some_iff (represents : Represents hash less m h) {e a : α} :
    m e = some a ↔ a ∈ h.elems ∧ equal less a e = true := by
  rw [represents.found, find_eq_some consistent represents.toArranged]

omit [DecidableEq α] in
theorem represents_of_some_iff (valid : Valid hash less h)
    (has : ∀ e a, m e = some a ↔ a ∈ h.elems ∧ equal less a e = true) : Represents hash less m h := by
  refine ⟨valid, fun e => ?_⟩
  ext a
  rw [has, find_eq_some consistent valid.toArranged]

section
variable (represents : Represents hash less m h)
include represents

omit [DecidableEq α] in
theorem represents_put {new : α} {next : Hash α} (valid : Valid hash less next)
    (members : ∀ a, a ∈ next.elems ↔ a = new ∨ a ∈ h.elems ∧ equal less a new = false) :
    Represents hash less (m.put less new) next := by
  refine represents_of_some_iff consistent valid fun e a => ?_
  rw [members, KeyMap.put]
  split <;> rename_i same
  · constructor
    · intro here
      cases here
      exact ⟨.inl rfl, same⟩
    · rintro ⟨rfl | ⟨-, apart⟩, here⟩
      · rfl
      · rw [equal_trans here (equal_symm same)] at apart
        cases apart
  · rw [represents.some_iff consistent]
    constructor
    · rintro ⟨inside, here⟩
      refine ⟨.inr ⟨inside, ?_⟩, here⟩
      by_contra near
      exact same (equal_trans (equal_symm (by simpa using near)) here)
    · rintro ⟨rfl | ⟨inside, -⟩, here⟩
      · exact absurd here same
      · exact ⟨inside, here⟩

omit [DecidableEq α] in
theorem represents_drop {key : α} {next : Hash α} (valid : Valid hash less next)
    (members : ∀ a, a ∈ next.elems ↔ a ∈ h.elems ∧ equal less a key = false) :
    Represents hash less (m.drop less key) next := by
  refine represents_of_some_iff consistent valid fun e a => ?_
  rw [members, KeyMap.drop]
  split <;> rename_i same
  · constructor
    · intro here
      cases here
    · rintro ⟨⟨-, apart⟩, here⟩
      rw [equal_trans here (equal_symm same)] at apart
      cases apart
  · rw [represents.some_iff consistent]
    constructor
    · rintro ⟨inside, here⟩
      refine ⟨⟨inside, ?_⟩, here⟩
      by_contra near
      exact same (equal_trans (equal_symm (by simpa using near)) here)
    · rintro ⟨⟨inside, -⟩, here⟩
      exact ⟨inside, here⟩

omit [DecidableEq α] in
theorem represents_rehash (allocated : Bool) : Represents hash less m (h.rehash hash allocated) := by
  obtain ⟨valid, members⟩ := rehash_valid consistent represents.toValid allocated
  refine represents_of_some_iff consistent valid fun e a => ?_
  rw [members, represents.some_iff consistent]

theorem mem_erase_of_equal {key old : α} (has : m key = some old) (a : α) :
    a ∈ h.elems.erase old ↔ a ∈ h.elems ∧ equal less a key = false := by
  obtain ⟨inside, same⟩ := (represents.some_iff consistent).mp has
  have nodup := elems_nodup consistent represents.toArranged
  rw [nodup.mem_erase_iff]
  constructor
  · rintro ⟨apart, there⟩
    refine ⟨there, ?_⟩
    by_contra near
    exact apart (elems_unique consistent represents.toArranged there inside
      (equal_trans (by simpa using near) (equal_symm same)))
  · rintro ⟨there, apart⟩
    refine ⟨?_, there⟩
    rintro rfl
    rw [same] at apart
    cases apart

omit [DecidableEq α] in
theorem absent_of_none {key : α} (none : m key = none) : ∀ a ∈ h.elems, equal less a key = false := by
  rw [represents.found] at none
  exact (find_eq_none consistent represents.toArranged).mp none

omit [DecidableEq α] in
theorem insert_represents (new : α) (allocated : Bool) :
    Represents hash less (if m new = none then m.put less new else m) (h.insert hash less new allocated).1 ∧
      m new = (h.insert hash less new allocated).2 := by
  have found : findElem less (h.buckets (h.findBucket hash new)) new = m new := (represents.found new).symm
  unfold insert
  dsimp only
  rw [found]
  cases has : m new with
  | some old => exact ⟨represents_rehash consistent represents allocated, rfl⟩
  | none =>
    have absent := absent_of_none consistent represents has
    obtain ⟨valid, members⟩ := insertElem_valid consistent represents.toValid absent
    have put : Represents hash less (m.put less new) (h.insertElem (h.findBucket hash new) new) := by
      refine represents_put consistent represents valid fun a => ?_
      rw [members, List.mem_cons]
      exact or_congr Iff.rfl ⟨fun inside => ⟨inside, absent a inside⟩, And.left⟩
    exact ⟨represents_rehash consistent put allocated, rfl⟩

theorem delete_represents (e : α) (allocated : Bool) :
    Represents hash less (m.drop less e) (h.delete hash less e allocated).1 ∧
      m e = (h.delete hash less e allocated).2 := by
  have found : findElem less (h.buckets (h.findBucket hash e)) e = m e := (represents.found e).symm
  unfold delete
  rw [found]
  cases has : m e with
  | some old =>
    have inside := ((represents.some_iff consistent).mp has).1
    obtain ⟨valid, members⟩ := removeElem_valid consistent represents.toValid inside
    have dropped : Represents hash less (m.drop less e) (h.removeElem old) := by
      refine represents_drop consistent represents valid fun a => ?_
      rw [members, mem_erase_of_equal consistent represents has]
    exact ⟨represents_rehash consistent dropped allocated, rfl⟩
  | none =>
    have absent := absent_of_none consistent represents has
    refine ⟨represents_drop consistent represents represents.toValid fun a => ?_, rfl⟩
    exact ⟨fun inside => ⟨inside, absent a inside⟩, And.left⟩

theorem replace_represents (new : α) (allocated : Bool) :
    Represents hash less (m.put less new) (h.replace hash less new allocated).1 ∧
      m new = (h.replace hash less new allocated).2 := by
  have found : findElem less (h.buckets (h.findBucket hash new)) new = m new := (represents.found new).symm
  -- what is left without the old element has none with the new key
  have inserted {left : Hash α} (cnt : left.bucketCnt = h.bucketCnt) (valid : Valid hash less left)
      (members : ∀ a, a ∈ left.elems ↔ a ∈ h.elems ∧ equal less a new = false) :
      Represents hash less (m.put less new) ((left.insertElem (h.findBucket hash new) new).rehash hash allocated) := by
    have bucket : h.findBucket hash new = left.findBucket hash new := by rw [findBucket, findBucket, cnt]
    rw [bucket]
    obtain ⟨valid', members'⟩ := insertElem_valid consistent valid fun a inside => ((members a).mp inside).2
    refine represents_rehash consistent (represents_put consistent represents valid' fun a => ?_) allocated
    rw [members', List.mem_cons, members]
  unfold replace
  dsimp only
  rw [found]
  cases has : m new with
  | some old =>
    have inside := ((represents.some_iff consistent).mp has).1
    obtain ⟨valid, members⟩ := removeElem_valid consistent represents.toValid inside
    refine ⟨inserted rfl valid fun a => ?_, rfl⟩
    rw [members, mem_erase_of_equal consistent represents has]
  | none =>
    have absent := absent_of_none consistent represents has
    exact ⟨inserted rfl represents.toValid fun a => ⟨fun inside => ⟨inside, absent a inside⟩, And.left⟩, rfl⟩

end

theorem perform_refines : Refines (Represents hash less) (specified less) (perform hash less) := by
  intro m h op represents
  cases op with
  | insert new allocated => exact insert_represents consistent represents new allocated
  | replace new allocated => exact replace_represents consistent represents new allocated
  | find e => exact ⟨represents, represents.found e⟩
  | delete e allocated => exact delete_represents consistent represents e allocated

end Operations

section Iteration
variable (h : Hash α)

def Iterator.remaining (h : Hash α) (i : Iterator α) : List α :=
  i.rest ++ (List.range' (i.bucket + 1) (h.bucketCnt - (i.bucket + 1))).flatMap h.buckets

theorem next_remaining (i : Iterator α) :
    (h.next i).2 = (i.remaining h).head? ∧ (h.next i).1.remaining h = (i.remaining h).tail := by
  fun_induction next h i with
  | case1 i e rest list => simp [Iterator.remaining, list]
  | case2 i list more ih =>
    rw [ih.1, ih.2]
    have split : h.bucketCnt - (i.bucket + 1) = h.bucketCnt - (i.bucket + 1 + 1) + 1 := by omega
    simp [Iterator.remaining, list, split, List.range'_succ]
  | case3 i list last =>
    have none : h.bucketCnt - (i.bucket + 1) = 0 := by omega
    have none' : h.bucketCnt - (i.bucket + 1 + 1) = 0 := by omega
    simp [Iterator.remaining, list, none, none']

theorem nexts_remaining (elements : List α) : ∀ i : Iterator α, i.remaining h = elements →
    h.nexts (elements.length + 1) i = elements.map some ++ [none] := by
  induction elements with
  | nil =>
    intro i empty
    simp [nexts, (next_remaining h i).1, empty]
  | cons e rest ih =>
    intro i here
    obtain ⟨visited, left⟩ := next_remaining h i
    rw [here] at visited left
    rw [List.length_cons, nexts, visited, ih _ left]
    rfl

theorem first_remaining (some : 0 < h.bucketCnt) : h.first.remaining h = h.elems := by
  have split : h.bucketCnt = h.bucketCnt - 1 + 1 := by omega
  unfold first Iterator.remaining elems
  rw [List.range_eq_range', split, List.range'_succ]
  simp

end Iteration

/-- For every sequence of operations, the table answers as the map, and is well-formed with exactly the elements of the
map, one for each key, which an iteration visits once each. -/
theorem hash_refines_map [DecidableEq α] (ops : List (Op α))
    (order : IsStrictWeakOrder α fun a b => less a b = true)
    (consistent : ∀ a b, less a b = false → less b a = false → hash a = hash b) :
    let table := replay (perform hash less) Hash.init ops
    let map := replay (specified less) (fun _ => none) ops
    table.2 = map.2 ∧ Valid hash less table.1 ∧ table.1.elems.Nodup ∧
      (∀ a, a ∈ table.1.elems ↔ map.1 a = some a) ∧
      (∀ a ∈ table.1.elems, ∀ b ∈ table.1.elems, less a b = false → less b a = false → a = b) ∧
      table.1.nexts (table.1.elemCnt + 1) table.1.first = table.1.elems.map some ++ [none] := by
  have same : ∀ a b, equal less a b = true → hash a = hash b := fun a b key =>
    consistent a b (equal_iff.mp key).1 (equal_iff.mp key).2
  have empty : Represents hash less (fun _ => none) Hash.init :=
    ⟨⟨⟨⟨2, rfl⟩, Nat.le_refl 4, by simp [init], by simp [init]⟩, by simp [init, elems]⟩, fun _ => rfl⟩
  obtain ⟨represents, answers⟩ := (perform_refines same).replay ops (fun _ => none) Hash.init empty
  have arranged := represents.toArranged
  refine ⟨answers.symm, represents.toValid, elems_nodup same arranged, fun a => ?_, fun a first b second ab ba => ?_, ?_⟩
  · rw [represents.some_iff same]
    exact ⟨fun inside => ⟨inside, equal_refl a⟩, And.left⟩
  · exact elems_unique same arranged first second (equal_iff.mpr ⟨ab, ba⟩)
  · rw [represents.count]
    exact nexts_remaining _ _ _ (first_remaining _ (Nat.lt_of_lt_of_le (by decide) arranged.four))

theorem pageLess_order : IsStrictWeakOrder PageEntry fun a b => pageLess a b = true where
  irrefl a := by simp [pageLess]
  trans a b c first second := by
    simp only [pageLess, decide_eq_true_eq] at first second ⊢
    exact UInt32.lt_trans first second
  incomp_trans a b c first second := by
    simp only [pageLess, decide_eq_true_eq, UInt32.not_lt] at first second ⊢
    exact ⟨UInt32.le_trans second.1 first.1, UInt32.le_trans first.2 second.2⟩

theorem pageHash_consistent (a b : PageEntry) (ab : pageLess a b = false) (ba : pageLess b a = false) :
    pageHash a = pageHash b := by
  simp only [pageLess, decide_eq_false_iff_not, UInt32.not_lt] at ab ba
  rw [pageHash, pageHash, UInt32.le_antisymm ba ab]

/-- The supplemental page table with two entries for one page, the second of which replaces the first. -/
theorem hash_refines_map_pages :
    (replay (perform pageHash pageLess) Hash.init
      [.insert ⟨0x1000, 0x8048000⟩ true, .insert ⟨0x2000, 0x8048000⟩ false, .replace ⟨0x2000, 0x8048000⟩ true]).2 =
        [none, some ⟨0x1000, 0x8048000⟩, some ⟨0x1000, 0x8048000⟩] := by
  have refines := hash_refines_map pageHash pageLess
    [.insert ⟨0x1000, 0x8048000⟩ true, .insert ⟨0x2000, 0x8048000⟩ false, .replace ⟨0x2000, 0x8048000⟩ true]
    pageLess_order pageHash_consistent
  rw [refines.1]
  decide

end Hash

end Pintos.Lib
