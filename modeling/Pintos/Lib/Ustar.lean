import Mathlib.Data.Nat.Digits.Lemmas
import Pintos.Semantics.Words

/-! Headers of ustar archives (`lib/ustar.c`).

A header is 512 bytes of packed fields. Numbers are written in octal by
`snprintf` and read back digit by digit; the checksum is taken over the header
with its own field counted as spaces. The name is stripped when a header is
made and again when one is parsed.
-/

set_option autoImplicit false

namespace Pintos.Ustar
open Semantics

abbrev CString := { bytes : List UInt8 // 0 ∉ bytes }

def slash : UInt8 := 47

def dot : UInt8 := 46

inductive UstarType where
  | regular | directory | eof
  deriving DecidableEq, Repr

/-- The byte in `typeflag`; `USTAR_EOF` is no such value. -/
def UstarType.flag : UstarType → Option UInt8
  | .regular => some 48
  | .directory => some 53
  | .eof => none

def headerSize : Nat := 512

def intMax : Nat := 2 ^ 31 - 1

section Stripping

/-- The condition of the loop. The comparisons stop at the terminator of a shorter name. -/
def antisocial (name : List UInt8) : Bool :=
  [slash].isPrefixOf name || [dot, slash].isPrefixOf name || [dot, dot, slash].isPrefixOf name

def afterSlash (name : List UInt8) : List UInt8 := (name.dropWhile (· ≠ slash)).drop 1

theorem antisocial_cases {name : List UInt8} (bad : antisocial name = true) :
    ∃ rest, name = [slash] ++ rest ∨ name = [dot, slash] ++ rest ∨ name = [dot, dot, slash] ++ rest := by
  simp only [antisocial, Bool.or_eq_true, List.isPrefixOf_iff_prefix] at bad
  obtain (⟨rest, same⟩ | ⟨rest, same⟩) | ⟨rest, same⟩ := bad
  · exact ⟨rest, .inl same.symm⟩
  · exact ⟨rest, .inr (.inl same.symm)⟩
  · exact ⟨rest, .inr (.inr same.symm)⟩

theorem length_afterSlash {name : List UInt8} (bad : antisocial name = true) : (afterSlash name).length < name.length := by
  obtain ⟨rest, rfl | rfl | rfl⟩ := antisocial_cases bad
  all_goals
    simp [afterSlash, slash, dot]
    try omega

/-- The loop; it ends because every turn drops a slash. -/
def dropAntisocial (name : List UInt8) : List UInt8 :=
  if antisocial name = true then dropAntisocial (afterSlash name) else name
termination_by name.length
decreasing_by exact length_afterSlash ‹_›

def stripAntisocialPrefixes (fileName : List UInt8) : List UInt8 :=
  let rest := dropAntisocial fileName
  if rest = [] ∨ rest = [dot, dot] then [dot] else rest

end Stripping

structure Header where
  name : List UInt8
  mode : List UInt8
  uid : List UInt8
  gid : List UInt8
  size : List UInt8
  mtime : List UInt8
  chksum : List UInt8
  typeflag : List UInt8
  linkname : List UInt8
  magic : List UInt8
  version : List UInt8
  uname : List UInt8
  gname : List UInt8
  devmajor : List UInt8
  devminor : List UInt8
  prefixField : List UInt8
  padding : List UInt8

namespace Header

def front (h : Header) : List UInt8 := h.name ++ (h.mode ++ (h.uid ++ (h.gid ++ (h.size ++ h.mtime))))

def back (h : Header) : List UInt8 :=
  h.typeflag ++ (h.linkname ++ (h.magic ++ (h.version ++ (h.uname ++ (h.gname ++ (h.devmajor ++ (h.devminor ++
    (h.prefixField ++ h.padding))))))))

def bytes (h : Header) : List UInt8 := h.front ++ (h.chksum ++ h.back)

end Header

def field (header : List UInt8) (start count : Nat) : List UInt8 := (header.drop start).take count

def calculateChksum (header : List UInt8) : Nat :=
  (List.range headerSize).foldl
    (fun chksum i => chksum + if 148 ≤ i ∧ i < 148 + 8 then 32 else (header.getD i 0).toNat) 0

def formatOctal (width value : Nat) : List UInt8 :=
  let digits := (Nat.digits 8 value).reverse
  (List.replicate (width - digits.length) 0 ++ digits).map fun digit => UInt8.ofNat (48 + digit)

/-- `strlcpy` or `snprintf` into a field that holds zeros. -/
def put (width : Nat) (text : List UInt8) : List UInt8 :=
  let copied := text.take (width - 1)
  copied ++ List.replicate (width - copied.length) 0

inductive Made where
  | header (bytes : List UInt8)
  /-- The file name is too long: the call returns false. -/
  | tooLong
  /-- An assertion about the type. -/
  | panicked
  deriving DecidableEq, Repr

def rootName : List UInt8 := [114, 111, 111, 116]

def ustarMagic : List UInt8 := [117, 115, 116, 97, 114]

/-- The header before its checksum is filled in. -/
def blankHeader (name : List UInt8) (type : UstarType) (flag : UInt8) (size : Int) : Header where
  name := put 100 name
  mode := put 8 (formatOctal 7 (if type = .regular then 0o644 else 0o755))
  uid := put 8 (List.replicate 7 48)
  gid := put 8 (List.replicate 7 48)
  size := put 12 (formatOctal 11 (word32 size))
  mtime := put 12 (formatOctal 11 1136102400)
  chksum := List.replicate 8 0
  typeflag := [flag]
  linkname := List.replicate 100 0
  magic := put 6 ustarMagic
  version := [48, 48]
  uname := put 32 rootName
  gname := put 32 rootName
  devmajor := List.replicate 8 0
  devminor := List.replicate 8 0
  prefixField := List.replicate 155 0
  padding := List.replicate 12 0

def ustarMakeHeader (fileName : List UInt8) (type : UstarType) (size : Int) : Made :=
  match type.flag with
  | none => .panicked
  | some flag =>
    let fileName := stripAntisocialPrefixes fileName
    if 99 < fileName.length then .tooLong
    else
      let h := blankHeader fileName type flag size
      .header { h with chksum := put 8 (formatOctal 7 (calculateChksum h.bytes)) }.bytes

/-- The loop of `parse_octal_field`; `ofs` bytes are behind it. `unsigned long` has 32 bits. -/
def parseOctal : Nat → Nat → List UInt8 → Option Nat
  | _, _, [] => none
  | ofs, value, c :: rest =>
    if 48 ≤ c ∧ c ≤ 55 then
      if (2 ^ 32 - 1) / 8 < value then none else parseOctal (ofs + 1) (c.toNat - 48 + value * 8) rest
    else if c = 32 ∨ c = 0 then if 0 < ofs then some value else none
    else none

def parseOctalField (s : List UInt8) : Option Nat := parseOctal 0 0 s

def isAllZeros (block : List UInt8) : Bool := block.all (· == 0)

structure Parsed where
  fileName : Option (List UInt8)
  type : UstarType
  size : Int
  deriving DecidableEq, Repr

def stringAt (header : List UInt8) (start : Nat) : List UInt8 := (header.drop start).takeWhile (· ≠ 0)

def ustarParseHeader (header : List UInt8) : Except String Parsed :=
  if isAllZeros header then .ok ⟨none, .eof, 0⟩
  else if field header 257 6 ≠ ustarMagic ++ [0] then .error "not a ustar archive"
  else if field header 263 2 ≠ [48, 48] then .error "invalid ustar version"
  else
    match parseOctalField (field header 148 8) with
    | none => .error "corrupt chksum field"
    | some chksum =>
      if chksum ≠ calculateChksum header then .error "checksum mismatch"
      else if header.getD 99 0 ≠ 0 ∨ header.getD 345 0 ≠ 0 then .error "file name too long"
      else
        let fileName := stripAntisocialPrefixes (stringAt header 0)
        if field header 156 1 = [48] then
          match parseOctalField (field header 124 12) with
          | none => .error "corrupt file size field"
          | some size => if intMax < size then .error "file too large" else .ok ⟨some fileName, .regular, size⟩
        else if field header 156 1 = [53] then .ok ⟨some fileName, .directory, 0⟩
        else .error "unimplemented file type"

section Stripped

variable {name : List UInt8}

theorem dropAntisocial_of_bad (bad : antisocial name = true) :
    dropAntisocial name = dropAntisocial (afterSlash name) := by
  rw [dropAntisocial, if_pos bad]

theorem dropAntisocial_of_good (good : antisocial name = false) : dropAntisocial name = name := by
  rw [dropAntisocial, if_neg (by simp [good])]

theorem antisocial_dropAntisocial (name : List UInt8) : antisocial (dropAntisocial name) = false := by
  induction name using dropAntisocial.induct with
  | case1 name bad ih => rwa [dropAntisocial_of_bad bad]
  | case2 name good => rwa [dropAntisocial_of_good (by simpa using good), ← Bool.not_eq_true]

/-- The loop makes finitely many turns and stops at the first name that is harmless. -/
theorem dropAntisocial_turns (name : List UInt8) :
    ∃ turns, (∀ turn < turns, antisocial (afterSlash^[turn] name) = true) ∧
      antisocial (afterSlash^[turns] name) = false ∧ dropAntisocial name = afterSlash^[turns] name := by
  induction name using dropAntisocial.induct with
  | case1 name bad ih =>
    obtain ⟨turns, before, ends, same⟩ := ih
    refine ⟨turns + 1, fun turn early => ?_, ends, (dropAntisocial_of_bad bad).trans same⟩
    cases turn with
    | zero => exact bad
    | succ turn => exact before turn (by omega)
  | case2 name good => exact ⟨0, nofun, by simpa using good, dropAntisocial_of_good (by simpa using good)⟩

theorem dropAntisocial_subset {byte : UInt8} (inside : byte ∈ dropAntisocial name) : byte ∈ name := by
  induction name using dropAntisocial.induct with
  | case1 name bad ih =>
    rw [dropAntisocial_of_bad bad] at inside
    exact (List.dropWhile_suffix _).subset (List.mem_of_mem_drop (ih inside))
  | case2 name good => rwa [dropAntisocial_of_good (by simpa using good)] at inside

structure Harmless (name : List UInt8) : Prop where
  social : antisocial name = false
  nonempty : name ≠ []
  inside : name ≠ [dot, dot]

theorem harmless_strip (name : List UInt8) : Harmless (stripAntisocialPrefixes name) := by
  unfold stripAntisocialPrefixes
  dsimp only
  split_ifs with last
  · exact ⟨by decide, by decide, by decide⟩
  · rw [not_or] at last
    exact ⟨antisocial_dropAntisocial name, last.1, last.2⟩

theorem Harmless.strip (harmless : Harmless name) : stripAntisocialPrefixes name = name := by
  unfold stripAntisocialPrefixes
  rw [dropAntisocial_of_good harmless.social]
  exact if_neg (not_or.mpr ⟨harmless.nonempty, harmless.inside⟩)

theorem zero_not_mem_strip (ends : 0 ∉ name) : 0 ∉ stripAntisocialPrefixes name := by
  unfold stripAntisocialPrefixes
  dsimp only
  split_ifs
  · decide
  · exact fun inside => ends (dropAntisocial_subset inside)

end Stripped

section Octal

def octalValue (value : Nat) (digits : List Nat) : Nat := digits.foldl (fun value digit => digit + value * 8) value

theorem le_octalValue (value : Nat) (digits : List Nat) : value ≤ octalValue value digits := by
  induction digits generalizing value with
  | nil => exact Nat.le_refl _
  | cons digit digits ih =>
    have := ih (digit + value * 8)
    simp only [octalValue, List.foldl_cons] at this ⊢
    omega

theorem octalValue_append (value : Nat) (first rest : List Nat) :
    octalValue value (first ++ rest) = octalValue (octalValue value first) rest := List.foldl_append

theorem octalValue_zeros (count : Nat) : octalValue 0 (List.replicate count 0) = 0 := by
  induction count with
  | zero => rfl
  | succ count ih => rwa [List.replicate_succ, octalValue, List.foldl_cons]

theorem octalValue_eq (digits : List Nat) : octalValue 0 digits = Nat.ofDigits 8 digits.reverse := by
  rw [octalValue, Nat.ofDigits_eq_foldr, List.foldr_reverse]
  simp [Nat.mul_comm]

theorem octalValue_digits (value : Nat) : octalValue 0 (Nat.digits 8 value).reverse = value := by
  rw [octalValue_eq, List.reverse_reverse, Nat.ofDigits_digits]

def digitByte (digit : Nat) : UInt8 := UInt8.ofNat (48 + digit)

variable {digit value width : Nat}

theorem toNat_digitByte (small : digit < 8) : (digitByte digit).toNat = 48 + digit := by
  rw [digitByte, UInt8.toNat_ofNat', Nat.mod_eq_of_lt (by omega)]

theorem digitByte_octal (small : digit < 8) : 48 ≤ digitByte digit ∧ digitByte digit ≤ 55 := by
  have value := toNat_digitByte small
  have low : (48 : UInt8).toNat = 48 := rfl
  have high : (55 : UInt8).toNat = 55 := rfl
  rw [UInt8.le_iff_toNat_le, UInt8.le_iff_toNat_le, value, low, high]
  omega

/-- Octal digits and a terminator are read as their value, if it is one of an `unsigned long`. -/
theorem parseOctal_digits {digits : List Nat} (octal : ∀ digit ∈ digits, digit < 8) {ofs : Nat}
    (some : 0 < ofs + digits.length) (fits : octalValue value digits < 2 ^ 32) {stop : UInt8} (ends : stop = 32 ∨ stop = 0)
    (rest : List UInt8) : parseOctal ofs value (digits.map digitByte ++ stop :: rest) = .some (octalValue value digits) := by
  induction digits generalizing ofs value with
  | nil =>
    have positive : 0 < ofs := by simpa using some
    have other : ¬(48 ≤ stop ∧ stop ≤ 55) := by
      rcases ends with rfl | rfl <;> decide
    rw [List.map_nil, List.nil_append, parseOctal, if_neg other, if_pos ends, if_pos positive]
    rfl
  | cons digit digits ih =>
    have small := octal digit (by simp)
    have grows := le_octalValue (digit + value * 8) digits
    have next : octalValue value (digit :: digits) = octalValue (digit + value * 8) digits := rfl
    rw [next] at fits ⊢
    have byte : (digitByte digit).toNat - 48 = digit := by
      rw [toNat_digitByte small]
      omega
    rw [List.map_cons, List.cons_append, parseOctal, if_pos (digitByte_octal small), if_neg (by omega), byte]
    exact ih (fun digit member => octal digit (by simp [member])) (by omega) fits

theorem parseOctal_some {s : List UInt8} {ofs result : Nat} (small : value < 2 ^ 32)
    (parsed : parseOctal ofs value s = some result) :
    ∃ digits stop rest, (∀ digit ∈ digits, digit < 8) ∧ 0 < ofs + digits.length ∧ (stop = 32 ∨ stop = 0) ∧
      s = digits.map digitByte ++ stop :: rest ∧ octalValue value digits = result ∧ result < 2 ^ 32 := by
  induction s generalizing ofs value with
  | nil => cases parsed
  | cons c rest ih =>
    rw [parseOctal] at parsed
    split at parsed <;> rename_i octal
    · split at parsed <;> rename_i fits
      · cases parsed
      rw [UInt8.le_iff_toNat_le, UInt8.le_iff_toNat_le] at octal
      change 48 ≤ c.toNat ∧ c.toNat ≤ 55 at octal
      obtain ⟨digits, stop, behind, low, -, ends, rfl, total, bound⟩ := ih (by omega) parsed
      have byte : digitByte (c.toNat - 48) = c := by
        rw [digitByte, Nat.add_sub_cancel' octal.1, UInt8.ofNat_toNat]
      refine ⟨(c.toNat - 48) :: digits, stop, behind, ?_, by simp, ends, by simp [byte], total, bound⟩
      rintro digit (_ | ⟨_, member⟩)
      · omega
      · exact low digit member
    · split at parsed <;> rename_i ends
      · split at parsed <;> rename_i positive
        · cases parsed
          exact ⟨[], c, rest, by simp, positive, ends, rfl, rfl, small⟩
        · cases parsed
      · cases parsed

def paddedDigits (width value : Nat) : List Nat :=
  List.replicate (width - (Nat.digits 8 value).length) 0 ++ (Nat.digits 8 value).reverse

theorem formatOctal_eq (width value : Nat) : formatOctal width value = (paddedDigits width value).map digitByte := by
  unfold formatOctal paddedDigits digitByte
  simp only [List.length_reverse]

theorem length_paddedDigits (fits : value < 8 ^ width) : (paddedDigits width value).length = width := by
  have short : (Nat.digits 8 value).length ≤ width := (Nat.digits_length_le_iff (by decide) value).mpr fits
  simp only [paddedDigits, List.length_append, List.length_replicate, List.length_reverse]
  omega

theorem paddedDigits_lt (member : digit ∈ paddedDigits width value) : digit < 8 := by
  rw [paddedDigits, List.mem_append] at member
  obtain zero | inside := member
  · rw [(List.mem_replicate.mp zero).2]
    decide
  · exact Nat.digits_lt_base (by decide) (List.mem_reverse.mp inside)

theorem octalValue_paddedDigits (width value : Nat) : octalValue 0 (paddedDigits width value) = value := by
  rw [paddedDigits, octalValue_append, octalValue_zeros, octalValue_digits]

theorem length_put (positive : 0 < width) (text : List UInt8) : (put width text).length = width := by
  simp only [put, List.length_append, List.length_take, List.length_replicate]
  omega

theorem parseOctalField_put (positive : 0 < width) (fits : value < 8 ^ width) (small : value < 2 ^ 32) :
    parseOctalField (put (width + 1) (formatOctal width value)) = some value := by
  have length := length_paddedDigits fits
  have whole : put (width + 1) (formatOctal width value) = (paddedDigits width value).map digitByte ++ [0] := by
    have fill : width + 1 - width = 1 := by omega
    rw [put, formatOctal_eq, Nat.add_sub_cancel, List.take_of_length_le (by simp [length]), List.length_map, length, fill]
    rfl
  have number := octalValue_paddedDigits width value
  have octal : ∀ digit ∈ paddedDigits width value, digit < 8 := fun _ => paddedDigits_lt
  rw [whole, parseOctalField, parseOctal_digits octal (by omega) (by omega) (.inr rfl), number]

end Octal

section Layout
variable {h : Header}

structure Header.Sized (h : Header) : Prop where
  name : h.name.length = 100
  mode : h.mode.length = 8
  uid : h.uid.length = 8
  gid : h.gid.length = 8
  size : h.size.length = 12
  mtime : h.mtime.length = 12
  chksum : h.chksum.length = 8
  typeflag : h.typeflag.length = 1
  linkname : h.linkname.length = 100
  magic : h.magic.length = 6
  version : h.version.length = 2
  uname : h.uname.length = 32
  gname : h.gname.length = 32
  devmajor : h.devmajor.length = 8
  devminor : h.devminor.length = 8
  prefixField : h.prefixField.length = 155
  padding : h.padding.length = 12

theorem field_skip {first : List UInt8} {width start : Nat} (wide : first.length = width) (behind : width ≤ start)
    (rest : List UInt8) (count : Nat) : field (first ++ rest) start count = field rest (start - width) count := by
  rw [field, List.drop_append, List.drop_of_length_le (by omega), List.nil_append, wide]
  rfl

theorem field_here {first : List UInt8} {width : Nat} (wide : first.length = width) (rest : List UInt8) :
    field (first ++ rest) 0 width = first := by
  rw [field, List.drop_zero, ← wide, List.take_left]

theorem Header.bytes_eq (h : Header) :
    h.bytes = h.name ++ (h.mode ++ (h.uid ++ (h.gid ++ (h.size ++ (h.mtime ++ (h.chksum ++ h.back)))))) := by
  simp [bytes, front]

namespace Header.Sized
variable (sized : h.Sized)
include sized

theorem length_front : h.front.length = 148 := by
  simp [front, sized.name, sized.mode, sized.uid, sized.gid, sized.size, sized.mtime]

theorem length_back : h.back.length = 356 := by
  simp [back, sized.typeflag, sized.linkname, sized.magic, sized.version, sized.uname, sized.gname, sized.devmajor,
    sized.devminor, sized.prefixField, sized.padding]

theorem length_bytes : h.bytes.length = headerSize := by
  simp [bytes, sized.length_front, sized.chksum, sized.length_back, headerSize]

theorem field_name : field h.bytes 0 100 = h.name := by
  rw [h.bytes_eq, field_here sized.name]

theorem field_size : field h.bytes 124 12 = h.size := by
  rw [h.bytes_eq, field_skip sized.name (by decide), field_skip sized.mode (by decide),
    field_skip sized.uid (by decide), field_skip sized.gid (by decide)]
  exact field_here sized.size _

theorem field_chksum : field h.bytes 148 8 = h.chksum := by
  rw [bytes, field_skip sized.length_front (by decide)]
  exact field_here sized.chksum _

theorem field_back {start : Nat} (behind : 156 ≤ start) (count : Nat) :
    field h.bytes start count = field h.back (start - 156) count := by
  have offset : start - 148 - 8 = start - 156 := by omega
  rw [bytes, field_skip sized.length_front (by omega), field_skip sized.chksum (by omega), offset]

theorem field_typeflag : field h.bytes 156 1 = h.typeflag := by
  rw [sized.field_back (by decide)]
  exact field_here sized.typeflag _

theorem field_magic : field h.bytes 257 6 = h.magic := by
  rw [sized.field_back (by decide), back, field_skip sized.typeflag (by decide), field_skip sized.linkname (by decide)]
  exact field_here sized.magic _

theorem field_version : field h.bytes 263 2 = h.version := by
  rw [sized.field_back (by decide), back, field_skip sized.typeflag (by decide), field_skip sized.linkname (by decide),
    field_skip sized.magic (by decide)]
  exact field_here sized.version _

theorem field_leading : field h.bytes 345 155 = h.prefixField := by
  rw [sized.field_back (by decide), back, field_skip sized.typeflag (by decide), field_skip sized.linkname (by decide),
    field_skip sized.magic (by decide), field_skip sized.version (by decide), field_skip sized.uname (by decide),
    field_skip sized.gname (by decide), field_skip sized.devmajor (by decide), field_skip sized.devminor (by decide)]
  exact field_here sized.prefixField _

/-- The checksum does not depend on what is in its own field. -/
theorem calculateChksum_set {chksum : List UInt8} (wide : chksum.length = 8) :
    calculateChksum { h with chksum := chksum }.bytes = calculateChksum h.bytes := by
  refine List.foldl_ext _ _ _ fun sum i _ => ?_
  split_ifs with own
  · rfl
  · have front : ({ h with chksum := chksum } : Header).front = h.front := rfl
    have back : ({ h with chksum := chksum } : Header).back = h.back := rfl
    simp only [bytes, front, back, List.getD_eq_getElem?_getD, List.getElem?_append, sized.length_front, sized.chksum,
      wide]
    split_ifs
    · rfl
    · omega
    · rfl

end Header.Sized

theorem getD_field (header : List UInt8) (start count : Nat) {index : Nat} (inside : index < count) :
    header.getD (start + index) 0 = (field header start count).getD index 0 := by
  simp only [field, List.getD_eq_getElem?_getD, List.getElem?_take, if_pos inside, List.getElem?_drop]

theorem calculateChksum_lt (header : List UInt8) : calculateChksum header < 8 ^ 7 := by
  have bound (count : Nat) : (List.range count).foldl
      (fun chksum i => chksum + if 148 ≤ i ∧ i < 148 + 8 then 32 else (header.getD i 0).toNat) 0 ≤ 255 * count := by
    induction count with
    | zero => simp
    | succ count ih =>
      have byte := (header.getD count 0).toNat_lt
      rw [List.range_succ, List.foldl_append, List.foldl_cons, List.foldl_nil]
      split_ifs <;> omega
  have whole := bound headerSize
  have size : headerSize = 512 := rfl
  rw [calculateChksum]
  omega

theorem sized_blankHeader (name : List UInt8) (type : UstarType) (flag : UInt8) (size : Int) :
    (blankHeader name type flag size).Sized where
  name := length_put (by decide) _
  mode := length_put (by decide) _
  uid := length_put (by decide) _
  gid := length_put (by decide) _
  size := length_put (by decide) _
  mtime := length_put (by decide) _
  chksum := List.length_replicate
  typeflag := rfl
  linkname := List.length_replicate
  magic := length_put (by decide) _
  version := rfl
  uname := length_put (by decide) _
  gname := length_put (by decide) _
  devmajor := List.length_replicate
  devminor := List.length_replicate
  prefixField := List.length_replicate
  padding := List.length_replicate

theorem Header.Sized.set_chksum (sized : h.Sized) {chksum : List UInt8} (wide : chksum.length = 8) :
    ({ h with chksum := chksum } : Header).Sized := { sized with chksum := wide }

theorem takeWhile_put {name rest : List UInt8} (ends : 0 ∉ name) (short : name.length ≤ 99) :
    (put 100 name ++ rest).takeWhile (· ≠ 0) = name := by
  have some : ∀ byte ∈ name, decide (byte ≠ 0) = true :=
    fun byte inside => decide_eq_true fun null => ends (null ▸ inside)
  have fill : 100 - name.length = (99 - name.length) + 1 := by omega
  rw [put, List.take_of_length_le short, fill, List.replicate_succ, List.append_assoc, List.takeWhile_append_of_pos some]
  simp

end Layout

section RoundTrip
variable {name : List UInt8} {type : UstarType} {flag : UInt8} {size : Int}

def finished (name : List UInt8) (type : UstarType) (flag : UInt8) (size : Int) : Header :=
  { blankHeader name type flag size with
    chksum := put 8 (formatOctal 7 (calculateChksum (blankHeader name type flag size).bytes)) }

theorem sized_finished (name : List UInt8) (type : UstarType) (flag : UInt8) (size : Int) :
    (finished name type flag size).Sized :=
  (sized_blankHeader name type flag size).set_chksum (length_put (by decide) _)

theorem ustarMakeHeader_header {fileName : List UInt8} (known : type.flag = some flag)
    (short : (stripAntisocialPrefixes fileName).length ≤ 99) :
    ustarMakeHeader fileName type size = .header (finished (stripAntisocialPrefixes fileName) type flag size).bytes := by
  rw [ustarMakeHeader, known]
  exact if_neg (Nat.not_lt.mpr short)

theorem isAllZeros_finished : isAllZeros (finished name type flag size).bytes = false := by
  have sized := sized_finished name type flag size
  have magic : (117 : UInt8) ∈ field (finished name type flag size).bytes 257 6 := by
    rw [sized.field_magic]
    exact show 117 ∈ put 6 ustarMagic by decide
  have inside : (117 : UInt8) ∈ (finished name type flag size).bytes := List.mem_of_mem_drop (List.mem_of_mem_take magic)
  rw [isAllZeros, List.all_eq_false]
  exact ⟨117, inside, by decide⟩

theorem parse_chksum :
    parseOctalField (field (finished name type flag size).bytes 148 8) =
      some (calculateChksum (finished name type flag size).bytes) := by
  have sum : calculateChksum (finished name type flag size).bytes =
      calculateChksum (blankHeader name type flag size).bytes :=
    (sized_blankHeader name type flag size).calculateChksum_set (length_put (by decide) _)
  have low := calculateChksum_lt (blankHeader name type flag size).bytes
  rw [(sized_finished name type flag size).field_chksum, sum]
  exact parseOctalField_put (by decide) low (by omega)

theorem parse_size (low : 0 ≤ size) (high : size ≤ intMax) :
    parseOctalField (field (finished name type flag size).bytes 124 12) = some size.toNat := by
  have most : intMax = 2 ^ 31 - 1 := rfl
  have word : word32 size = size.toNat := by
    unfold word32
    omega
  have field : (finished name type flag size).size = put 12 (formatOctal 11 size.toNat) := by
    rw [← word]
    rfl
  rw [(sized_finished name type flag size).field_size, field]
  exact parseOctalField_put (by decide) (by omega) (by omega)

theorem name_ends (short : name.length ≤ 99) : (finished name type flag size).bytes.getD 99 0 = 0 := by
  have sized := sized_finished name type flag size
  have last := getD_field (finished name type flag size).bytes 0 100 (show 99 < 100 by decide)
  rw [Nat.zero_add] at last
  rw [last, sized.field_name]
  have field : (finished name type flag size).name = put 100 name := rfl
  rw [field, put, List.take_of_length_le short, List.getD_eq_getElem?_getD, List.getElem?_append_right short,
    List.getElem?_replicate]
  split <;> rfl

theorem leading_ends : (finished name type flag size).bytes.getD 345 0 = 0 := by
  have first := getD_field (finished name type flag size).bytes 345 155 (show 0 < 155 by decide)
  rw [Nat.add_zero] at first
  rw [first, (sized_finished name type flag size).field_leading]
  rfl

theorem stringAt_name (ends : 0 ∉ name) (short : name.length ≤ 99) :
    stringAt (finished name type flag size).bytes 0 = name := by
  rw [stringAt, List.drop_zero, Header.bytes_eq]
  exact takeWhile_put ends short

theorem ustarParseHeader_finished (known : type.flag = some flag) (ends : 0 ∉ name) (short : name.length ≤ 99)
    (harmless : Harmless name) (low : 0 ≤ size) (high : size ≤ intMax) :
    ustarParseHeader (finished name type flag size).bytes =
      .ok ⟨some name, type, if type = .directory then 0 else size⟩ := by
  have sized := sized_finished name type flag size
  have magic : field (finished name type flag size).bytes 257 6 = ustarMagic ++ [0] := sized.field_magic
  have version : field (finished name type flag size).bytes 263 2 = [48, 48] := sized.field_version
  have typeflag : field (finished name type flag size).bytes 156 1 = [flag] := sized.field_typeflag
  unfold ustarParseHeader
  simp only [isAllZeros_finished, magic, version, parse_chksum, name_ends short, leading_ends, stringAt_name ends short,
    harmless.strip, typeflag, parse_size low high, Bool.false_eq_true, if_false, ne_eq, not_true_eq_false, or_self]
  cases type with
  | regular =>
    obtain rfl : flag = 48 := (Option.some.inj known).symm
    have fits : ¬ intMax < size.toNat := by omega
    have same : (size.toNat : Int) = size := by omega
    simp [fits, same]
  | directory =>
    obtain rfl : flag = 53 := (Option.some.inj known).symm
    simp
  | eof => cases known

/-- Headers round-trip, and stripping a name ends, once and for all, in a harmless one. -/
theorem ustar_headers_round_trip (fileName : CString) :
    (∀ (type : UstarType) (size : Int), type ≠ .eof → 0 ≤ size → size ≤ intMax →
      (stripAntisocialPrefixes fileName.val).length ≤ 99 →
        ∃ header, ustarMakeHeader fileName.val type size = .header header ∧ header.length = headerSize ∧
          ustarParseHeader header =
            .ok ⟨some (stripAntisocialPrefixes fileName.val), type, if type = .directory then 0 else size⟩) ∧
      (∃ turns, (∀ turn < turns, antisocial (afterSlash^[turn] fileName.val) = true) ∧
        antisocial (afterSlash^[turns] fileName.val) = false ∧
          dropAntisocial fileName.val = afterSlash^[turns] fileName.val) ∧
      stripAntisocialPrefixes (stripAntisocialPrefixes fileName.val) = stripAntisocialPrefixes fileName.val ∧
      ¬ [slash] <+: stripAntisocialPrefixes fileName.val ∧ ¬ [dot, slash] <+: stripAntisocialPrefixes fileName.val ∧
      ¬ [dot, dot, slash] <+: stripAntisocialPrefixes fileName.val ∧
      stripAntisocialPrefixes fileName.val ≠ [] ∧ stripAntisocialPrefixes fileName.val ≠ [dot, dot] := by
  have harmless := harmless_strip fileName.val
  refine ⟨fun type size known low high short => ?_, dropAntisocial_turns fileName.val, harmless.strip, ?_⟩
  · obtain ⟨flag, same⟩ : ∃ flag, type.flag = some flag := by
      cases type with
      | regular => exact ⟨_, rfl⟩
      | directory => exact ⟨_, rfl⟩
      | eof => exact absurd rfl known
    exact ⟨_, ustarMakeHeader_header same short, (sized_finished _ type flag size).length_bytes,
      ustarParseHeader_finished same (zero_not_mem_strip fileName.property) short harmless low high⟩
  · have social := harmless.social
    simp only [antisocial, Bool.or_eq_false_iff] at social
    simp only [← Bool.not_eq_true, List.isPrefixOf_iff_prefix] at social
    exact ⟨social.1.1, social.1.2, social.2, harmless.nonempty, harmless.inside⟩

/-- A header for `../etc/x` of 1000 bytes is one for `etc/x`. -/
theorem ustar_dotted_name :
    ∃ header, ustarMakeHeader [46, 46, 47, 101, 116, 99, 47, 120] .regular 1000 = .header header ∧
      ustarParseHeader header = .ok ⟨some [101, 116, 99, 47, 120], .regular, 1000⟩ := by
  have stripped : stripAntisocialPrefixes [46, 46, 47, 101, 116, 99, 47, 120] = [101, 116, 99, 47, 120] := by
    have dropped : dropAntisocial [46, 46, 47, 101, 116, 99, 47, 120] = [101, 116, 99, 47, 120] := by
      rw [dropAntisocial_of_bad (by decide)]
      exact dropAntisocial_of_good (by decide)
    rw [stripAntisocialPrefixes, dropped]
    decide
  obtain ⟨header, made, -, parsed⟩ := (ustar_headers_round_trip ⟨[46, 46, 47, 101, 116, 99, 47, 120], by decide⟩).1
    .regular 1000 (by decide) (by decide) (by decide) (by rw [stripped]; decide)
  rw [stripped] at parsed
  exact ⟨header, made, parsed⟩

end RoundTrip

section Detection
variable {header : List UInt8} {position : Nat}

theorem accepted_checksum {parsed : Parsed} (accepted : ustarParseHeader header = .ok parsed) (file : parsed.type ≠ .eof) :
    parseOctalField (field header 148 8) = some (calculateChksum header) := by
  unfold ustarParseHeader at accepted
  split at accepted
  · cases accepted
    exact absurd rfl file
  split at accepted
  · cases accepted
  split at accepted
  · cases accepted
  split at accepted
  · cases accepted
  rename_i chksum read
  split at accepted <;> rename_i same
  · cases accepted
  · rw [read, not_not.mp same]

variable (inside : position < headerSize) (outside : ¬(148 ≤ position ∧ position < 156)) (byte : UInt8)

theorem field_set (outside : ¬(148 ≤ position ∧ position < 156)) :
    field (header.set position byte) 148 8 = field header 148 8 := by
  rw [field, field]
  by_cases before : position < 148
  · rw [List.drop_set_of_lt before]
  · rw [List.drop_set, if_neg before, List.take_set_of_le (by omega)]

include inside outside

/-- A changed byte changes the sum as it changes itself. -/
theorem calculateChksum_change (whole : header.length = headerSize) :
    calculateChksum (header.set position byte) + (header.getD position 0).toNat = calculateChksum header + byte.toNat := by
  have partialSum (count : Nat) (most : count ≤ headerSize) : (List.range count).foldl
        (fun chksum i => chksum + if 148 ≤ i ∧ i < 148 + 8 then 32 else ((header.set position byte).getD i 0).toNat) 0 +
          (if position < count then (header.getD position 0).toNat else 0) =
      (List.range count).foldl
        (fun chksum i => chksum + if 148 ≤ i ∧ i < 148 + 8 then 32 else (header.getD i 0).toNat) 0 +
          if position < count then byte.toNat else 0 := by
    induction count with
    | zero => rfl
    | succ count ih =>
      have before := ih (by omega)
      rw [List.range_succ, List.foldl_append, List.foldl_append, List.foldl_cons, List.foldl_nil, List.foldl_cons,
        List.foldl_nil]
      by_cases here : position = count
      · subst here
        have written : (header.set position byte).getD position 0 = byte := by
          simp [List.getD_eq_getElem?_getD, whole, inside]
        rw [if_neg (Nat.lt_irrefl _), if_neg (Nat.lt_irrefl _)] at before
        rw [if_pos (Nat.lt_succ_self _), if_pos (Nat.lt_succ_self _), if_neg outside, if_neg outside, written]
        omega
      · have kept : (header.set position byte).getD count 0 = header.getD count 0 := by
          simp [List.getD_eq_getElem?_getD, here]
        have passed : position < count + 1 ↔ position < count := by omega
        simp only [passed, kept]
        omega
  have total := partialSum headerSize (Nat.le_refl _)
  rwa [if_pos inside, if_pos inside] at total

end Detection

/-- The checksum detects a change of any byte but its own, and an octal field is read
exactly if it holds a number. -/
theorem ustar_detects_changes :
    (∀ header : List UInt8, header.length = headerSize → ∀ parsed, ustarParseHeader header = .ok parsed →
      parsed.type ≠ .eof → ∀ position < headerSize, ¬(148 ≤ position ∧ position < 156) →
        ∀ byte, byte ≠ header.getD position 0 →
          ∃ message, ustarParseHeader (header.set position byte) = .error message) ∧
    ∀ (s : List UInt8) (value : Nat), parseOctalField s = some value ↔
      ∃ digits stop rest, digits ≠ [] ∧ (∀ digit ∈ digits, digit < 8) ∧ (stop = 32 ∨ stop = 0) ∧
        s = digits.map (fun digit => UInt8.ofNat (48 + digit)) ++ stop :: rest ∧
        Nat.ofDigits 8 digits.reverse = value ∧ value < 2 ^ 32 := by
  refine ⟨fun header whole parsed accepted file position inside outside byte different => ?_, fun s value => ⟨fun read => ?_, ?_⟩⟩
  · have checksum := accepted_checksum accepted file
    have same : field (header.set position byte) 148 8 = field header 148 8 := field_set byte outside
    have nonzero : isAllZeros (header.set position byte) = false := by
      -- the checksum field starts with a digit
      obtain ⟨digits, stop, rest, low, some, -, content, -⟩ := parseOctal_some (by decide) checksum
      obtain ⟨digit, digits, rfl⟩ := List.exists_cons_of_length_pos (by omega : 0 < digits.length)
      have member : digitByte digit ∈ header.set position byte := by
        have first : digitByte digit ∈ field (header.set position byte) 148 8 := by
          rw [same, content]
          exact List.mem_append_left _ (by simp)
        exact List.mem_of_mem_drop (List.mem_of_mem_take first)
      have digitValue := toNat_digitByte (low digit (by simp))
      rw [isAllZeros, List.all_eq_false]
      refine ⟨_, member, fun zero => ?_⟩
      rw [beq_iff_eq.mp zero] at digitValue
      have none : (0 : UInt8).toNat = 0 := rfl
      omega
    have changed := calculateChksum_change inside outside byte whole
    have differs : calculateChksum header ≠ calculateChksum (header.set position byte) := by
      intro equal
      have bytes : byte.toNat = (header.getD position 0).toNat := by omega
      exact different (UInt8.toNat_inj.mp bytes)
    rw [ustarParseHeader, nonzero, if_neg Bool.false_ne_true]
    split
    · exact ⟨_, rfl⟩
    split
    · exact ⟨_, rfl⟩
    rw [same, checksum]
    dsimp only
    rw [if_pos differs]
    exact ⟨_, rfl⟩
  · obtain ⟨digits, stop, rest, low, some, ends, content, total, small⟩ := parseOctal_some (by decide) read
    refine ⟨digits, stop, rest, List.ne_nil_of_length_pos (by omega), low, ends, content, ?_, small⟩
    rw [← octalValue_eq, total]
  · rintro ⟨digits, stop, rest, some, low, ends, rfl, rfl, small⟩
    have positive := List.length_pos_of_ne_nil some
    rw [← octalValue_eq] at small ⊢
    exact parseOctal_digits low (by omega) small ends rest

/-- A header for the file `x` with another first byte. -/
theorem ustar_detects_changes_renamed : ∃ header message, ustarMakeHeader [120] .regular 1000 = .header header ∧
    ustarParseHeader (header.set 0 121) = .error message := by
  have stripped : stripAntisocialPrefixes [120] = [120] := by
    rw [stripAntisocialPrefixes, dropAntisocial_of_good (by decide)]
    decide
  have harmless := harmless_strip [120]
  rw [stripped] at harmless
  have made : ustarMakeHeader [120] .regular 1000 = .header (finished [120] .regular 48 1000).bytes := by
    have header : ustarMakeHeader [120] .regular 1000 = _ := ustarMakeHeader_header rfl (by rw [stripped]; decide)
    rwa [stripped] at header
  obtain ⟨message, detected⟩ := ustar_detects_changes.1 (finished [120] .regular 48 1000).bytes
    (sized_finished _ _ _ _).length_bytes _
    (ustarParseHeader_finished rfl (by decide) (by decide) harmless (by decide) (by decide)) (by decide) 0 (by decide) (by decide)
    121 (by decide +kernel)
  exact ⟨_, message, made, detected⟩

end Pintos.Ustar
