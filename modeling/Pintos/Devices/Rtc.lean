import Mathlib.Algebra.Group.Int.Defs
import Mathlib.Algebra.Group.Nat.Defs
import Mathlib.Data.List.Basic
import Pintos.Semantics.Words

/-! The time of the real-time clock (`devices/rtc.c`).

The clock is given by what each read of one of its registers returns. `time_t` is
an unsigned number of 32 bits. Beside the function of the source stands the number
of seconds by the calendar, counted year by year and month by month.
-/

set_option autoImplicit false

namespace Pintos.Devices.Rtc
open Semantics

section Clock

def bcdToBin (x : UInt8) : Int := (x &&& 0x0f).toNat + (x >>> 4).toNat * 10

/-- `cmos_read`: what a read, counted from the first one, of a register returns. -/
abbrev Clock := Nat → Nat → UInt8

structure Components where
  sec : Int
  min : Int
  hour : Int
  mday : Int
  mon : Int
  year : Int

def readComponents (clock : Clock) : Nat → Nat → Option Components
  | 0, _ => none
  | rounds + 1, reads =>
    let sec := bcdToBin (clock reads 0)
    let min := bcdToBin (clock (reads + 1) 2)
    let hour := bcdToBin (clock (reads + 2) 4)
    let mday := bcdToBin (clock (reads + 3) 7)
    let mon := bcdToBin (clock (reads + 4) 8)
    let year := bcdToBin (clock (reads + 5) 9)
    if sec ≠ bcdToBin (clock (reads + 6) 0) then readComponents clock rounds (reads + 7)
    else some ⟨sec, min, hour, mday, mon, year⟩

def daysPerMonth : List Nat := [31, 28, 31, 30, 31, 30, 31, 31, 30, 31, 30, 31]

def addMonths (mon time : Nat) : Nat :=
  (List.range mon).foldl (fun time i => word32 (time + daysPerMonth.getD i 0 * 24 * 60 * 60)) time

def toTime (c : Components) : Nat :=
  let year := (if c.year < 70 then c.year + 100 else c.year) - 70
  let time := word32 ((year * 365 + (year - 1).tdiv 4) * 24 * 60 * 60)
  let time := addMonths c.mon.toNat time
  let time := if 2 < c.mon ∧ year.tmod 4 = 0 then word32 (time + 24 * 60 * 60) else time
  let time := word32 (time + (c.mday - 1) * 24 * 60 * 60)
  let time := word32 (time + c.hour * 60 * 60)
  let time := word32 (time + c.min * 60)
  word32 (time + c.sec)

def rtcGetTime (clock : Clock) (rounds : Nat) : Option Nat := (readComponents clock rounds 0).map toTime

end Clock

section Calendar

def leap (year : Nat) : Bool := year % 4 = 0 ∧ (year % 100 ≠ 0 ∨ year % 400 = 0)

def daysInMonth (leap : Bool) (month : Nat) : Nat :=
  if month = 2 ∧ leap then 29 else daysPerMonth.getD (month - 1) 0

def daysBeforeYear : Nat → Nat
  | 0 => 0
  | years + 1 => daysBeforeYear years + if leap (1970 + years) then 366 else 365

def daysBeforeMonth (leap : Bool) : Nat → Nat
  | 0 => 0
  | months + 1 => daysBeforeMonth leap months + daysInMonth leap (months + 1)

structure DateTime where
  year : Nat
  month : Nat
  day : Nat
  hour : Nat
  minute : Nat
  second : Nat

namespace DateTime
variable (date : DateTime)

def seconds : Nat :=
  (((daysBeforeYear (date.year - 1970) + daysBeforeMonth (leap date.year) (date.month - 1) + (date.day - 1)) * 24 + date.hour) *
    60 + date.minute) * 60 + date.second

/-- A date and time of the calendar, up to the end of a `time_t` of 31 bits. -/
structure Valid : Prop where
  since : 1970 ≤ date.year
  month : 1 ≤ date.month ∧ date.month ≤ 12
  day : 1 ≤ date.day ∧ date.day ≤ daysInMonth (leap date.year) date.month
  hour : date.hour < 24
  minute : date.minute < 60
  second : date.second < 60
  range : date.seconds < 2 ^ 31

/-- Days by which the source is ahead: all of the current month, and what its rules for
leap years differ by. -/
def excess : Int :=
  let year : Int := date.year - 1970
  daysPerMonth.getD (date.month - 1) 0 + (if 2 < date.month ∧ year % 4 = 0 then 1 else 0) -
    (if 2 < date.month ∧ year % 4 = 2 then 1 else 0) + (year - 1).tdiv 4 - (year + 1) / 4

end DateTime

def toBcd (n : Nat) : UInt8 := UInt8.ofNat (n / 10 * 16 + n % 10)

structure Shows (clock : Clock) (date : DateTime) : Prop where
  second : ∀ reads, clock reads 0 = toBcd date.second
  minute : ∀ reads, clock reads 2 = toBcd date.minute
  hour : ∀ reads, clock reads 4 = toBcd date.hour
  day : ∀ reads, clock reads 7 = toBcd date.day
  month : ∀ reads, clock reads 8 = toBcd date.month
  year : ∀ reads, clock reads 9 = toBcd (date.year % 100)

end Calendar

theorem bcdToBin_toBcd : ∀ n < 100, bcdToBin (toBcd n) = n := by decide

section Arithmetic

theorem word32_add (first second : Int) : word32 (word32 first + second) = word32 (first + second) := by
  unfold word32
  omega

def monthSum : Nat → Nat
  | 0 => 0
  | months + 1 => monthSum months + daysPerMonth.getD months 0

theorem addMonths_eq (mon : Nat) (time : Int) : addMonths mon (word32 time) = word32 (time + monthSum mon * 86400) := by
  induction mon with
  | zero => simp [addMonths, monthSum]
  | succ mon ih =>
    rw [addMonths, List.range_succ, List.foldl_append, ← addMonths, ih, List.foldl_cons, List.foldl_nil, word32_add, monthSum]
    congr 1
    omega

theorem toTime_eq (c : Components) {year : Int} (years : (if c.year < 70 then c.year + 100 else c.year) - 70 = year) :
    toTime c = word32 (((((year * 365 + (year - 1).tdiv 4 + monthSum c.mon.toNat +
      (if 2 < c.mon ∧ year.tmod 4 = 0 then 1 else 0) + (c.mday - 1)) * 24 + c.hour) * 60 + c.min) * 60 + c.sec)) := by
  simp only [toTime, years, addMonths_eq]
  split
  all_goals
    simp only [word32_add]
    congr 1
    omega

theorem monthSum_eq : ∀ leap, ∀ months < 12, monthSum (months + 1) + (if 2 ≤ months ∧ leap = true then 1 else 0) =
    daysBeforeMonth leap months + daysPerMonth.getD months 0 := by decide

theorem leap_eq : ∀ years < 69, leap (1970 + years) = decide (years % 4 = 2) := by decide

theorem daysBeforeYear_eq {years : Nat} (few : years ≤ 69) : daysBeforeYear years = 365 * years + (years + 1) / 4 := by
  induction years with
  | zero => rfl
  | succ years ih =>
    rw [daysBeforeYear, ih (by omega), leap_eq years few]
    by_cases leaps : years % 4 = 2
    · rw [decide_eq_true leaps, if_pos rfl]
      omega
    · rw [decide_eq_false leaps, if_neg Bool.false_ne_true]
      omega

theorem le_daysBeforeYear (years : Nat) : 365 * years ≤ daysBeforeYear years := by
  induction years with
  | zero => exact Nat.le_refl _
  | succ years ih =>
    rw [daysBeforeYear]
    split <;> omega

end Arithmetic

section Time
variable {clock : Clock} {date : DateTime}

section
variable (valid : date.Valid)
include valid

theorem DateTime.Valid.years : date.year - 1970 < 69 := by
  have days := le_daysBeforeYear (date.year - 1970)
  have range := valid.range
  unfold DateTime.seconds at range
  omega

theorem DateTime.Valid.day_lt : date.day < 32 := by
  obtain ⟨low, high⟩ := valid.month
  have all : ∀ leap, ∀ months < 12, daysInMonth leap (months + 1) < 32 := by decide
  have most := all (leap date.year) (date.month - 1) (by omega)
  rw [Nat.sub_add_cancel low] at most
  exact Nat.lt_of_le_of_lt valid.day.2 most

theorem DateTime.Valid.excess_bounds : 26 ≤ date.excess ∧ date.excess ≤ 32 := by
  obtain ⟨low, high⟩ := valid.month
  have since := valid.since
  have table : ∀ months < 12, 28 ≤ daysPerMonth.getD months 0 ∧ daysPerMonth.getD months 0 ≤ 31 := by decide
  have length := table (date.month - 1) (by omega)
  simp only [DateTime.excess]
  generalize daysPerMonth.getD (date.month - 1) 0 = days at length ⊢
  by_cases first : date.year = 1970
  · have before : ((date.year : Int) - 1970 - 1).tdiv 4 = 0 := by rw [first]; rfl
    rw [before]
    split <;> split <;> omega
  · rw [Int.tdiv_eq_ediv_of_nonneg (by omega)]
    split <;> split <;> omega

theorem readComponents_shown (shows_ : Shows clock date) {rounds : Nat} (some : 0 < rounds) :
    readComponents clock rounds 0 =
      Option.some ⟨date.second, date.minute, date.hour, date.day, date.month, (date.year % 100 : Nat)⟩ := by
  obtain ⟨rounds, rfl⟩ := Nat.exists_eq_succ_of_ne_zero (Nat.ne_of_gt some)
  have second := bcdToBin_toBcd _ (Nat.lt_trans valid.second (by decide))
  have minute := bcdToBin_toBcd _ (Nat.lt_trans valid.minute (by decide))
  have hour := bcdToBin_toBcd _ (Nat.lt_trans valid.hour (by decide))
  have day := bcdToBin_toBcd _ (Nat.lt_trans valid.day_lt (by decide))
  have month := bcdToBin_toBcd _ (Nat.lt_of_le_of_lt valid.month.2 (by decide))
  have year := bcdToBin_toBcd _ (Nat.mod_lt date.year (by decide : 0 < 100))
  simp only [readComponents, shows_.second, shows_.minute, shows_.hour, shows_.day, shows_.month, shows_.year, second,
    minute, hour, day, month, year]
  rw [if_neg (not_not.mpr rfl)]

theorem DateTime.Valid.days_eq :
    ((date.year : Int) - 1970) * 365 + ((date.year : Int) - 1970 - 1).tdiv 4 + monthSum date.month +
      (if 2 < (date.month : Int) ∧ ((date.year : Int) - 1970).tmod 4 = 0 then 1 else 0) + ((date.day : Int) - 1) =
        (daysBeforeYear (date.year - 1970) + daysBeforeMonth (leap date.year) (date.month - 1) + (date.day - 1) : Nat) +
          date.excess := by
  have since := valid.since
  obtain ⟨low, high⟩ := valid.month
  have day := valid.day.1
  rw [Int.tmod_eq_emod_of_nonneg (by omega), DateTime.excess, daysBeforeYear_eq (Nat.le_of_lt valid.years)]
  have leaps := leap_eq _ valid.years
  have months := monthSum_eq (leap date.year) (date.month - 1) (by omega)
  rw [Nat.add_sub_cancel' since] at leaps
  rw [Nat.sub_add_cancel low, leaps] at months
  rw [leaps]
  generalize ((date.year : Int) - 1970 - 1).tdiv 4 = before
  generalize daysPerMonth.getD (date.month - 1) 0 = length at months ⊢
  generalize monthSum date.month = sum at months ⊢
  simp only [decide_eq_true_eq] at months ⊢
  generalize daysBeforeMonth (decide ((date.year - 1970) % 4 = 2)) (date.month - 1) = passed at months ⊢
  split at months <;> split <;> split <;> omega

theorem rtcGetTime_eq (shows_ : Shows clock date) {rounds : Nat} (some : 0 < rounds) :
    ∃ time, rtcGetTime clock rounds = Option.some time ∧ (time : Int) = date.seconds + 86400 * date.excess := by
  refine ⟨_, congrArg (Option.map toTime) (readComponents_shown valid shows_ some), ?_⟩
  have years : (if ((date.year % 100 : Nat) : Int) < 70 then ((date.year % 100 : Nat) : Int) + 100 else (date.year % 100 : Nat)) - 70 =
      (date.year : Int) - 1970 := by
    have since := valid.since
    have few := valid.years
    split <;> omega
  rw [toTime_eq ⟨date.second, date.minute, date.hour, date.day, date.month, (date.year % 100 : Nat)⟩ years]
  simp only [Int.toNat_natCast, valid.days_eq]
  clear years
  have range := valid.range
  have least := valid.excess_bounds
  unfold DateTime.seconds at range ⊢
  unfold word32
  omega

end

end Time

/-- `rtc_get_time` never returns the seconds since the epoch: it is ahead by `excess` days, which are
never none. Of two instants the later one has the greater value unless that makes up for the time between them. -/
theorem rtc_ahead_of_epoch {first second : Clock} {earlier later : DateTime} (valid : earlier.Valid ∧ later.Valid)
    (shown : Shows first earlier ∧ Shows second later) {rounds : Nat} (some : 0 < rounds) :
    ∃ time next, rtcGetTime first rounds = Option.some time ∧ rtcGetTime second rounds = Option.some next ∧
      (time : Int) = earlier.seconds + 86400 * earlier.excess ∧ time ≠ earlier.seconds ∧
      (time < next ↔ 86400 * (earlier.excess - later.excess) < (later.seconds : Int) - earlier.seconds) := by
  obtain ⟨time, ran, value⟩ := rtcGetTime_eq valid.1 shown.1 some
  obtain ⟨next, ranNext, valueNext⟩ := rtcGetTime_eq valid.2 shown.2 some
  have least := valid.1.excess_bounds.1
  exact ⟨time, next, ran, ranNext, value, by omega, by omega⟩

def clockOf (date : DateTime) : Clock := fun _ register =>
  if register = 0 then toBcd date.second
  else if register = 2 then toBcd date.minute
  else if register = 4 then toBcd date.hour
  else if register = 7 then toBcd date.day
  else if register = 8 then toBcd date.month
  else toBcd (date.year % 100)

theorem shows_clockOf (date : DateTime) : Shows (clockOf date) date :=
  ⟨fun _ => rfl, fun _ => rfl, fun _ => rfl, fun _ => rfl, fun _ => rfl, fun _ => rfl⟩

theorem rtc_ahead_of_epoch_january : ∃ time next, rtcGetTime (clockOf ⟨1970, 1, 1, 0, 0, 0⟩) 1 = some time ∧
    rtcGetTime (clockOf ⟨1970, 1, 2, 0, 0, 0⟩) 1 = some next ∧ time = 31 * 86400 ∧ time < next := by
  have first : DateTime.Valid ⟨1970, 1, 1, 0, 0, 0⟩ :=
    ⟨by decide, by decide, by decide, by decide, by decide, by decide, by decide⟩
  have second : DateTime.Valid ⟨1970, 1, 2, 0, 0, 0⟩ :=
    ⟨by decide, by decide, by decide, by decide, by decide, by decide, by decide⟩
  obtain ⟨time, next, ran, ranNext, value, -, increasing⟩ :=
    rtc_ahead_of_epoch ⟨first, second⟩ ⟨shows_clockOf _, shows_clockOf _⟩ Nat.one_pos
  exact ⟨time, next, ran, ranNext, Int.ofNat_inj.mp value, increasing.mpr (by decide)⟩

/-- The first second of 1970 is 31 days after the epoch, and the first of February is before the last of January. -/
theorem epoch_is_a_month_late : rtcGetTime (clockOf ⟨1970, 1, 1, 0, 0, 0⟩) 1 = some 2678400 ∧
    DateTime.seconds ⟨1970, 1, 1, 0, 0, 0⟩ = 0 ∧
    rtcGetTime (clockOf ⟨1970, 1, 31, 23, 59, 59⟩) 1 = some 5356799 ∧
    rtcGetTime (clockOf ⟨1970, 2, 1, 0, 0, 0⟩) 1 = some 5097600 := by decide

end Pintos.Devices.Rtc
