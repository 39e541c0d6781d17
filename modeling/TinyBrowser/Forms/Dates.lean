import Mathlib.Tactic.IntervalCases
import TinyBrowser.Lib.Lines
import TinyBrowser.Protocol
import TinyBrowser.Lib.Grid

/-!
# Dates and weeks of form controls

`crates/renderer/src/dom/microsyntaxes.rs`: the date, month and week strings of HTML and the integers
that step arithmetic counts them by. The `i128` arithmetic of the source cannot overflow for a year of
64 bits, so it is that of the integers; divisions truncate as they do there.

The months of the calendar are consecutive blocks of days, and its years consecutive blocks of weeks.
So the two formulas count the dates and the weeks, in order and without gaps, for years of any size.
-/

namespace TinyBrowser.Forms
open Lib

def isLeapYear (year : Nat) : Bool := year % 4 = 0 && (year % 100 ≠ 0 || year % 400 = 0)

def daysInMonth (year : Nat) : Nat → Nat
  | 1 | 3 | 5 | 7 | 8 | 10 | 12 => 31
  | 4 | 6 | 9 | 11 => 30
  | 2 => if isLeapYear year then 29 else 28
  | _ => 0

/-- `str::parse::<u64>` of a run of digits. -/
def readU64 (value : Text) : Option Nat := (Text.readNat value).filter (· ≤ u64Max)

def parseYear (value : Text) : Option Nat :=
  if Text.len value < 4 || !value.all Text.isAsciiDigit then none
  else (readU64 value).filter (0 < ·)

def parseTwoDigits (value : Text) : Option Nat :=
  if Text.len value ≠ 2 || !value.all Text.isAsciiDigit then none else readU64 value

def inRange (first last n : Nat) : Bool := first ≤ n && n ≤ last

def validDate (value : Text) : Bool :=
  let parts := Text.split '-' value
  match parts[0]?.bind parseYear with
  | none => false
  | some year => match parts[1]?.bind parseTwoDigits with
    | none => false
    | some month => match parts[2]?.bind parseTwoDigits with
      | none => false
      | some day =>
        if parts[3]?.isSome || !inRange 1 12 month then false
        else inRange 1 (daysInMonth year month) day

/-- The day of the week for January 1, with Monday as 0. -/
def januaryFirstWeekday (year : Nat) : Nat :=
  let previous := year - 1
  (365 * previous + previous / 4 - previous / 100 + previous / 400) % 7

/-- The number of weeks of a year. -/
def weeksInYear (year : Nat) : Nat :=
  if januaryFirstWeekday year = 3 || (isLeapYear year && januaryFirstWeekday year = 2) then 53 else 52

def stripW : Text → Option Text
  | 'W' :: rest => some rest
  | _ => none

def validWeek (value : Text) : Bool :=
  match Text.splitOnce '-' value with
  | none => false
  | some (year, rest) => match (stripW rest).bind parseTwoDigits with
    | none => false
    | some week => match parseYear year with
      | none => false
      | some year => inRange 1 (weeksInYear year) week

/-- Days since 1970-01-01 for a proleptic Gregorian date. -/
def daysFromCivil (year month day : Nat) : Int :=
  let year : Int := year - (if month ≤ 2 then 1 else 0)
  let era := (if 0 ≤ year then year else year - 399).tdiv 400
  let yearOfEra := year - era * 400
  let monthIndex : Int := month + (if 2 < month then -3 else 9)
  let dayOfYear := (153 * monthIndex + 2).tdiv 5 + day - 1
  let dayOfEra := yearOfEra * 365 + yearOfEra.tdiv 4 - yearOfEra.tdiv 100 + dayOfYear
  era * 146097 + dayOfEra - 719468

/-- Days since the epoch for a valid date string. -/
def dateValue (value : Text) : Option Int := do
  let parts := Text.split '-' value
  let year ← parts[0]?.bind parseYear
  let month ← parts[1]?.bind parseTwoDigits
  let day ← parts[2]?.bind parseTwoDigits
  if parts[3]?.isSome || !inRange 1 12 month then none
  else if !inRange 1 (daysInMonth year month) day then none
  else some (daysFromCivil year month day)

/-- The Monday of the week with 1970-01-01, as days since the epoch. -/
def epochMonday : Int := -3

/-- The weekday of a count of days since the epoch, with Monday as 0. -/
def weekdayFromDays (days : Int) : Int := (days.tmod 7 + 10).tmod 7

/-- The Monday of the first week of a year, which is the week with January 4. -/
def mondayOfWeekOne (year : Nat) : Int :=
  let januaryFourth := daysFromCivil year 1 4
  januaryFourth - weekdayFromDays januaryFourth

/-- Weeks since `epochMonday`. -/
def weekNumber (year week : Nat) : Int := (mondayOfWeekOne year - epochMonday).tdiv 7 + week - 1

/-- Weeks since `epochMonday` for a valid week string. -/
def weekValue (value : Text) : Option Int := do
  let (year, rest) ← Text.splitOnce '-' value
  let week ← (stripW rest).bind parseTwoDigits
  let year ← parseYear year
  if !inRange 1 (weeksInYear year) week then none else some (weekNumber year week)

/-! ### Days -/

/-- Days before March 1 of year `y`, but for a constant. -/
def daysBefore (y : Nat) : Int := 365 * y + y / 4 - y / 100 + y / 400

theorem isLeapYear_iff (year : Nat) : isLeapYear year = true ↔
    year % 4 = 0 ∧ (year % 100 ≠ 0 ∨ year % 400 = 0) := by
  simp [isLeapYear]

/-- The era arithmetic, without the eras. -/
theorem daysFromCivil_eq {year month : Nat} (day : Nat) (hyear : 0 < year) (hmonth : 0 < month) :
    daysFromCivil year month day =
      daysBefore (if month ≤ 2 then year - 1 else year) +
        (153 * (if month ≤ 2 then month + 9 else month - 3 : Nat) + 2) / 5 + day - 719469 := by
  rw [daysFromCivil, daysBefore]
  by_cases hle : month ≤ 2
  · obtain ⟨y, rfl⟩ : ∃ y, year = y + 1 := ⟨year - 1, by omega⟩
    simp only [hle, if_true, if_neg (Nat.not_lt.2 hle), Nat.add_sub_cancel]
    rw [if_pos (by omega), Int.tdiv_eq_ediv_of_nonneg (by omega), Int.tdiv_eq_ediv_of_nonneg (by omega),
      Int.tdiv_eq_ediv_of_nonneg (by omega), Int.tdiv_eq_ediv_of_nonneg (by omega)]
    omega
  · simp only [hle, if_false, if_pos (Nat.lt_of_not_le hle)]
    rw [if_pos (by omega), Int.tdiv_eq_ediv_of_nonneg (by omega), Int.tdiv_eq_ediv_of_nonneg (by omega),
      Int.tdiv_eq_ediv_of_nonneg (by omega), Int.tdiv_eq_ediv_of_nonneg (by omega)]
    omega

theorem daysBefore_succ (y : Nat) :
    daysBefore (y + 1) = daysBefore y + 365 + if isLeapYear (y + 1) then 1 else 0 := by
  rw [daysBefore, daysBefore]
  by_cases hleap : isLeapYear (y + 1) = true
  · rw [if_pos hleap]
    rw [isLeapYear_iff] at hleap
    omega
  · rw [if_neg hleap]
    rw [isLeapYear_iff] at hleap
    omega

theorem daysInMonth_pos (year : Nat) {m : Nat} (hm : m < 12) : 0 < daysInMonth year (m + 1) := by
  interval_cases m <;> simp only [daysInMonth] <;> try split
  all_goals omega

/-- The first day of the month after a month. -/
theorem daysFromCivil_next {year m : Nat} (hyear : 0 < year) (hm : m < 12) :
    daysFromCivil (year + (m + 1) / 12) ((m + 1) % 12 + 1) 1 =
      daysFromCivil year (m + 1) 1 + daysInMonth year (m + 1) := by
  have hsucc := daysBefore_succ (year - 1)
  rw [Nat.sub_add_cancel hyear] at hsucc
  rw [daysFromCivil_eq 1 (by omega) (by omega), daysFromCivil_eq 1 hyear (by omega)]
  interval_cases m <;> norm_num [daysInMonth] <;> try split_ifs at hsucc ⊢
  all_goals omega

theorem months_blocks : Blocks (fun n => daysFromCivil (n / 12 + 1) (n % 12 + 1) 1)
    (fun n => daysInMonth (n / 12 + 1) (n % 12 + 1)) where
  pos n := daysInMonth_pos _ (Nat.mod_lt n (by omega))
  next n := by
    have hnext := daysFromCivil_next (Nat.succ_pos (n / 12)) (Nat.mod_lt n (by omega : 0 < 12))
    rw [← hnext]
    congr 1 <;> omega

theorem daysFromCivil_day (year month day : Nat) :
    daysFromCivil year month day = daysFromCivil year month 1 + day - 1 := by
  simp only [daysFromCivil]
  omega

/-! ### Weeks -/

theorem weekdayFromDays_eq (days : Int) : weekdayFromDays days = (days + 3) % 7 := by
  have hlower := Int.lt_tmod_of_pos days (by omega : (0 : Int) < 7)
  rw [weekdayFromDays, Int.tmod_eq_emod_of_nonneg (by omega), Int.tmod_def]
  omega

theorem januaryFirstWeekday_eq {year : Nat} (hyear : 0 < year) :
    (januaryFirstWeekday year : Int) = weekdayFromDays (daysFromCivil year 1 1) := by
  obtain ⟨y, rfl⟩ : ∃ y, year = y + 1 := ⟨year - 1, by omega⟩
  rw [daysFromCivil_eq 1 hyear (by omega), weekdayFromDays_eq, januaryFirstWeekday]
  norm_num [daysBefore]
  omega

theorem daysFromCivil_year {year : Nat} (hyear : 0 < year) :
    daysFromCivil (year + 1) 1 1 =
      daysFromCivil year 1 1 + 365 + if isLeapYear year then 1 else 0 := by
  have hsucc := daysBefore_succ (year - 1)
  rw [Nat.sub_add_cancel hyear] at hsucc
  rw [daysFromCivil_eq 1 (by omega) (by omega), daysFromCivil_eq 1 hyear (by omega)]
  norm_num
  omega

theorem mondayOfWeekOne_eq (year : Nat) :
    mondayOfWeekOne year = (daysFromCivil year 1 1 + 6) / 7 * 7 - 3 := by
  rw [mondayOfWeekOne, daysFromCivil_day, weekdayFromDays_eq]
  omega

theorem mondayOfWeekOne_next {year : Nat} (hyear : 0 < year) :
    mondayOfWeekOne (year + 1) = mondayOfWeekOne year + 7 * weeksInYear year := by
  have hjanuary := januaryFirstWeekday_eq hyear
  rw [weekdayFromDays_eq] at hjanuary
  rw [mondayOfWeekOne_eq, mondayOfWeekOne_eq, daysFromCivil_year hyear, weeksInYear]
  rcases isLeapYear year with - | -
  · simp
    split <;> omega
  · simp
    split <;> omega

theorem weekNumber_eq (year week : Nat) :
    weekNumber year week = (daysFromCivil year 1 1 + 6) / 7 + week - 1 := by
  rw [weekNumber, epochMonday, mondayOfWeekOne_eq]
  have hexact : (daysFromCivil year 1 1 + 6) / 7 * 7 - 3 - -3 = (daysFromCivil year 1 1 + 6) / 7 * 7 := by
    omega
  rw [hexact, Int.mul_tdiv_cancel _ (by omega)]

theorem weeks_blocks : Blocks (fun n => weekNumber (n + 1) 1) (fun n => weeksInYear (n + 1)) where
  pos n := by
    rw [weeksInYear]
    split <;> omega
  next n := by
    have hnext := mondayOfWeekOne_next (Nat.succ_pos n)
    rw [mondayOfWeekOne_eq, mondayOfWeekOne_eq, Nat.succ_eq_add_one] at hnext
    rw [weekNumber_eq, weekNumber_eq]
    omega

theorem weekNumber_week (year week : Nat) :
    weekNumber year week = weekNumber year 1 + week - 1 := by
  rw [weekNumber, weekNumber]
  omega

end TinyBrowser.Forms
