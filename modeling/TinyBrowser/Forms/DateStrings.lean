import TinyBrowser.Forms.Dates
import TinyBrowser.Lib.Joined

/-!
# Date and week strings

A date string names a date of the calendar and a week string a week, and the two values count the
dates and the weeks in calendar order.
-/

namespace TinyBrowser.Forms
open Lib

/-! ### Dates and weeks -/

/-- A date of the calendar, for a year of any size. -/
structure CivilDate where
  year : Nat
  month : Nat
  day : Nat
  year_pos : 0 < year
  month_valid : inRange 1 12 month = true
  day_valid : inRange 1 (daysInMonth year month) day = true

/-- A week of the calendar, for a year of any size. -/
structure CivilWeek where
  year : Nat
  week : Nat
  year_pos : 0 < year
  week_valid : inRange 1 (weeksInYear year) week = true

namespace CivilDate
variable {d e : CivilDate}

def days (d : CivilDate) : Int := daysFromCivil d.year d.month d.day

/-- Calendar order. -/
def Before (d e : CivilDate) : Prop :=
  d.year < e.year ∨ d.year = e.year ∧ (d.month < e.month ∨ d.month = e.month ∧ d.day < e.day)

/-- A string of a year, a month and a day. -/
def Named (value : Text) (d : CivilDate) : Prop :=
  ∃ year month day, value = year ++ '-' :: (month ++ '-' :: day) ∧ parseYear year = some d.year ∧
    parseTwoDigits month = some d.month ∧ parseTwoDigits day = some d.day

/-- The months of all years, counted from January of year 1. -/
def monthIndex (d : CivilDate) : Nat := 12 * (d.year - 1) + (d.month - 1)

theorem bounds (d : CivilDate) : 0 < d.year ∧ (1 ≤ d.month ∧ d.month ≤ 12) ∧
    1 ≤ d.day ∧ d.day ≤ daysInMonth d.year d.month := by
  have hmonth := d.month_valid
  have hday := d.day_valid
  simp only [inRange, Bool.and_eq_true, decide_eq_true_eq] at hmonth hday
  exact ⟨d.year_pos, hmonth, hday⟩

theorem monthIndex_div (d : CivilDate) : d.monthIndex / 12 + 1 = d.year := by
  have hbounds := d.bounds
  rw [monthIndex]
  omega

theorem monthIndex_mod (d : CivilDate) : d.monthIndex % 12 + 1 = d.month := by
  have hbounds := d.bounds
  rw [monthIndex]
  omega

theorem days_eq (d : CivilDate) :
    d.days = daysFromCivil (d.monthIndex / 12 + 1) (d.monthIndex % 12 + 1) 1 + (d.day - 1 : Nat) := by
  have hbounds := d.bounds
  rw [monthIndex_div, monthIndex_mod, days, daysFromCivil_day]
  omega

theorem day_lt (d : CivilDate) :
    d.day - 1 < daysInMonth (d.monthIndex / 12 + 1) (d.monthIndex % 12 + 1) := by
  have hbounds := d.bounds
  rw [monthIndex_div, monthIndex_mod]
  omega

theorem days_lt_iff (d e : CivilDate) : d.days < e.days ↔ d.Before e := by
  have hd := d.bounds
  have he := e.bounds
  rw [days_eq, days_eq, months_blocks.lt_iff d.day_lt e.day_lt, Before, monthIndex, monthIndex]
  omega

theorem days_injective (h : d.days = e.days) : d = e := by
  have hd := d.bounds
  have he := e.bounds
  rw [days_eq, days_eq, months_blocks.eq_iff d.day_lt e.day_lt, monthIndex, monthIndex] at h
  cases d
  cases e
  simp only [CivilDate.mk.injEq] at *
  omega

theorem exists_days {n : Int} (hn : daysFromCivil 1 1 1 ≤ n) : ∃ d : CivilDate, d.days = n := by
  obtain ⟨m, i, hi, rfl⟩ := months_blocks.exists_eq hn
  refine ⟨⟨m / 12 + 1, m % 12 + 1, i + 1, by omega, by simp [inRange]; omega,
    by simp [inRange]; omega⟩, ?_⟩
  rw [days, daysFromCivil_day]
  push_cast
  omega

theorem le_days (d : CivilDate) : daysFromCivil 1 1 1 ≤ d.days := by
  rw [days_eq]
  exact months_blocks.le _ _

end CivilDate

namespace CivilWeek
variable {w v : CivilWeek}

def number (w : CivilWeek) : Int := weekNumber w.year w.week

/-- Calendar order. -/
def Before (w v : CivilWeek) : Prop := w.year < v.year ∨ w.year = v.year ∧ w.week < v.week

/-- A string of a year and a week after a `W`. -/
def Named (value : Text) (w : CivilWeek) : Prop :=
  ∃ year week, value = year ++ '-' :: 'W' :: week ∧ parseYear year = some w.year ∧
    parseTwoDigits week = some w.week

theorem bounds (w : CivilWeek) : 0 < w.year ∧ 1 ≤ w.week ∧ w.week ≤ weeksInYear w.year := by
  have hweek := w.week_valid
  simp only [inRange, Bool.and_eq_true, decide_eq_true_eq] at hweek
  exact ⟨w.year_pos, hweek⟩

theorem year_eq (w : CivilWeek) : w.year - 1 + 1 = w.year := by
  have hpos := w.year_pos
  omega

theorem number_eq (w : CivilWeek) :
    w.number = weekNumber (w.year - 1 + 1) 1 + (w.week - 1 : Nat) := by
  have hbounds := w.bounds
  rw [year_eq, number, weekNumber_week]
  omega

theorem week_lt (w : CivilWeek) : w.week - 1 < weeksInYear (w.year - 1 + 1) := by
  have hbounds := w.bounds
  rw [year_eq]
  omega

theorem number_lt_iff (w v : CivilWeek) : w.number < v.number ↔ w.Before v := by
  have hw := w.bounds
  have hv := v.bounds
  rw [number_eq, number_eq, weeks_blocks.lt_iff w.week_lt v.week_lt, Before]
  omega

theorem number_injective (h : w.number = v.number) : w = v := by
  have hw := w.bounds
  have hv := v.bounds
  rw [number_eq, number_eq, weeks_blocks.eq_iff w.week_lt v.week_lt] at h
  cases w
  cases v
  simp only [CivilWeek.mk.injEq] at *
  omega

theorem exists_number {n : Int} (hn : weekNumber 1 1 ≤ n) : ∃ w : CivilWeek, w.number = n := by
  obtain ⟨k, i, hi, rfl⟩ := weeks_blocks.exists_eq hn
  refine ⟨⟨k + 1, i + 1, by omega, by simp [inRange]; omega⟩, ?_⟩
  rw [number, weekNumber_week]
  push_cast
  omega

theorem le_number (w : CivilWeek) : weekNumber 1 1 ≤ w.number := by
  rw [number_eq]
  exact weeks_blocks.le _ _

end CivilWeek

/-! ### Strings -/

variable {value : Text}

theorem dash_not_mem (h : value.all Text.isAsciiDigit = true) : '-' ∉ value := by
  intro hmem
  have hdigit := List.all_eq_true.1 h _ hmem
  revert hdigit
  decide

theorem dash_not_mem_of_parseYear {n : Nat} (h : parseYear value = some n) :
    '-' ∉ value := by
  rw [parseYear, Option.ite_none_left_eq_some, Bool.or_eq_true, not_or] at h
  exact dash_not_mem (by simpa using h.1.2)

theorem dash_not_mem_of_parseTwoDigits {n : Nat} (h : parseTwoDigits value = some n) :
    '-' ∉ value := by
  rw [parseTwoDigits, Option.ite_none_left_eq_some, Bool.or_eq_true, not_or] at h
  exact dash_not_mem (by simpa using h.1.2)

theorem parseYear_pos {n : Nat} (h : parseYear value = some n) : 0 < n := by
  rw [parseYear, Option.ite_none_left_eq_some] at h
  simpa using (Option.filter_eq_some_iff.1 h.2).2

theorem dateValue_of_named {d : CivilDate} (h : d.Named value) :
    dateValue value = some d.days := by
  obtain ⟨year, month, day, rfl, hyear, hmonth, hday⟩ := h
  have hsplit : Text.split '-' (year ++ '-' :: (month ++ '-' :: day)) = [year, month, day] := by
    rw [Text.split_append _ (dash_not_mem_of_parseYear hyear),
      Text.split_append _ (dash_not_mem_of_parseTwoDigits hmonth),
      Text.split_of_not_mem (dash_not_mem_of_parseTwoDigits hday)]
  simp [dateValue, hsplit, hyear, hmonth, hday, d.month_valid, d.day_valid, CivilDate.days]

theorem named_of_dateValue {n : Int} (h : dateValue value = some n) :
    ∃ d : CivilDate, d.Named value ∧ d.days = n := by
  rw [dateValue] at h
  match hsplit : Text.split '-' value with
  | [] => simp [hsplit] at h
  | [_] => simp [hsplit] at h
  | [_, _] => simp [hsplit] at h
  | _ :: _ :: _ :: _ :: _ => simp [hsplit] at h
  | [year, month, day] =>
    simp only [hsplit, List.getElem?_cons_zero, List.getElem?_cons_succ, Option.bind_some,
      Option.bind_eq_bind, Option.bind_eq_some_iff, Option.ite_none_left_eq_some] at h
    obtain ⟨y, hyear, m, hmonth, d, hday, hrange, hinside, hdays⟩ := h
    obtain ⟨_, hnil⟩ | ⟨_, rfl, hmonths⟩ := Text.split_eq_cons hsplit
    · cases hnil
    obtain ⟨_, hnil⟩ | ⟨_, rfl, hlast⟩ := Text.split_eq_cons hmonths
    · cases hnil
    obtain ⟨rfl, _⟩ | ⟨_, _, hnil⟩ := Text.split_eq_cons hlast
    · refine ⟨⟨y, m, d, parseYear_pos hyear, by simpa using hrange, by simpa using hinside⟩, ?_, ?_⟩
      · exact ⟨year, month, _, rfl, hyear, hmonth, hday⟩
      · exact Option.some.inj hdays
    · exact absurd hnil (Text.split_ne_nil _ _)

/-- A date string has a value just when it names a date, and the value is that date's. -/
theorem dateValue_eq_some {n : Int} :
    dateValue value = some n ↔ ∃ d : CivilDate, d.Named value ∧ d.days = n := by
  constructor
  · exact named_of_dateValue
  · rintro ⟨d, hnamed, rfl⟩
    exact dateValue_of_named hnamed

theorem validDate_eq (value : Text) : validDate value = (dateValue value).isSome := by
  rw [validDate, dateValue]
  rcases (Text.split '-' value)[0]?.bind parseYear with - | year
  · rfl
  rcases (Text.split '-' value)[1]?.bind parseTwoDigits with - | month
  · rfl
  rcases (Text.split '-' value)[2]?.bind parseTwoDigits with - | day
  · rfl
  simp only [Option.bind_eq_bind, Option.bind_some]
  split
  · rfl
  · cases inRange 1 (daysInMonth year month) day <;> rfl

theorem stripW_eq_some {rest week : Text} (h : stripW rest = some week) : rest = 'W' :: week := by
  match rest with
  | [] => cases h
  | x :: rest =>
    by_cases hx : x = 'W'
    · subst hx
      cases h
      rfl
    · simp [stripW, hx] at h

theorem weekValue_of_named {w : CivilWeek} (h : w.Named value) :
    weekValue value = some w.number := by
  obtain ⟨year, week, rfl, hyear, hweek⟩ := h
  rw [weekValue, Text.splitOnce_append (dash_not_mem_of_parseYear hyear)]
  simp [stripW, hyear, hweek, w.week_valid, CivilWeek.number]

theorem named_of_weekValue {n : Int} (h : weekValue value = some n) :
    ∃ w : CivilWeek, w.Named value ∧ w.number = n := by
  rw [weekValue] at h
  simp only [Option.bind_eq_bind, Option.bind_eq_some_iff, Option.ite_none_left_eq_some] at h
  obtain ⟨⟨year, rest⟩, hsplit, k, ⟨week, hstrip, hweek⟩, y, hyear, hinside, hnumber⟩ := h
  refine ⟨⟨y, k, parseYear_pos hyear, by simpa using hinside⟩, ?_, Option.some.inj hnumber⟩
  obtain ⟨rfl, _⟩ := Text.splitOnce_spec hsplit
  obtain rfl := stripW_eq_some hstrip
  exact ⟨year, week, rfl, hyear, hweek⟩

/-- A week string has a value just when it names a week, and the value is that week's. -/
theorem weekValue_eq_some {n : Int} :
    weekValue value = some n ↔ ∃ w : CivilWeek, w.Named value ∧ w.number = n := by
  constructor
  · exact named_of_weekValue
  · rintro ⟨w, hnamed, rfl⟩
    exact weekValue_of_named hnamed

theorem validWeek_eq (value : Text) : validWeek value = (weekValue value).isSome := by
  rw [validWeek, weekValue]
  rcases Text.splitOnce '-' value with - | ⟨year, rest⟩
  · rfl
  simp only [Option.bind_eq_bind, Option.bind_some]
  rcases (stripW rest).bind parseTwoDigits with - | week
  · rfl
  simp only [Option.bind_some]
  rcases parseYear year with - | year
  · rfl
  simp only [Option.bind_some]
  cases inRange 1 (weeksInYear year) week <;> rfl

/-! ### Consistency -/

/-- Dates and date strings are counted in calendar order, from the day 0 on 1970-01-01. -/
structure DatesConsistent : Prop where
  epoch : daysFromCivil 1970 1 1 = 0
  ordered : ∀ d e : CivilDate, d.days < e.days ↔ d.Before e
  consecutive : ∀ n : Int, daysFromCivil 1 1 1 ≤ n ↔ ∃! d : CivilDate, d.days = n
  value : ∀ value n, dateValue value = some n ↔ ∃ d : CivilDate, d.Named value ∧ d.days = n
  monotone : ∀ (s t : Text) (d e : CivilDate), d.Named s → e.Named t →
    ∃ m n, dateValue s = some m ∧ dateValue t = some n ∧ (m < n ↔ d.Before e)
  accepted : ∀ value, (dateValue value).isSome = validDate value
  weekday : ∀ year, 0 < year →
    (januaryFirstWeekday year : Int) = weekdayFromDays (daysFromCivil year 1 1)

/-- Weeks and week strings are counted in calendar order, across the ends of the years. -/
structure WeeksConsistent : Prop where
  ordered : ∀ w v : CivilWeek, w.number < v.number ↔ w.Before v
  consecutive : ∀ n : Int, weekNumber 1 1 ≤ n ↔ ∃! w : CivilWeek, w.number = n
  next_year : ∀ year, 0 < year → weekNumber (year + 1) 1 = weekNumber year (weeksInYear year) + 1
  long_year : ∀ year, 0 < year →
    (weeksInYear year = 53 ↔ mondayOfWeekOne (year + 1) = mondayOfWeekOne year + 53 * 7)
  value : ∀ value n, weekValue value = some n ↔ ∃ w : CivilWeek, w.Named value ∧ w.number = n
  monotone : ∀ (s t : Text) (w v : CivilWeek), w.Named s → v.Named t →
    ∃ m n, weekValue s = some m ∧ weekValue t = some n ∧ (m < n ↔ w.Before v)
  accepted : ∀ value, (weekValue value).isSome = validWeek value

theorem datesConsistent : DatesConsistent where
  epoch := by decide
  ordered := CivilDate.days_lt_iff
  consecutive n := by
    constructor
    · intro hn
      obtain ⟨d, rfl⟩ := CivilDate.exists_days hn
      exact ⟨d, rfl, fun e he => CivilDate.days_injective he⟩
    · rintro ⟨d, rfl, -⟩
      exact d.le_days
  value _ _ := dateValue_eq_some
  monotone _ _ d e hs ht :=
    ⟨_, _, dateValue_of_named hs, dateValue_of_named ht, d.days_lt_iff e⟩
  accepted value := (validDate_eq value).symm
  weekday _ hyear := januaryFirstWeekday_eq hyear

theorem weeksConsistent : WeeksConsistent where
  ordered := CivilWeek.number_lt_iff
  consecutive n := by
    constructor
    · intro hn
      obtain ⟨w, rfl⟩ := CivilWeek.exists_number hn
      exact ⟨w, rfl, fun v hv => CivilWeek.number_injective hv⟩
    · rintro ⟨w, rfl, -⟩
      exact w.le_number
  next_year year hyear := by
    have hnext := mondayOfWeekOne_next hyear
    rw [mondayOfWeekOne_eq, mondayOfWeekOne_eq] at hnext
    rw [weekNumber_eq, weekNumber_eq]
    omega
  long_year year hyear := by
    have hnext := mondayOfWeekOne_next hyear
    omega
  value _ _ := weekValue_eq_some
  monotone _ _ w v hs ht :=
    ⟨_, _, weekValue_of_named hs, weekValue_of_named ht, w.number_lt_iff v⟩
  accepted value := (validWeek_eq value).symm

/-- Both counts agree with the calendar, for years of any size. -/
theorem calendar_consistent : DatesConsistent ∧ WeeksConsistent :=
  ⟨datesConsistent, weeksConsistent⟩

end TinyBrowser.Forms
