import TinyBrowser.Cookies.CheckedDates
import TinyBrowser.Forms.DateStrings
import TinyBrowser.Lib.Search

/-!
# Cookie dates are calendar dates

What the tokens of a cookie date name, a time of day on a date of the calendar, and the seconds from
the epoch to it, counted over the months between. `parseCookieDate` gives those seconds, for the
strings that name a time from 1601 on and for no others.
-/

namespace TinyBrowser
open Lib Lib.Checked

/-! ### Tokens -/

/-- The first token that reads as a time is the time, the first of the others that reads as a day is
the day, and so on for the month and the year. -/
def dateFields (tokens : List Text) : DateFields :=
  let (time, tokens) := firstRead parseTimeToken tokens
  let (day, tokens) := firstRead parseDayToken tokens
  let (month, tokens) := firstRead monthNum tokens
  let (year, _) := firstRead parseYearToken tokens
  ⟨time, day, month, year⟩

theorem foldl_step (tokens : List Text) (f : DateFields) :
    tokens.foldl DateFields.step f =
      let (time, tokens) := readNext parseTimeToken f.time tokens
      let (day, tokens) := readNext parseDayToken f.day tokens
      let (month, tokens) := readNext monthNum f.month tokens
      let (year, _) := readNext parseYearToken f.year tokens
      ⟨time, day, month, year⟩ := by
  induction tokens generalizing f with
  | nil => simp
  | cons token tokens ih =>
    rw [List.foldl_cons, ih, DateFields.step, readNext_cons f.time]
    by_cases htime : (f.time.isNone && (parseTimeToken token).isSome) = true
    · simp only [htime, if_true, readNext_of_isSome (Bool.and_eq_true_iff.1 htime).2]
    by_cases hday : (f.day.isNone && (parseDayToken token).isSome) = true
    · simp only [htime, hday, if_true, if_false, readNext_cons f.day, Bool.false_eq_true,
        readNext_of_isSome (Bool.and_eq_true_iff.1 hday).2]
    by_cases hmonth : (f.month.isNone && (monthNum token).isSome) = true
    · simp only [htime, hday, hmonth, if_true, if_false, readNext_cons f.day, readNext_cons f.month,
        Bool.false_eq_true, readNext_of_isSome (Bool.and_eq_true_iff.1 hmonth).2]
    simp only [htime, hday, hmonth, if_false, readNext_cons f.day, readNext_cons f.month,
      readNext_cons f.year, Bool.false_eq_true]
    cases hyear : f.year with
    | some year => simp [hyear]
    | none => cases parseYearToken token with
      | some year => simp
      | none => simp

theorem dateFields_eq (tokens : List Text) :
    tokens.foldl DateFields.step {} = dateFields tokens := foldl_step tokens {}

/-! ### Times of the calendar -/

/-- A second of a date. -/
structure CivilTime where
  date : Forms.CivilDate
  hour : Nat
  min : Nat
  sec : Nat
  hour_lt : hour < 24
  min_lt : min < 60
  sec_lt : sec < 60

/-- The days from the first of January of year 1: those of the months before, and those before in
the month. -/
def civilDays (d : Forms.CivilDate) : Nat :=
  ((List.range d.monthIndex).map fun n => Forms.daysInMonth (n / 12 + 1) (n % 12 + 1)).sum +
    (d.day - 1)

def unixEpoch : Forms.CivilDate := ⟨1970, 1, 1, by decide, by decide, by decide⟩

namespace CivilTime
variable {c c' : CivilTime} {s s' : Text}

def clock (c : CivilTime) : Nat := c.hour * 3600 + c.min * 60 + c.sec

/-- The seconds from the epoch, which are negative before it. -/
def unixSeconds (c : CivilTime) : Int :=
  ((civilDays c.date : Int) - civilDays unixEpoch) * 86400 + c.clock

/-- An earlier date, or an earlier time of the same date. -/
def Before (c c' : CivilTime) : Prop :=
  c.date.Before c'.date ∨ c.date = c'.date ∧ (c.hour < c'.hour ∨ c.hour = c'.hour ∧
    (c.min < c'.min ∨ c.min = c'.min ∧ c.sec < c'.sec))

/-- The time, the day, the month and the year that the tokens of `s` spell are those of `c`. -/
def Named (s : Text) (c : CivilTime) : Prop :=
  dateFields (cookieDateTokens s) =
    ⟨some (c.hour, c.min, c.sec), some c.date.day, some c.date.month, some (c.date.year : Int)⟩

theorem named_unique (h : c.Named s) (h' : c'.Named s) : c = c' := by
  have heq := h.symm.trans h'
  obtain ⟨⟨year, month, day, _, _, _⟩, hour, min, sec, _, _, _⟩ := c
  obtain ⟨⟨year', month', day', _, _, _⟩, hour', min', sec', _, _, _⟩ := c'
  simpa [and_assoc, and_comm, and_left_comm] using heq

theorem civilDays_eq (d : Forms.CivilDate) :
    (civilDays d : Int) = d.days - Forms.daysFromCivil 1 1 1 := by
  have hbounds := d.bounds
  rw [d.days_eq, Forms.months_blocks.start_eq, civilDays]
  simp only [Nat.zero_div, Nat.zero_mod, Nat.zero_add]
  push_cast
  omega

theorem unixSeconds_eq (c : CivilTime) : c.unixSeconds = c.date.days * 86400 + c.clock := by
  have hepoch : unixEpoch.days = 0 := by decide
  rw [unixSeconds, civilDays_eq, civilDays_eq, hepoch]
  omega

theorem clock_lt (c : CivilTime) : c.clock < 86400 := by
  have hhour := c.hour_lt
  have hmin := c.min_lt
  have hsec := c.sec_lt
  rw [clock]
  omega

theorem unixSeconds_lt_iff : c.unixSeconds < c'.unixSeconds ↔ c.Before c' := by
  have hclock := c.clock_lt
  have hclock' := c'.clock_lt
  have hmin := c.min_lt
  have hsec := c.sec_lt
  have hmin' := c'.min_lt
  have hsec' := c'.sec_lt
  have hinj : c.date = c'.date ↔ c.date.days = c'.date.days :=
    ⟨congrArg _, Forms.CivilDate.days_injective⟩
  rw [unixSeconds_eq, unixSeconds_eq, Before, ← Forms.CivilDate.days_lt_iff, hinj]
  simp only [clock] at hclock hclock' ⊢
  omega

theorem daysInMonth_le (year month : Nat) : Forms.daysInMonth year month ≤ 31 := by
  unfold Forms.daysInMonth
  split <;> try split
  all_goals omega

theorem civilToSystem_eq (c : CivilTime) :
    civilToSystem c.date.year c.date.month c.date.day c.hour c.min c.sec =
      some (c.unixSeconds * nanosPerSec) := by
  obtain ⟨hyear, hmonth, hday⟩ := c.date.bounds
  have hlast : c.date.day ≤ 31 := Nat.le_trans hday.2 (daysInMonth_le _ _)
  have hhour := c.hour_lt
  have hmin := c.min_lt
  have hsec := c.sec_lt
  have hdays : c.date.days = Forms.daysFromCivil c.date.year c.date.month c.date.day := rfl
  rw [unixSeconds_eq, hdays, Forms.daysFromCivil_eq _ hyear (by omega), Forms.daysBefore, clock,
    civilToSystem, if_neg (by omega)]
  by_cases hle : c.date.month ≤ 2
  · rw [if_pos hle, if_pos hle, if_pos hle, if_neg (Nat.not_lt.2 hle)]
    dsimp only
    congr 2
    omega
  · rw [if_neg hle, if_neg hle, if_neg hle, if_pos (Nat.lt_of_not_le hle)]
    dsimp only
    congr 2
    omega

end CivilTime

theorem daysInMonth_of_valid {year month : Nat} (h : 1 ≤ month ∧ month ≤ 12) :
    daysInMonth year month = some (Forms.daysInMonth year month) := by
  by_cases hfeb : month = 2
  · subst hfeb
    have hleap : ((year : Int) % 4 = 0 ∧ ((year : Int) % 100 ≠ 0 ∨ (year : Int) % 400 = 0)) ↔
        Forms.isLeapYear year = true := by
      rw [Forms.isLeapYear_iff]
      omega
    rw [daysInMonth, if_neg (by decide), if_neg (by decide), if_pos rfl]
    simp only [hleap, Forms.daysInMonth]
    split <;> rfl
  · obtain ⟨hlow, hhigh⟩ := h
    interval_cases month <;> first | rfl | exact absurd rfl hfeb

theorem month_of_daysInMonth {year : Int} {month last : Nat} (h : daysInMonth year month = some last) :
    1 ≤ month ∧ month ≤ 12 := by
  unfold daysInMonth at h
  split_ifs at h with h31 h30 h28
  · simp only [List.mem_cons, List.not_mem_nil, or_false] at h31
    omega
  · simp only [List.mem_cons, List.not_mem_nil, or_false] at h30
    omega
  · omega
  · omega

/-- The strings with a date are those that name a time from 1601 on, and it is theirs. -/
theorem parseCookieDate_eq_some_iff {s : Text} {t : SystemTime} : parseCookieDate s = some t ↔
    ∃ c : CivilTime, c.Named s ∧ 1601 ≤ c.date.year ∧ t = c.unixSeconds * nanosPerSec := by
  unfold parseCookieDate CivilTime.Named
  rw [dateFields_eq]
  generalize dateFields (cookieDateTokens s) = f
  constructor
  · intro h
    obtain ⟨time, day, month, year⟩ := f
    obtain ⟨year, rfl, hyear⟩ := Option.bind_eq_some_iff.1 h
    obtain ⟨month, rfl, hmonth⟩ := Option.bind_eq_some_iff.1 hyear
    obtain ⟨day, rfl, hday⟩ := Option.bind_eq_some_iff.1 hmonth
    obtain ⟨⟨hour, min, sec⟩, rfl, htime⟩ := Option.bind_eq_some_iff.1 hday
    clear h hyear hmonth hday
    dsimp only at htime
    split_ifs at htime with hrange
    obtain ⟨last, hlast, hcivil⟩ := Option.bind_eq_some_iff.1 htime
    split_ifs at hcivil with hday
    obtain ⟨y, rfl⟩ : ∃ y : Nat, year = y := ⟨year.toNat, by omega⟩
    have hmonth := month_of_daysInMonth hlast
    obtain rfl := Option.some.inj (hlast.symm.trans (daysInMonth_of_valid hmonth))
    let c : CivilTime := ⟨⟨y, month, day, by omega, by simp [Forms.inRange, hmonth],
      by simp only [Forms.inRange, Bool.and_eq_true, decide_eq_true_eq]; omega⟩,
      hour, min, sec, by omega, by omega, by omega⟩
    have hc : some (c.unixSeconds * nanosPerSec) = some t := c.civilToSystem_eq.symm.trans hcivil
    have hearly : 1601 ≤ y := by omega
    exact ⟨c, rfl, hearly, (Option.some.inj hc).symm⟩
  · rintro ⟨c, rfl, hyear, ht⟩
    obtain ⟨-, hmonth, hday⟩ := c.date.bounds
    have hlast : c.date.day ≤ 31 := Nat.le_trans hday.2 (CivilTime.daysInMonth_le _ _)
    have hhour := c.hour_lt
    have hmin := c.min_lt
    have hsec := c.sec_lt
    simp only [Option.bind_eq_bind, Option.bind_some]
    rw [if_neg (by omega), daysInMonth_of_valid hmonth, Option.bind_some,
      if_neg (Nat.not_lt.2 hday.2), c.civilToSystem_eq, ht]

/-- Parsing neither panics nor overflows, gives a time for the strings that name one from 1601 on
and for no others, and that time is the exact distance from the epoch; so a later time gives a later
result. -/
theorem parseCookieDate_exact (s : Text) :
    parseCookieDateChecked s = orReturn (parseCookieDate s) ∧
    (∀ t, parseCookieDate s = some t ↔
      ∃ c : CivilTime, c.Named s ∧ 1601 ≤ c.date.year ∧ t = c.unixSeconds * nanosPerSec) ∧
    ∀ s' t t' (c c' : CivilTime), parseCookieDate s = some t → parseCookieDate s' = some t' → c.Named s →
      c'.Named s' → c.Before c' → t < t' := by
  refine ⟨parseCookieDateChecked_eq s, fun t => parseCookieDate_eq_some_iff, ?_⟩
  intro s' t t' c c' ht ht' hc hc' hbefore
  obtain ⟨d, hd, -, heq⟩ := parseCookieDate_eq_some_iff.1 ht
  obtain ⟨d', hd', -, heq'⟩ := parseCookieDate_eq_some_iff.1 ht'
  obtain rfl := CivilTime.named_unique hc hd
  obtain rfl := CivilTime.named_unique hc' hd'
  rw [heq, heq']
  exact Int.mul_lt_mul_of_pos_right (CivilTime.unixSeconds_lt_iff.2 hbefore) (by decide)

-- before the epoch, with the tokens in another order
example : parseCookieDate "1969 Dec;31,23:59:58".toList = some (-2 * nanosPerSec) := by
  decide +kernel

end TinyBrowser
