import Mathlib.Logic.Function.Iterate
import Mathlib.Tactic.IntervalCases

/-!
# The Gregorian calendar

Dates with a time of day, and the clock that ticks through them second by second from
1970-01-01 00:00:00. The number of a date (`stamp`) is the number of ticks it takes to get there
(`clock_stamp`), and dates are ordered as their numbers are (`stamp_lt_stamp_iff`).
-/

namespace Calendar

/-- A date and a time of day. -/
structure DateTime where
  year : ℤ
  month : ℤ
  day : ℤ
  hour : ℤ
  minute : ℤ
  second : ℤ
  deriving DecidableEq, Repr

/-- Leap years. -/
def IsLeap (year : ℤ) : Prop := 4 ∣ year ∧ (¬ 100 ∣ year ∨ 400 ∣ year)

instance (year : ℤ) : Decidable (IsLeap year) := inferInstanceAs (Decidable (_ ∧ _))

/-- The number of days of a year. -/
def daysInYear (year : ℤ) : ℤ := if IsLeap year then 366 else 365

/-- The number of days of a month. -/
def daysInMonth (year month : ℤ) : ℤ :=
  if month = 2 then if IsLeap year then 29 else 28
  else if month = 4 ∨ month = 6 ∨ month = 9 ∨ month = 11 then 30
  else 31

namespace DateTime

/-- The dates that exist. -/
structure Valid (d : DateTime) : Prop where
  month : 1 ≤ d.month ∧ d.month ≤ 12
  day : 1 ≤ d.day ∧ d.day ≤ daysInMonth d.year d.month
  hour : 0 ≤ d.hour ∧ d.hour ≤ 23
  minute : 0 ≤ d.minute ∧ d.minute ≤ 59
  second : 0 ≤ d.second ∧ d.second ≤ 59

/-- One date is earlier than another. -/
def Earlier (d e : DateTime) : Prop :=
  d.year < e.year ∨ d.year = e.year ∧ (d.month < e.month ∨ d.month = e.month ∧ (d.day < e.day ∨
    d.day = e.day ∧ (d.hour < e.hour ∨ d.hour = e.hour ∧ (d.minute < e.minute ∨
      d.minute = e.minute ∧ d.second < e.second))))

instance (d e : DateTime) : Decidable (d.Earlier e) := inferInstanceAs (Decidable (_ ∨ _))

/-- The next second. -/
def next (d : DateTime) : DateTime :=
  if d.second < 59 then { d with second := d.second + 1 }
  else if d.minute < 59 then { d with minute := d.minute + 1, second := 0 }
  else if d.hour < 23 then { d with hour := d.hour + 1, minute := 0, second := 0 }
  else if d.day < daysInMonth d.year d.month then
    { d with day := d.day + 1, hour := 0, minute := 0, second := 0 }
  else if d.month < 12 then ⟨d.year, d.month + 1, 1, 0, 0, 0⟩
  else ⟨d.year + 1, 1, 1, 0, 0, 0⟩

end DateTime

/-- The date after so many ticks from 1970-01-01 00:00:00. -/
def clock (n : ℕ) : DateTime := DateTime.next^[n] ⟨1970, 1, 1, 0, 0, 0⟩

/-! ## Days before a month and a year -/

/-- The number of days from the beginning of 1970 to the beginning of a year. -/
def yearStart (year : ℤ) : ℤ :=
  365 * (year - 1970) + ((year - 1) / 4 - 492) - ((year - 1) / 100 - 19) + ((year - 1) / 400 - 4)

/-- The number of days from the beginning of a year to the beginning of a month. -/
def monthStart (year month : ℤ) : ℤ :=
  (367 * month - 362) / 12 + (if month ≤ 2 then 0 else if IsLeap year then -1 else -2)

lemma yearStart_succ (year : ℤ) : yearStart (year + 1) = yearStart year + daysInYear year := by
  unfold yearStart daysInYear IsLeap
  split_ifs <;> omega

lemma daysInYear_pos (year : ℤ) : 0 < daysInYear year := by
  unfold daysInYear
  split_ifs <;> omega

lemma monthStart_one (year : ℤ) : monthStart year 1 = 0 := by
  unfold monthStart
  norm_num

lemma monthStart_succ {month : ℤ} (year : ℤ) (h1 : 1 ≤ month) (h2 : month ≤ 12) :
    monthStart year (month + 1) = monthStart year month + daysInMonth year month := by
  unfold monthStart daysInMonth
  interval_cases month <;> split_ifs <;> omega

lemma monthStart_thirteen (year : ℤ) : monthStart year 13 = daysInYear year := by
  unfold monthStart daysInYear
  split_ifs <;> omega

/-- A later month begins after the last day of an earlier one. -/
lemma monthStart_le {month month' : ℤ} (year : ℤ) (h1 : 1 ≤ month) (hlt : month < month')
    (h2 : month' ≤ 13) : monthStart year month + daysInMonth year month ≤ monthStart year month' := by
  rw [← monthStart_succ year h1 (by omega)]
  unfold monthStart
  split_ifs <;> omega

/-- A later year begins after the last day of an earlier one. -/
lemma yearStart_le {year year' : ℤ} (hlt : year < year') :
    yearStart year + daysInYear year ≤ yearStart year' := by
  rw [← yearStart_succ]
  unfold yearStart
  omega

/-! ## The number of a date -/

namespace DateTime

/-- The number of days before a date. -/
def dayNumber (d : DateTime) : ℤ := yearStart d.year + monthStart d.year d.month + (d.day - 1)

/-- The number of seconds before a date. -/
def stamp (d : DateTime) : ℤ :=
  d.dayNumber * 86400 + d.hour * 3600 + d.minute * 60 + d.second

variable {d e : DateTime}

/-- A date is in its year. -/
lemma Valid.dayNumber_bounds (h : d.Valid) : yearStart d.year + monthStart d.year d.month ≤ d.dayNumber ∧
    d.dayNumber < yearStart d.year + monthStart d.year d.month + daysInMonth d.year d.month ∧
    yearStart d.year ≤ d.dayNumber ∧ d.dayNumber < yearStart d.year + daysInYear d.year := by
  have hday := h.day
  have hend := monthStart_le d.year h.month.1 (show d.month < 13 by have := h.month; omega) le_rfl
  rw [monthStart_thirteen] at hend
  have hbegin : 0 ≤ monthStart d.year d.month := by
    have hmonth := h.month.1
    unfold monthStart
    split_ifs <;> omega
  unfold dayNumber
  omega

lemma Valid.stamp_bounds (h : d.Valid) :
    d.dayNumber * 86400 ≤ d.stamp ∧ d.stamp < (d.dayNumber + 1) * 86400 := by
  have hhour := h.hour
  have hminute := h.minute
  have hsecond := h.second
  unfold stamp
  omega

/-- An earlier date has a smaller number. -/
lemma Earlier.stamp_lt (h : d.Earlier e) (hd : d.Valid) (he : e.Valid) : d.stamp < e.stamp := by
  have hdb := hd.stamp_bounds
  have heb := he.stamp_bounds
  rcases h with hy | ⟨hy, hm | ⟨hm, hday | ⟨hday, h⟩⟩⟩
  · have hdn := hd.dayNumber_bounds
    have hen := he.dayNumber_bounds
    have hle := yearStart_le hy
    omega
  · have hdn := hd.dayNumber_bounds
    have hen := he.dayNumber_bounds
    have hle := monthStart_le d.year hd.month.1 hm (by have := he.month; omega)
    rw [← hy] at hen
    omega
  · have hlt : d.dayNumber < e.dayNumber := by
      unfold dayNumber
      rw [hy, hm]
      omega
    omega
  · have heq : d.dayNumber = e.dayNumber := by
      unfold dayNumber
      rw [hy, hm, hday]
    have hdm := hd.minute
    have hds := hd.second
    have hem := he.minute
    have hes := he.second
    unfold stamp
    rw [heq]
    omega

lemma earlier_trichotomy (d e : DateTime) : d.Earlier e ∨ d = e ∨ e.Earlier d := by
  obtain ⟨y, m, a, h, i, s⟩ := d
  obtain ⟨y', m', a', h', i', s'⟩ := e
  simp only [Earlier, mk.injEq]
  omega

/-- Dates are ordered as their numbers are. -/
lemma stamp_lt_stamp_iff (hd : d.Valid) (he : e.Valid) : d.stamp < e.stamp ↔ d.Earlier e := by
  refine ⟨fun h => ?_, fun h => h.stamp_lt hd he⟩
  rcases earlier_trichotomy d e with hlt | rfl | hgt
  · exact hlt
  · exact absurd h (lt_irrefl _)
  · exact absurd (hgt.stamp_lt he hd) h.not_gt

lemma stamp_injective (hd : d.Valid) (he : e.Valid) (h : d.stamp = e.stamp) : d = e := by
  rcases earlier_trichotomy d e with hlt | heq | hgt
  · exact absurd (hlt.stamp_lt hd he) h.not_lt
  · exact heq
  · exact absurd (hgt.stamp_lt he hd) h.not_gt

/-! ## The clock -/

lemma daysInMonth_pos (year month : ℤ) : 1 ≤ daysInMonth year month := by
  unfold daysInMonth
  split_ifs <;> omega

lemma Valid.next (h : d.Valid) : d.next.Valid := by
  have hmonth := h.month
  have hday := h.day
  have hhour := h.hour
  have hminute := h.minute
  have hsecond := h.second
  unfold DateTime.next
  split_ifs with h1 h2 h3 h4 h5
  · exact ⟨hmonth, hday, hhour, hminute, by simp only; omega⟩
  · exact ⟨hmonth, hday, hhour, by simp only; omega, by simp⟩
  · exact ⟨hmonth, hday, by simp only; omega, by simp, by simp⟩
  · exact ⟨hmonth, by simp only; omega, by simp, by simp, by simp⟩
  · exact ⟨by simp only; omega, ⟨le_rfl, daysInMonth_pos _ _⟩, by simp, by simp, by simp⟩
  · exact ⟨by simp, ⟨le_rfl, daysInMonth_pos _ _⟩, by simp, by simp, by simp⟩

/-- A tick adds one second. -/
lemma Valid.stamp_next (h : d.Valid) : d.next.stamp = d.stamp + 1 := by
  have hmonth := h.month
  have hday := h.day
  have hhour := h.hour
  have hminute := h.minute
  have hsecond := h.second
  unfold DateTime.next
  split_ifs with h1 h2 h3 h4 h5
  · simp only [stamp, dayNumber]
    omega
  · simp only [stamp, dayNumber]
    omega
  · simp only [stamp, dayNumber]
    omega
  · simp only [stamp, dayNumber]
    omega
  · simp only [stamp, dayNumber, monthStart_succ d.year hmonth.1 hmonth.2]
    omega
  · have hdec : d.month = 12 := by omega
    have hend := monthStart_succ d.year hmonth.1 hmonth.2
    rw [hdec, show (12 : ℤ) + 1 = 13 from rfl, monthStart_thirteen] at hend
    simp only [stamp, dayNumber, yearStart_succ, monthStart_one, hdec] at hday h4 ⊢
    omega

end DateTime

open DateTime

lemma valid_clock (n : ℕ) : (clock n).Valid := by
  unfold clock
  induction n with
  | zero => exact ⟨by decide, by decide, by decide, by decide, by decide⟩
  | succ n ih =>
    rw [Function.iterate_succ_apply']
    exact ih.next

lemma stamp_clock (n : ℕ) : (clock n).stamp = n := by
  induction n with
  | zero => rfl
  | succ n ih =>
    have hnext : clock (n + 1) = (clock n).next := Function.iterate_succ_apply' _ _ _
    rw [hnext, (valid_clock n).stamp_next, ih, Nat.cast_succ]

lemma DateTime.Valid.stamp_nonneg {d : DateTime} (h : d.Valid) (hyear : 1970 ≤ d.year) : 0 ≤ d.stamp := by
  have hday := h.dayNumber_bounds
  have hstamp := h.stamp_bounds
  have hstart : 0 ≤ yearStart d.year := by
    unfold yearStart
    omega
  omega

/-- The number of a date is the number of ticks from 1970-01-01 00:00:00. -/
lemma clock_eq_iff {d : DateTime} (h : d.Valid) (n : ℕ) : clock n = d ↔ d.stamp = n := by
  constructor
  · rintro rfl
    exact stamp_clock n
  · intro hn
    exact stamp_injective (valid_clock n) h ((stamp_clock n).trans hn.symm)

end Calendar
