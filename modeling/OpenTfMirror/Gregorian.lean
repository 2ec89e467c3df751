import Mathlib.Algebra.BigOperators.Intervals
import Mathlib.Algebra.Order.BigOperators.Group.Finset
import Mathlib.Tactic.IntervalCases

/-!
# The proleptic Gregorian calendar

Dates from year 0 on, the day after a date, and the number of days before it,
counted year by year and month by month. The number grows by one from each day
to the next and orders the dates; so do the seconds since the Unix epoch order
the moments of the days.
-/

namespace OpenTfMirror.Gregorian

open Finset

def isLeap (year : ℕ) : Bool := year % 4 = 0 && (year % 100 ≠ 0 || year % 400 = 0)

def yearLength (year : ℕ) : ℕ := if isLeap year then 366 else 365

def monthLength (year month : ℕ) : ℕ :=
  if month = 2 then if isLeap year then 29 else 28
  else if month = 4 ∨ month = 6 ∨ month = 9 ∨ month = 11 then 30
  else 31

/-- A date that exists. -/
@[ext] structure Date where
  year : ℕ
  month : ℕ
  day : ℕ
  month_pos : 1 ≤ month
  month_le : month ≤ 12
  day_pos : 1 ≤ day
  day_le : day ≤ monthLength year month

theorem monthLength_pos (year month : ℕ) : 28 ≤ monthLength year month := by
  unfold monthLength
  split
  · split
    · decide
    · decide
  · split
    · decide
    · decide

theorem monthLength_le (year month : ℕ) : monthLength year month ≤ 31 := by
  unfold monthLength
  split
  · split
    · decide
    · decide
  · split
    · decide
    · decide

/-- The day after a date. -/
def Date.next (d : Date) : Date :=
  if h : d.day < monthLength d.year d.month then
    { d with day := d.day + 1, day_pos := by omega, day_le := h }
  else if h' : d.month < 12 then
    { d with
      month := d.month + 1
      day := 1
      month_pos := by omega
      month_le := h'
      day_pos := le_rfl
      day_le := le_trans (by decide) (monthLength_pos _ _) }
  else
    { year := d.year + 1
      month := 1
      day := 1
      month_pos := le_rfl
      month_le := by decide
      day_pos := le_rfl
      day_le := le_trans (by decide) (monthLength_pos _ _) }

/-- The earlier date, by year, month and day. -/
def Date.Before (d d' : Date) : Prop :=
  d.year < d'.year ∨
    d.year = d'.year ∧ (d.month < d'.month ∨ d.month = d'.month ∧ d.day < d'.day)

/-- The days of the years before this one. -/
def daysBeforeYear (year : ℕ) : ℕ := ∑ y ∈ range year, yearLength y

/-- The days of the year's months before this one. -/
def daysBeforeMonth (year month : ℕ) : ℕ := ∑ m ∈ Ico 1 month, monthLength year m

/-- The number of days before a date, from the first of January of year 0 on. -/
def Date.ordinal (d : Date) : ℕ :=
  daysBeforeYear d.year + daysBeforeMonth d.year d.month + (d.day - 1)

theorem daysBeforeYear_succ (year : ℕ) :
    daysBeforeYear (year + 1) = daysBeforeYear year + yearLength year := sum_range_succ _ _

theorem daysBeforeMonth_succ {year month : ℕ} (h : 1 ≤ month) :
    daysBeforeMonth year (month + 1) = daysBeforeMonth year month + monthLength year month :=
  sum_Ico_succ_top h _

theorem daysBeforeMonth_one (year : ℕ) : daysBeforeMonth year 1 = 0 := rfl

/-- The twelve months make the year. -/
theorem daysBeforeMonth_year (year : ℕ) : daysBeforeMonth year 13 = yearLength year := by
  have hunfold : daysBeforeMonth year 13 = 31 + monthLength year 2 + 306 := by
    simp [daysBeforeMonth, sum_Ico_succ_top, monthLength]
  rw [hunfold, monthLength, yearLength]
  cases isLeap year <;> rfl

theorem daysBeforeYear_mono {year year' : ℕ} (h : year ≤ year') :
    daysBeforeYear year ≤ daysBeforeYear year' :=
  sum_le_sum_of_subset (range_mono h)

theorem daysBeforeMonth_mono {year month month' : ℕ} (h : month ≤ month') :
    daysBeforeMonth year month ≤ daysBeforeMonth year month' :=
  sum_le_sum_of_subset (Ico_subset_Ico_right h)

/-- A date lies in its month, and in its year. -/
theorem Date.ordinal_lt_month (d : Date) :
    d.ordinal < daysBeforeYear d.year + daysBeforeMonth d.year (d.month + 1) := by
  have hmonth := @daysBeforeMonth_succ d.year d.month d.month_pos
  have hday := d.day_le
  have hpos := d.day_pos
  unfold Date.ordinal
  omega

theorem Date.ordinal_lt_year (d : Date) : d.ordinal < daysBeforeYear (d.year + 1) := by
  have hmonth := d.ordinal_lt_month
  have hlast : daysBeforeMonth d.year (d.month + 1) ≤ daysBeforeMonth d.year 13 :=
    daysBeforeMonth_mono (Nat.succ_le_succ d.month_le)
  rw [daysBeforeMonth_year] at hlast
  rw [daysBeforeYear_succ]
  omega

/-- From a day to the next the number grows by one. -/
theorem Date.ordinal_next (d : Date) : d.next.ordinal = d.ordinal + 1 := by
  have hpos := d.day_pos
  have hle := d.day_le
  unfold Date.next
  split
  · unfold Date.ordinal
    dsimp only
    omega
  · next hlast =>
      split
      · have hmonth := @daysBeforeMonth_succ d.year d.month d.month_pos
        unfold Date.ordinal
        dsimp only
        omega
      · next hend =>
          have hmonth : d.month = 12 := le_antisymm d.month_le (not_lt.mp hend)
          have hyear := daysBeforeMonth_year d.year
          rw [daysBeforeMonth_succ (by decide)] at hyear
          have hone := daysBeforeMonth_one (d.year + 1)
          unfold Date.ordinal
          dsimp only
          rw [hmonth] at hlast hle ⊢
          rw [daysBeforeYear_succ]
          omega

/-- The number orders the dates. -/
theorem Date.ordinal_lt {d d' : Date} (h : d.Before d') : d.ordinal < d'.ordinal := by
  rcases h with hyear | ⟨hyear, hmonth | ⟨hmonth, hday⟩⟩
  · have hd := d.ordinal_lt_year
    have hmono : daysBeforeYear (d.year + 1) ≤ daysBeforeYear d'.year := daysBeforeYear_mono hyear
    unfold Date.ordinal at hd ⊢
    omega
  · have hd := d.ordinal_lt_month
    have hmono : daysBeforeMonth d.year (d.month + 1) ≤ daysBeforeMonth d.year d'.month :=
      daysBeforeMonth_mono hmonth
    unfold Date.ordinal at hd ⊢
    rw [← hyear]
    omega
  · have hpos := d.day_pos
    unfold Date.ordinal
    rw [← hyear, ← hmonth]
    omega

/-- The days before a year in closed form: a leap day every fourth year, but not
every hundredth, and yet every four hundredth. -/
theorem daysBeforeYear_eq (year : ℕ) :
    daysBeforeYear year + (year + 99) / 100 = 365 * year + (year + 3) / 4 + (year + 399) / 400 := by
  induction year with
  | zero => rfl
  | succ year ih =>
    rw [daysBeforeYear_succ, yearLength, isLeap]
    split
    · next h =>
        simp only [Bool.and_eq_true, Bool.or_eq_true, decide_eq_true_eq, ne_eq] at h
        omega
    · next h =>
        simp only [Bool.and_eq_true, Bool.or_eq_true, decide_eq_true_eq, ne_eq] at h
        omega

/-- The days before a month in closed form, with a year that ends in February. -/
theorem daysBeforeMonth_eq {year month : ℕ} (hpos : 1 ≤ month) (hle : month ≤ 12) :
    daysBeforeMonth year month =
      if month ≤ 2 then 31 * (month - 1)
      else (153 * (month - 3) + 2) / 5 + 31 + monthLength year 2 := by
  interval_cases month <;> simp [daysBeforeMonth, sum_Ico_succ_top, monthLength] <;> omega

/-- The first of January 1970. -/
def epoch : Date := ⟨1970, 1, 1, by decide, by decide, by decide, by decide⟩

theorem epoch_ordinal : epoch.ordinal = 719528 := by
  have hyear := daysBeforeYear_eq 1970
  have hmonth := daysBeforeMonth_one 1970
  unfold Date.ordinal
  simp only [epoch]
  omega

/-- A second of a day. -/
@[ext] structure Moment where
  date : Date
  hour : ℕ
  minute : ℕ
  second : ℕ
  hour_le : hour ≤ 23
  minute_le : minute ≤ 59
  second_le : second ≤ 59

/-- The earlier moment, by date, hour, minute and second. -/
def Moment.Before (m m' : Moment) : Prop :=
  m.date.Before m'.date ∨ m.date = m'.date ∧ (m.hour < m'.hour ∨
    m.hour = m'.hour ∧ (m.minute < m'.minute ∨ m.minute = m'.minute ∧ m.second < m'.second))

/-- The seconds since the epoch; before it they are negative. -/
def Moment.unix (m : Moment) : ℤ :=
  ((m.date.ordinal : ℤ) - epoch.ordinal) * 86400 + m.hour * 3600 + m.minute * 60 + m.second

/-- The seconds order the moments. -/
theorem Moment.unix_lt {m m' : Moment} (h : m.Before m') : m.unix < m'.unix := by
  have hhour := m.hour_le
  have hminute := m.minute_le
  have hsecond := m.second_le
  unfold Moment.unix
  rcases h with hdate | ⟨hdate, hhours | ⟨hhours, hminutes | ⟨hminutes, hseconds⟩⟩⟩
  · have hdays := Date.ordinal_lt hdate
    omega
  · rw [hdate]
    omega
  · rw [hdate]
    omega
  · rw [hdate]
    omega

/-- The same time on the next day. -/
def Moment.tomorrow (m : Moment) : Moment := { m with date := m.date.next }

theorem Moment.unix_tomorrow (m : Moment) : m.tomorrow.unix = m.unix + 86400 := by
  have hnext := m.date.ordinal_next
  simp only [Moment.unix, Moment.tomorrow]
  omega

end OpenTfMirror.Gregorian
