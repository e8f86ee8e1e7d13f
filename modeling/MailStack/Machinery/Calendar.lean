import Mathlib.Algebra.BigOperators.Intervals
import Mathlib.Tactic.IntervalCases

/-!
# Machinery/Calendar — the proleptic Gregorian calendar

The days of a calendar are counted month by month and year by year.  `daysFrom_eq` is the count in
closed form, with the leap years before a year counted by quotients (`leapsBefore`).
-/

namespace Calendar

open Finset

def IsLeap (y : ℕ) : Prop := y % 4 = 0 ∧ (y % 100 ≠ 0 ∨ y % 400 = 0)

instance (y : ℕ) : Decidable (IsLeap y) := inferInstanceAs (Decidable (_ ∧ _))

def daysInMonth (y m : ℕ) : ℕ :=
  if m = 2 then if IsLeap y then 29 else 28
  else if m ∈ [4, 6, 9, 11] then 30
  else 31

/-- The days of a year before a month. -/
def daysBeforeMonth (y m : ℕ) : ℕ := ∑ k ∈ Ico 1 m, daysInMonth y k

def daysInYear (y : ℕ) : ℕ := daysBeforeMonth y 13

/-- A date that exists. -/
structure Date where
  year : ℕ
  month : ℕ
  day : ℕ
  one_le_month : 1 ≤ month
  month_le : month ≤ 12
  one_le_day : 1 ≤ day
  day_le : day ≤ daysInMonth year month

theorem daysInMonth_le (y m : ℕ) : daysInMonth y m ≤ 31 := by
  rw [daysInMonth]
  split_ifs <;> decide

/-- The days from the start of the year `e` up to a date, the date included. -/
def Date.daysFrom (e : ℕ) (d : Date) : ℕ :=
  ∑ y ∈ Ico e d.year, daysInYear y + daysBeforeMonth d.year d.month + d.day

/-! ## Leap years -/

/-- The leap years before a year. -/
def leapsBefore (y : ℕ) : ℕ := (y - 1) / 4 - (y - 1) / 100 + (y - 1) / 400

/-- A quotient grows by one where its divisor divides the year. -/
theorem leapsBefore_succ {y : ℕ} (hy : 1 ≤ y) :
    leapsBefore (y + 1) = leapsBefore y + if IsLeap y then 1 else 0 := by
  obtain ⟨k, rfl⟩ := Nat.exists_eq_add_of_le' hy
  have hle : k / 100 ≤ k / 4 := Nat.div_le_div_left (by decide) (by decide)
  simp only [leapsBefore, Nat.add_sub_cancel, Nat.succ_div, Nat.dvd_iff_mod_eq_zero]
  generalize k / 4 = fourths at *
  generalize k / 100 = centuries at *
  by_cases h : IsLeap (k + 1)
  · rw [if_pos h]
    rw [IsLeap] at h
    split_ifs <;> omega
  · rw [if_neg h]
    rw [IsLeap] at h
    split_ifs <;> omega

/-- The days before a month in a common year. -/
def commonDays : ℕ → ℕ
  | 1 => 0
  | 2 => 31
  | 3 => 59
  | 4 => 90
  | 5 => 120
  | 6 => 151
  | 7 => 181
  | 8 => 212
  | 9 => 243
  | 10 => 273
  | 11 => 304
  | 12 => 334
  | _ => 365

/-- What a month adds. -/
theorem commonDays_succ (y : ℕ) {m : ℕ} (hlo : 1 ≤ m) (hhi : m ≤ 12) :
    commonDays (m + 1) + (if 2 < m + 1 ∧ IsLeap y then 1 else 0) =
      commonDays m + (if 2 < m ∧ IsLeap y then 1 else 0) + daysInMonth y m := by
  by_cases hy : IsLeap y
  · interval_cases m <;> simp [commonDays, daysInMonth, hy]
  · interval_cases m <;> simp [commonDays, daysInMonth, hy]

theorem daysBeforeMonth_eq (y : ℕ) {m : ℕ} (hlo : 1 ≤ m) (hhi : m ≤ 13) :
    daysBeforeMonth y m = commonDays m + if 2 < m ∧ IsLeap y then 1 else 0 := by
  induction m, hlo using Nat.le_induction with
  | base => rfl
  | succ m hlo ih =>
    have hm : m ≤ 12 := Nat.le_of_succ_le_succ hhi
    rw [commonDays_succ y hlo hm, ← ih (Nat.le_succ_of_le hm), daysBeforeMonth,
      sum_Ico_succ_top hlo, daysBeforeMonth]

theorem daysInYear_eq (y : ℕ) : daysInYear y = 365 + if IsLeap y then 1 else 0 := by
  rw [daysInYear, daysBeforeMonth_eq y (by decide) (by decide)]
  simp [commonDays]

/-- **The days of whole years.** -/
theorem sum_daysInYear {e y : ℕ} (he : 1 ≤ e) (h : e ≤ y) :
    ∑ k ∈ Ico e y, daysInYear k + leapsBefore e = 365 * (y - e) + leapsBefore y := by
  induction y, h using Nat.le_induction with
  | base => simp
  | succ y h ih =>
    rw [sum_Ico_succ_top h, daysInYear_eq, leapsBefore_succ (Nat.le_trans he h)]
    omega

/-- **The days up to a date**, in closed form. -/
theorem Date.daysFrom_eq {e : ℕ} (d : Date) (he : 1 ≤ e) (h : e ≤ d.year) :
    d.daysFrom e + leapsBefore e = 365 * (d.year - e) + leapsBefore d.year + commonDays d.month +
      (if 2 < d.month ∧ IsLeap d.year then 1 else 0) + d.day := by
  have hyears := sum_daysInYear he h
  have hmonths := daysBeforeMonth_eq d.year d.one_le_month (Nat.le_succ_of_le d.month_le)
  rw [daysFrom]
  omega

end Calendar
