/-
Broken-down times of util.c and the Gregorian calendar.

The portable arithmetic counts a leap day for each fourth year after 1968 by a
division that truncates.  Before 1968 it is right in leap years only, and from
March 2100 on it counts a day that there is not.
-/

import Mathlib.Tactic.IntervalCases

namespace Purple.Gregorian

def Leap (year : Int) : Prop := year % 4 = 0 ∧ (year % 100 ≠ 0 ∨ year % 400 = 0)

instance (year : Int) : Decidable (Leap year) := inferInstanceAs (Decidable (_ ∧ _))

def yearLength (year : Int) : Int := if Leap year then 366 else 365

def monthLength (year : Int) : Nat → Int
  | 1 => if Leap year then 29 else 28
  | 3 | 5 | 8 | 10 => 30
  | _ => 31

def daysBeforeMonth (year : Int) : Nat → Int
  | 0 => 0
  | month + 1 => daysBeforeMonth year month + monthLength year month

def daysBeforeYear (year : Int) : Int :=
  365 * (year - 1) + (year - 1) / 4 - (year - 1) / 100 + (year - 1) / 400

theorem daysBeforeYear_succ (year : Int) :
    daysBeforeYear (year + 1) = daysBeforeYear year + yearLength year := by
  rw [daysBeforeYear, daysBeforeYear, yearLength]
  by_cases leap : Leap year
  · rw [if_pos leap]
    unfold Leap at leap
    omega
  · rw [if_neg leap]
    unfold Leap at leap
    omega

theorem daysBeforeMonth_year (year : Int) : daysBeforeMonth year 12 = yearLength year := by
  rw [yearLength]
  by_cases leap : Leap year
  · simp only [daysBeforeMonth, monthLength, if_pos leap]
    rfl
  · simp only [daysBeforeMonth, monthLength, if_neg leap]
    rfl

def dayNumber (year : Int) (month : Nat) (day : Int) : Int :=
  daysBeforeYear year - daysBeforeYear 1970 + daysBeforeMonth year month + (day - 1)

def instant (year : Int) (month : Nat) (day hour minute second : Int) : Int :=
  ((dayNumber year month day * 24 + hour) * 60 + minute) * 60 + second

end Purple.Gregorian

namespace Purple.Time

open Gregorian

structure Tm where
  tmSec : Int
  tmMin : Int
  tmHour : Int
  tmMday : Int
  tmMon : Int
  tmYear : Int
  tmIsdst : Int
deriving Repr, DecidableEq

/-- The time that a broken-down UTC time denotes, its month being one. -/
def Tm.instant (tm : Tm) : Int :=
  Gregorian.instant (tm.tmYear + 1900) tm.tmMon.toNat tm.tmMday tm.tmHour tm.tmMin tm.tmSec

/-- An `int` that overflows wraps. -/
def toInt (value : Int) : Int := (value + 2 ^ 31) % 2 ^ 32 - 2 ^ 31

def daysBefore : List Int := [0, 31, 59, 90, 120, 151, 181, 212, 243, 273, 304, 334]

def mktimeUtc (tm : Tm) : Int :=
  if tm.tmMon < 0 ∨ 11 < tm.tmMon then -1
  else
    let retval := toInt ((tm.tmYear - 70) * 365)
    let retval := retval + (tm.tmYear - 68).tdiv 4
    let retval := retval + (daysBefore.getD tm.tmMon.toNat 0 + tm.tmMday - 1)
    let retval := if tm.tmYear.tmod 4 = 0 ∧ tm.tmMon < 2 then retval - 1 else retval
    ((retval * 24 + tm.tmHour) * 60 + tm.tmMin) * 60 + tm.tmSec

/-- The leap days up to this month of this year are as many as the arithmetic counts. -/
def LeapDaysCounted (year month : Int) : Prop :=
  (1968 ≤ year ∧ (year < 2100 ∨ year = 2100 ∧ month < 2)) ∨
    (year < 1968 ∧ year % 4 = 0 ∧ (year = 1900 → 2 ≤ month))

instance (year month : Int) : Decidable (LeapDaysCounted year month) :=
  inferInstanceAs (Decidable (_ ∨ _))

theorem daysBeforeMonth_eq (year : Int) {month : Nat} (isMonth : month ≤ 11) :
    daysBeforeMonth year month =
      daysBefore.getD month 0 + if Leap year ∧ 2 ≤ month then 1 else 0 := by
  by_cases leap : Leap year
  · interval_cases month <;> simp [daysBeforeMonth, monthLength, leap, daysBefore]
  · interval_cases month <;> simp [daysBeforeMonth, monthLength, leap, daysBefore]

theorem toInt_small {value : Int} (low : -(2 ^ 31) ≤ value) (high : value < 2 ^ 31) :
    toInt value = value := by
  rw [toInt]
  omega

def countedDays (year : Int) (month : Nat) : Int :=
  toInt ((year - 1970) * 365) + (year - 1968).tdiv 4 + daysBefore.getD month 0 -
    if year % 4 = 0 ∧ month < 2 then 1 else 0

theorem mktimeUtc_eq {tm : Tm} (isMonth : 0 ≤ tm.tmMon ∧ tm.tmMon ≤ 11) (admitted : 0 ≤ tm.tmYear) :
    mktimeUtc tm = (((countedDays (tm.tmYear + 1900) tm.tmMon.toNat + (tm.tmMday - 1)) * 24 +
      tm.tmHour) * 60 + tm.tmMin) * 60 + tm.tmSec := by
  have remainder : tm.tmYear.tmod 4 = tm.tmYear % 4 := Int.tmod_eq_emod_of_nonneg admitted
  have years : tm.tmYear + 1900 - 1970 = tm.tmYear - 70 := by omega
  have fourth : tm.tmYear + 1900 - 1968 = tm.tmYear - 68 := by omega
  rw [mktimeUtc, if_neg (by omega), countedDays, years, fourth, remainder]
  by_cases early : tm.tmYear % 4 = 0 ∧ tm.tmMon < 2
  · simp only [if_pos early]
    rw [if_pos (by omega)]
    omega
  · simp only [if_neg early]
    rw [if_neg (by omega)]
    omega

/-- The centuries before this year that ended without a leap day. -/
def centuries (year : Int) : Int := (year - 1) / 100 - (year - 1) / 100 / 4

/-- As many of them as the arithmetic allows for. -/
def centuriesCounted (year : Int) (month : Nat) : Int :=
  if year % 4 = 0 then if Leap year ∨ month < 2 then 15 else 14
  else if year < 1968 then 14 else 15

theorem daysBeforeYear_centuries (year : Int) :
    daysBeforeYear year = 365 * (year - 1) + (year - 1) / 4 - centuries year := by
  have quarter : (year - 1) / 100 / 4 = (year - 1) / 400 := Int.ediv_ediv_of_nonneg (by decide)
  rw [daysBeforeYear, centuries, quarter]
  omega

theorem centuries_upTo {year : Int} (after : 1900 < year) (upTo : year ≤ 2100) :
    centuries year = 15 := by
  have hundreds : (year - 1) / 100 = 19 ∨ (year - 1) / 100 = 20 := by omega
  rw [centuries]
  rcases hundreds with old | new
  · rw [old]
    rfl
  · rw [new]
    rfl

theorem centuries_after {year : Int} (after : 2100 < year) : 16 ≤ centuries year := by
  have hundreds : 21 ≤ (year - 1) / 100 := by omega
  rw [centuries]
  omega

theorem leap_upTo {year : Int} (after : 1900 < year) (upTo : year < 2100) :
    Leap year ↔ year % 4 = 0 := by
  have most : year % 100 = 0 → year = 2000 := by omega
  constructor
  · exact fun leap => leap.1
  · intro fourth
    refine ⟨fourth, ?_⟩
    by_cases round : year % 100 = 0
    · rw [most round]
      exact Or.inr rfl
    · exact Or.inl round

/-- The quotient that truncates, against the one that rounds down. -/
theorem tdiv_fourth (year : Int) :
    (year - 1968).tdiv 4 = year / 4 - 492 + if year % 4 ≠ 0 ∧ year < 1968 then 1 else 0 := by
  rcases Int.lt_or_le year 1968 with early | late
  · rw [← Int.neg_sub, Int.neg_tdiv, Int.tdiv_eq_ediv_of_nonneg (by omega)]
    by_cases fourth : year % 4 = 0
    · rw [if_neg (fun both => both.1 fourth)]
      omega
    · rw [if_pos ⟨fourth, early⟩]
      omega
  · rw [Int.tdiv_eq_ediv_of_nonneg (by omega), if_neg (by omega)]
    omega

theorem countedDays_centuries (year : Int) {month : Nat} (isMonth : month ≤ 11) :
    countedDays year month =
        daysBeforeYear year - daysBeforeYear 1970 + daysBeforeMonth year month ↔
      centuries year + toInt ((year - 1970) * 365) =
        (year - 1970) * 365 + centuriesCounted year month := by
  have epoch : daysBeforeYear 1970 = 719162 := by decide
  rw [daysBeforeMonth_eq year isMonth, countedDays, epoch, daysBeforeYear_centuries, tdiv_fourth,
    centuriesCounted]
  generalize daysBefore.getD month 0 = before
  generalize toInt ((year - 1970) * 365) = days
  generalize centuries year = passed
  by_cases fourth : year % 4 = 0
  · have previous : (year - 1) / 4 = year / 4 - 1 := by omega
    rw [previous, if_neg (fun both => both.1 fourth), if_pos fourth]
    by_cases early : month < 2
    · rw [if_pos ⟨fourth, early⟩, if_neg (by omega), if_pos (Or.inr early)]
      omega
    · rw [if_neg (fun both => early both.2)]
      by_cases leap : Leap year
      · rw [if_pos ⟨leap, by omega⟩, if_pos (Or.inl leap)]
        omega
      · rw [if_neg (fun both => leap both.1), if_neg (fun either => either.elim leap early)]
        omega
  · have previous : (year - 1) / 4 = year / 4 := by omega
    rw [previous, if_neg (c := year % 4 = 0 ∧ month < 2) (fun both => fourth both.1),
      if_neg (c := Leap year ∧ 2 ≤ month) (fun both => fourth both.1.1), if_neg fourth]
    by_cases early : year < 1968
    · rw [if_pos ⟨fourth, early⟩, if_pos early]
      omega
    · rw [if_neg (fun both => early both.2), if_neg early]
      omega

theorem centuriesCounted_bounds (year : Int) (month : Nat) :
    14 ≤ centuriesCounted year month ∧ centuriesCounted year month ≤ 15 := by
  unfold centuriesCounted
  split
  · split <;> decide
  · split <;> decide

theorem centuriesCounted_iff {year : Int} (admitted : 1900 < year) (upTo : year < 2100)
    (month : Nat) : centuriesCounted year month = 15 ↔ LeapDaysCounted year month := by
  rw [centuriesCounted, LeapDaysCounted]
  by_cases fourth : year % 4 = 0
  · rw [if_pos fourth, if_pos (Or.inl ((leap_upTo admitted upTo).mpr fourth))]
    omega
  · rw [if_neg fourth]
    by_cases early : year < 1968
    · rw [if_pos early]
      omega
    · rw [if_neg early]
      omega

theorem countedDays_eq_iff {year : Int} (admitted : 1900 ≤ year) (isInt : year < 2 ^ 31 + 1900)
    {month : Nat} (isMonth : month ≤ 11) :
    countedDays year month =
        daysBeforeYear year - daysBeforeYear 1970 + daysBeforeMonth year month ↔
      LeapDaysCounted year month := by
  rw [countedDays_centuries year isMonth]
  have bounds := centuriesCounted_bounds year month
  rcases Int.lt_or_le ((year - 1970) * 365) (2 ^ 31) with small | overflowed
  · rw [toInt_small (by omega) small, Int.add_comm, Int.add_right_inj]
    rcases Int.lt_or_le 2100 year with after | upTo
    · have more := centuries_after after
      unfold LeapDaysCounted
      omega
    · rcases Int.lt_or_eq_of_le admitted with later | first
      · rw [centuries_upTo later upTo, eq_comm]
        rcases Int.lt_or_eq_of_le upTo with sooner | last
        · exact centuriesCounted_iff later sooner month
        · subst last
          rw [centuriesCounted, if_pos (by decide), LeapDaysCounted]
          by_cases early : month < 2
          · rw [if_pos (Or.inr early)]
            omega
          · rw [if_neg (fun either => either.elim (by decide) early)]
            omega
      · subst first
        rw [centuriesCounted, if_pos (by decide), LeapDaysCounted]
        by_cases early : month < 2
        · rw [if_pos (Or.inr early)]
          exact ⟨fun same => absurd same (by decide), fun counted => by omega⟩
        · rw [if_neg (fun either => either.elim (by decide) early)]
          exact ⟨fun _ => by omega, fun _ => rfl⟩
  · -- the product has wrapped, by far more than the centuries make up for
    have few : centuries year ≤ 2 ^ 31 := by
      rw [centuries]
      omega
    have folded : toInt ((year - 1970) * 365) ≤ (year - 1970) * 365 - 2 ^ 32 := by
      rw [toInt]
      omega
    unfold LeapDaysCounted
    omega

/-- The arithmetic is the calendar's exactly where it counts the leap days right. -/
theorem mktimeUtc_exact_iff (tm : Tm) (isMonth : 0 ≤ tm.tmMon ∧ tm.tmMon ≤ 11)
    (admitted : 0 ≤ tm.tmYear) (isInt : tm.tmYear < 2 ^ 31) :
    mktimeUtc tm = tm.instant ↔ LeapDaysCounted (tm.tmYear + 1900) tm.tmMon := by
  have month : ((tm.tmMon.toNat : Nat) : Int) = tm.tmMon := Int.toNat_of_nonneg isMonth.1
  have counted := @countedDays_eq_iff (tm.tmYear + 1900) (by omega) (by omega) tm.tmMon.toNat (by omega)
  rw [month] at counted
  rw [mktimeUtc_eq isMonth admitted, Tm.instant, Gregorian.instant, dayNumber, ← counted]
  constructor
  · intro same
    omega
  · intro same
    omega

theorem mktimeUtc_leapDay : (0 ≤ (1 : Int) ∧ (1 : Int) ≤ 11) ∧
    mktimeUtc ⟨56, 34, 12, 29, 1, 100, 0⟩ = 951827696 := by
  have exact := (mktimeUtc_exact_iff ⟨56, 34, 12, 29, 1, 100, 0⟩ (by decide) (by decide)
    (by decide)).mpr (by decide)
  exact ⟨by decide, exact.trans (by decide)⟩

/-- The first day of 1967 is taken for the second one. -/
theorem mktimeUtc_nextDay : mktimeUtc ⟨0, 0, 0, 1, 0, 67, 0⟩ = -94608000 ∧
    Tm.instant ⟨0, 0, 0, 1, 0, 67, 0⟩ = -94694400 := by
  decide

end Purple.Time
