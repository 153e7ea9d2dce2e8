import Mathlib.Order.Monotone.Basic
import Mathlib.Algebra.Order.SuccPred
import Mathlib.Order.SuccPred.IntervalSucc
import Mathlib.Data.Int.ConditionallyCompleteOrder

/-!
# The Gregorian calendar

Days are numbered from the first of March of the year 0, so that the leap day is the last day
of its year.  Months are numbered from January of the year 0, and every day belongs to exactly
one of them.
-/

namespace Calendar

def IsLeap (year : Int) : Prop :=
  year % 4 = 0 ∧ (year % 100 ≠ 0 ∨ year % 400 = 0)

instance (year : Int) : Decidable (IsLeap year) :=
  inferInstanceAs (Decidable (_ ∧ _))

def monthLength (year month : Int) : Int :=
  if month = 2 then if IsLeap year then 29 else 28
  else if month = 4 ∨ month = 6 ∨ month = 9 ∨ month = 11 then 30
  else 31

structure Date where
  year : Int
  month : Int
  date : Int
  deriving DecidableEq

structure Date.IsReal (day : Date) : Prop where
  month_pos : 1 ≤ day.month
  month_le : day.month ≤ 12
  date_pos : 1 ≤ day.date
  date_le : day.date ≤ monthLength day.year day.month

/-- The year that began in March before the month. -/
def marchYear (year month : Int) : Int :=
  if month ≤ 2 then year - 1 else year

/-- The number of the month, when March has the number 0. -/
def marchMonth (month : Int) : Int :=
  if month ≤ 2 then month + 9 else month - 3

/-- The number of days before the year that begins in March. -/
def yearStart (year : Int) : Int :=
  365 * year + year / 4 - year / 100 + year / 400

/-- The number of a day. -/
def dayNumber (year month date : Int) : Int :=
  yearStart (marchYear year month) + (153 * marchMonth month + 2) / 5 + date - 1

/-- The number of the first day of a month. -/
def monthStart (index : Int) : Int :=
  dayNumber (index / 12) (index % 12 + 1) 1

def Date.monthIndex (day : Date) : Int :=
  12 * day.year + day.month - 1

def Date.number (day : Date) : Int :=
  dayNumber day.year day.month day.date

theorem yearStart_succ (year : Int) :
    yearStart (year + 1) = yearStart year + if IsLeap (year + 1) then 366 else 365 := by
  by_cases leap : IsLeap (year + 1)
  · rw [if_pos leap]
    unfold IsLeap at leap
    unfold yearStart
    omega
  · rw [if_neg leap]
    unfold IsLeap at leap
    unfold yearStart
    omega

theorem dayNumber_succ_month {year month : Int}
    (low : 1 ≤ month) (high : month ≤ 12) :
    dayNumber (if month = 12 then year + 1 else year) (if month = 12 then 1 else month + 1) 1 =
      dayNumber year month 1 + monthLength year month := by
  have cases : month = 1 ∨ month = 2 ∨ month = 3 ∨ month = 4 ∨ month = 5 ∨ month = 6 ∨
      month = 7 ∨ month = 8 ∨ month = 9 ∨ month = 10 ∨ month = 11 ∨ month = 12 := by
    omega
  have leap := yearStart_succ (year - 1)
  rw [Int.sub_add_cancel] at leap
  rcases cases with rfl | rfl | rfl | rfl | rfl | rfl | rfl | rfl | rfl | rfl | rfl | rfl
  all_goals simp [dayNumber, marchYear, marchMonth, monthLength]
  all_goals first | omega | (rw [leap]; split <;> omega)

theorem monthStart_succ (index : Int) :
    monthStart (index + 1) = monthStart index + monthLength (index / 12) (index % 12 + 1) := by
  rw [monthStart, monthStart, ← dayNumber_succ_month (by omega) (by omega)]
  by_cases december : index % 12 + 1 = 12
  · rw [if_pos december, if_pos december]
    congr 1 <;> omega
  · rw [if_neg december, if_neg december]
    congr 1 <;> omega

theorem monthLength_pos (year month : Int) : 28 ≤ monthLength year month := by
  unfold monthLength
  split_ifs <;> decide

theorem strictMono_monthStart : StrictMono monthStart := by
  apply strictMono_int_of_lt_succ
  intro index
  have positive := monthLength_pos (index / 12) (index % 12 + 1)
  rw [monthStart_succ]
  omega

/-- Every day belongs to one month only. -/
theorem month_unique {first second day : Int}
    (firstStart : monthStart first ≤ day)
    (firstEnd : day < monthStart (first + 1))
    (secondStart : monthStart second ≤ day)
    (secondEnd : day < monthStart (second + 1)) : first = second := by
  have before := strictMono_monthStart.lt_iff_lt.1 (Int.lt_of_le_of_lt firstStart secondEnd)
  have after := strictMono_monthStart.lt_iff_lt.1 (Int.lt_of_le_of_lt secondStart firstEnd)
  omega

section

variable {day other : Date}

theorem Date.number_eq
    (low : 1 ≤ day.month)
    (high : day.month ≤ 12) : day.number = monthStart day.monthIndex + day.date - 1 := by
  have year : (12 * day.year + day.month - 1) / 12 = day.year := by omega
  have month : (12 * day.year + day.month - 1) % 12 + 1 = day.month := by omega
  simp only [Date.number, monthStart, Date.monthIndex, dayNumber, year, month]
  omega

theorem Date.monthLength_eq
    (low : 1 ≤ day.month) (high : day.month ≤ 12) :
    monthStart (day.monthIndex + 1) =
      monthStart day.monthIndex + monthLength day.year day.month := by
  have year : (12 * day.year + day.month - 1) / 12 = day.year := by omega
  have month : (12 * day.year + day.month - 1) % 12 + 1 = day.month := by omega
  rw [monthStart_succ, Date.monthIndex, year, month]

/-- A real date lies in its month. -/
theorem Date.IsReal.in_month (isReal : day.IsReal) :
    monthStart day.monthIndex ≤ day.number ∧ day.number < monthStart (day.monthIndex + 1) := by
  obtain ⟨low, high, datePos, dateLe⟩ := isReal
  rw [Date.number_eq low high, Date.monthLength_eq low high]
  omega

/-- A real date is known by its number. -/
theorem Date.IsReal.injective
    (isReal : day.IsReal) (otherReal : other.IsReal)
    (same : day.number = other.number) : day = other := by
  obtain ⟨first, last⟩ := isReal.in_month
  obtain ⟨otherFirst, otherLast⟩ := otherReal.in_month
  have sameMonth := month_unique first last (same ▸ otherFirst) (same ▸ otherLast)
  rw [Date.number_eq isReal.month_pos isReal.month_le,
    Date.number_eq otherReal.month_pos otherReal.month_le, sameMonth] at same
  have low := isReal.month_pos
  have high := isReal.month_le
  have otherLow := otherReal.month_pos
  have otherHigh := otherReal.month_le
  obtain ⟨year, month, date⟩ := day
  obtain ⟨otherYear, otherMonth, otherDate⟩ := other
  simp only [Date.monthIndex, Date.mk.injEq] at *
  omega

/-- Days are in the order of their months, and in a month in the order of their dates. -/
theorem Date.IsReal.number_lt_iff
    (isReal : day.IsReal) (otherReal : other.IsReal) :
    day.number < other.number ↔
      day.monthIndex < other.monthIndex ∨
        day.monthIndex = other.monthIndex ∧ day.date < other.date := by
  obtain ⟨first, last⟩ := isReal.in_month
  obtain ⟨otherFirst, otherLast⟩ := otherReal.in_month
  rcases Int.lt_trichotomy day.monthIndex other.monthIndex with before | same | after
  · have apart := strictMono_monthStart.monotone (Int.add_one_le_of_lt before)
    omega
  · rw [Date.number_eq isReal.month_pos isReal.month_le,
      Date.number_eq otherReal.month_pos otherReal.month_le, same]
    omega
  · have apart := strictMono_monthStart.monotone (Int.add_one_le_of_lt after)
    omega

end

/-! ## The date of a day -/

/-- The quotients that the year of a day is computed with, from its century, its four years in
the century, and its year in the four. -/
theorem year_eq {c q r doy day : Int}
    (centuryLow : 0 ≤ c) (centuryHigh : c ≤ 3)
    (fourLow : 0 ≤ q) (fourHigh : q ≤ 24)
    (yearLow : 0 ≤ r) (yearHigh : r ≤ 3)
    (doyLow : 0 ≤ doy) (doyHigh : doy ≤ 365)
    (leap : doy = 365 -> r = 3 ∧ (q = 24 -> c = 3))
    (isDay : day = 36524 * c + 1461 * q + 365 * r + doy) :
    (day - day / 1460 + day / 36524 - day / 146096) / 365 = 100 * c + 4 * q + r := by
  have whole : day / 146096 = if c = 3 ∧ q = 24 ∧ r = 3 ∧ doy = 365 then 1 else 0 := by
    split <;> omega
  have century : day / 36524 = if c = 3 ∧ q = 24 ∧ r = 3 ∧ doy = 365 then 4 else c := by
    split <;> omega
  have four : day / 1460 =
      25 * c + q + if 1460 ≤ 24 * c + q + 365 * r + doy then 1 else 0 := by
    split <;> omega
  rw [whole, century, four]
  split <;> split <;> omega

theorem exists_century {day : Int} (low : 0 ≤ day) (high : day < 146097) :
    ∃ c rest, day = 36524 * c + rest ∧ 0 ≤ c ∧ c ≤ 3 ∧ 0 ≤ rest ∧ rest ≤ 36524 ∧
      (rest = 36524 -> c = 3) :=
  ⟨min (day / 36524) 3, day - 36524 * min (day / 36524) 3, by omega, by omega, by omega,
    by omega, by omega, by omega⟩

theorem exists_four {day : Int} (low : 0 ≤ day) (high : day ≤ 36524) :
    ∃ q rest, day = 1461 * q + rest ∧ 0 ≤ q ∧ q ≤ 24 ∧ 0 ≤ rest ∧ rest ≤ 1460 :=
  ⟨day / 1461, day % 1461, by omega, by omega, by omega, by omega, by omega⟩

theorem exists_one {day : Int} (low : 0 ≤ day) (high : day ≤ 1460) :
    ∃ r rest, day = 365 * r + rest ∧ 0 ≤ r ∧ r ≤ 3 ∧ 0 ≤ rest ∧ rest ≤ 365 ∧
      (rest = 365 -> r = 3) :=
  ⟨min (day / 365) 3, day - 365 * min (day / 365) 3, by omega, by omega, by omega, by omega,
    by omega, by omega⟩

/-- The year of the 400 that a day belongs to. -/
theorem exists_year {day : Int} (low : 0 ≤ day) (high : day < 146097) :
    ∃ year doy, (day - day / 1460 + day / 36524 - day / 146096) / 365 = year ∧
      0 ≤ year ∧ year < 400 ∧ 0 ≤ doy ∧ doy ≤ 365 ∧
      day = 365 * year + year / 4 - year / 100 + doy ∧
      (doy = 365 -> IsLeap (year + 1)) := by
  obtain ⟨c, inCentury, isDay, centuryLow, centuryHigh, restLow, restHigh, lastDay⟩ :=
    exists_century low high
  obtain ⟨q, inFour, isRest, fourLow, fourHigh, restLow', restHigh'⟩ :=
    exists_four restLow restHigh
  obtain ⟨r, doy, isYear, yearLow, yearHigh, doyLow, doyHigh, lastYear⟩ :=
    exists_one restLow' restHigh'
  subst isRest isYear
  have leap : doy = 365 -> r = 3 ∧ (q = 24 -> c = 3) := by
    intro last
    exact ⟨lastYear last, fun fourEnd => lastDay (by rw [fourEnd, lastYear last, last]; rfl)⟩
  have whole : day = 36524 * c + 1461 * q + 365 * r + doy := by
    rw [isDay, Int.add_assoc, Int.add_assoc]
  have year := year_eq centuryLow centuryHigh fourLow fourHigh yearLow yearHigh doyLow doyHigh
    leap whole
  have fours : (100 * c + 4 * q + r) / 4 = 25 * c + q := by
    clear * - yearLow yearHigh
    omega
  have hundreds : (100 * c + 4 * q + r) / 100 = c := by
    clear * - fourLow fourHigh yearLow yearHigh
    omega
  refine ⟨100 * c + 4 * q + r, doy, year, ?_, ?_, doyLow, doyHigh, ?_, ?_⟩
  · clear * - centuryLow fourLow yearLow
    omega
  · clear * - centuryHigh fourHigh yearHigh
    omega
  · rw [fours, hundreds, whole]
    clear * -
    omega
  · intro last
    obtain ⟨isThird, isLast⟩ := leap last
    clear * - isThird isLast fourLow fourHigh centuryLow centuryHigh
    unfold IsLeap
    omega

/-- Every 400 years the days are the same. -/
theorem yearStart_add_era {year : Int}
    (low : 0 ≤ year) (high : year < 400) (era : Int) :
    yearStart (year + era * 400) = 365 * year + year / 4 - year / 100 + era * 146097 := by
  unfold yearStart
  omega

theorem isLeap_add_era {year era : Int} (leap : IsLeap (year + 1)) :
    IsLeap (year + era * 400 + 1) := by
  unfold IsLeap at leap ⊢
  omega

/-- The date in a month of a year that begins in March. -/
def marchDate (year mp doy : Int) : Date :=
  let m := mp + if mp < 10 then 3 else -9
  ⟨year + if m ≤ 2 then 1 else 0, m, doy - (153 * mp + 2) / 5 + 1⟩

theorem marchDate_spec {year mp doy : Int}
    (low : 0 ≤ doy) (high : doy ≤ 365)
    (leap : doy = 365 -> IsLeap (year + 1))
    (isMonth : mp = (5 * doy + 2) / 153) :
    (marchDate year mp doy).IsReal ∧ (marchDate year mp doy).number = yearStart year + doy := by
  have first : 153 * mp ≤ 5 * doy + 2 := by omega
  have last : 5 * doy + 2 < 153 * mp + 153 := by omega
  have cases : mp = 0 ∨ mp = 1 ∨ mp = 2 ∨ mp = 3 ∨ mp = 4 ∨ mp = 5 ∨ mp = 6 ∨ mp = 7 ∨
      mp = 8 ∨ mp = 9 ∨ mp = 10 ∨ mp = 11 := by
    omega
  clear isMonth
  rcases cases with rfl | rfl | rfl | rfl | rfl | rfl | rfl | rfl | rfl | rfl | rfl | rfl
  case inr.inr.inr.inr.inr.inr.inr.inr.inr.inr.inr =>
    -- The leap day is the last day of the year that begins in March.
    refine ⟨⟨by simp [marchDate], by simp [marchDate], ?_, ?_⟩, ?_⟩
    · simp only [marchDate]
      omega
    · simp [marchDate, monthLength]
      split
      · omega
      · next notLeap =>
          have notLast : doy ≠ 365 := fun isLast => notLeap (leap isLast)
          omega
    · simp [marchDate, Date.number, dayNumber, marchYear, marchMonth]
      omega
  all_goals
    refine ⟨⟨by simp [marchDate], by simp [marchDate], ?_, ?_⟩, ?_⟩
    · simp only [marchDate]
      omega
    · simp [marchDate, monthLength]
      omega
    · simp [marchDate, Date.number, dayNumber, marchYear, marchMonth]
      omega

end Calendar
