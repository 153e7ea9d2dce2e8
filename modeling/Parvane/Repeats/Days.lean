import Parvane.Foundation.Calendar
import Parvane.Foundation.Cutting
import Mathlib.Tactic.IntervalCases

/-!
# Days without a time zone

A day is a text of its year, month and date, or the number of days since 1970-01-01.  The two
are computed from each other without tables, and agree with the Gregorian calendar.
-/

namespace Parvane.Repeats

open Trimming Calendar

/-! ## Arithmetic -/

/-- The quotient of integers, rounded down; division itself rounds towards zero. -/
def floorDiv (a b : Int) : Int :=
  if a.tmod b ≠ 0 ∧ decide (a < 0) ≠ decide (b < 0) then a.tdiv b - 1 else a.tdiv b

/-- The number of a day from 1970-01-01 on. -/
def daysFromCivil (year month date : Int) : Int :=
  let y := if month ≤ 2 then year - 1 else year
  let era := (if 0 ≤ y then y else y - 399).tdiv 400
  let yoe := y - era * 400
  let doy := (153 * (month + if month > 2 then -3 else 9) + 2).tdiv 5 + date - 1
  let doe := yoe * 365 + yoe.tdiv 4 - yoe.tdiv 100 + doy
  era * 146097 + doe - 719468

def civilFromDays (day : Int) : Date :=
  let z := day + 719468
  let era := (if 0 ≤ z then z else z - 146096).tdiv 146097
  let doe := z - era * 146097
  let yoe := (doe - doe.tdiv 1460 + doe.tdiv 36524 - doe.tdiv 146096).tdiv 365
  let y := yoe + era * 400
  let doy := doe - (365 * yoe + yoe.tdiv 4 - yoe.tdiv 100)
  let mp := (5 * doy + 2).tdiv 153
  let d := doy - (153 * mp + 2).tdiv 5 + 1
  let m := mp + if mp < 10 then 3 else -9
  ⟨y + if m ≤ 2 then 1 else 0, m, d⟩

/-- The number of a day; months and dates may be too large, and the years up to 99 are those
of the twentieth century. -/
def epochOf (year month date : Int) : Int :=
  let year := if 0 ≤ year ∧ year ≤ 99 then year + 1900 else year
  let m0 := month - 1
  let year := year + floorDiv m0 12
  let m0 := m0 - floorDiv m0 12 * 12
  daysFromCivil year (m0 + 1) 1 + (date - 1)

def daysInMonth (year month : Int) : Int :=
  (civilFromDays (epochOf year (month + 1) 0)).date

/-- The number of a week that begins on Monday. -/
def weekIndexOfEpoch (epoch : Int) : Int :=
  floorDiv (epoch + 3) 7

def mondayOfWeek (week : Int) : Int :=
  week * 7 - 3

/-- The day of the week; Sunday has the number 0. -/
def weekdayOfEpoch (epoch : Int) : Int :=
  ((epoch + 4).tmod 7 + 7).tmod 7

/-! ## Texts of days -/

/-- Whitespace, as it is trimmed. -/
def isSpace (c : Char) : Bool :=
  let code := c.toNat
  (0x9 ≤ code && code ≤ 0xD) || code == 0x20 || code == 0xA0 || code == 0x1680 ||
    (0x2000 ≤ code && code ≤ 0x200A) || code == 0x2028 || code == 0x2029 || code == 0x202F ||
    code == 0x205F || code == 0x3000 || code == 0xFEFF

/-- The number that a part of a text stands for: nothing is zero, and what is no number, or is
too large, is zero too. -/
def numberOf (part : List Char) : Int :=
  let text := trim isSpace isSpace part
  if text.all Char.isDigit && decide (Nat.ofDigitChars 10 text 0 < 10 ^ 15) then
    Nat.ofDigitChars 10 text 0
  else 0

/-- The value as an integer of 32 bits. -/
def narrow (value : Int) : Int :=
  value.bmod (2 ^ 32)

def parts (day : String) : Date :=
  let chunks := day.toList.splitOn '-'
  let num (index : Nat) : Int := (chunks[index]?.map numberOf).getD 0
  ⟨num 0, narrow (num 1), narrow (num 2)⟩

def epochDays (day : String) : Int :=
  let p := parts day
  epochOf p.year p.month p.date

def pad2 (value : Int) : String :=
  if (toString value).length < 2 then "0" ++ toString value else toString value

def keyOf (day : Date) : String :=
  toString day.year ++ "-" ++ pad2 day.month ++ "-" ++ pad2 day.date

def keyOfEpoch (epoch : Int) : String :=
  keyOf (civilFromDays epoch)

/-- Four digits, two digits and two digits. -/
def isDayKey (s : String) : Bool :=
  match s.toList with
  | [a, b, c, d, '-', e, f, '-', g, h] => [a, b, c, d, e, f, g, h].all Char.isDigit
  | _ => false

/-! ## The calendar -/

theorem floorDiv_eq (a : Int) {b : Int} (positive : 0 < b) : floorDiv a b = a / b := by
  have sign : decide (b < 0) = false := by simpa using Int.le_of_lt positive
  rw [floorDiv, sign]
  by_cases divides : b ∣ a
  · rw [if_neg (by simp [Int.dvd_iff_tmod_eq_zero.1 divides]), Int.tdiv_eq_ediv,
      if_pos (.inr divides), Int.add_zero]
  · have notZero : a.tmod b ≠ 0 := fun zero => divides (Int.dvd_iff_tmod_eq_zero.2 zero)
    rw [Int.tdiv_eq_ediv, Int.sign_eq_one_of_pos positive]
    by_cases negative : a < 0
    · rw [if_pos ⟨notZero, by simp [negative]⟩, if_neg (by omega)]
      omega
    · rw [if_neg (by simp [negative]), if_pos (.inl (by omega)), Int.add_zero]

/-- A negative number is moved down before it is divided, so the quotient is rounded down. -/
theorem tdiv_shifted (a : Int) {b : Int} (positive : 0 < b) :
    (if 0 ≤ a then a else a - (b - 1)).tdiv b = a / b := by
  by_cases negative : a < 0
  · have rest := Int.emod_nonneg a (Int.ne_of_gt positive)
    have small := Int.emod_lt_of_pos a positive
    have moved : a - (b - 1) = (a % b + 1) + b * (a / b - 1) := by
      have whole := Int.mul_ediv_add_emod a b
      rw [Int.mul_sub]
      omega
    rw [if_neg (by omega), Int.tdiv_eq_ediv, Int.sign_eq_one_of_pos positive]
    have quotient : (a - (b - 1)) / b = (a % b + 1) / b + (a / b - 1) := by
      rw [moved, Int.add_mul_ediv_left _ _ (Int.ne_of_gt positive)]
    have divides : b ∣ a - (b - 1) ↔ a % b + 1 = b := by
      rw [moved, Int.dvd_add_left (Int.dvd_mul_right _ _)]
      constructor
      · exact fun dvd => Int.le_antisymm (by omega) (Int.le_of_dvd (by omega) dvd)
      · exact fun same => ⟨1, by rw [same, Int.mul_one]⟩
    by_cases last : a % b + 1 = b
    · rw [if_pos (.inr (divides.2 last)), quotient, last, Int.ediv_self (Int.ne_of_gt positive)]
      omega
    · rw [if_neg, quotient, Int.ediv_eq_zero_of_lt (by omega) (by omega)]
      · omega
      · rintro (notNegative | dvd)
        · omega
        · exact last (divides.1 dvd)
  · rw [if_pos (by omega), Int.tdiv_eq_ediv_of_nonneg (by omega)]

theorem daysFromCivil_eq {year month : Int} (low : 1 ≤ month) (date : Int) :
    daysFromCivil year month date = dayNumber year month date - 719468 := by
  have era (y : Int) : (if 0 ≤ y then y else y - 399).tdiv 400 = y / 400 :=
    @tdiv_shifted y 400 (by decide)
  unfold daysFromCivil dayNumber yearStart marchYear marchMonth
  dsimp only
  generalize (if month ≤ 2 then year - 1 else year) = y
  rw [era, Int.tdiv_eq_ediv_of_nonneg (by omega), Int.tdiv_eq_ediv_of_nonneg (by omega),
    Int.tdiv_eq_ediv_of_nonneg (by split <;> omega)]
  by_cases early : month ≤ 2
  · rw [if_neg (by omega), if_pos early]
    omega
  · rw [if_pos (by omega), if_neg early]
    omega

/-- All quotients of the computation are of numbers that are not negative. -/
theorem civilFromDays_eq {epoch year doy : Int}
    (isYear : ((epoch + 719468) % 146097 - (epoch + 719468) % 146097 / 1460 +
      (epoch + 719468) % 146097 / 36524 - (epoch + 719468) % 146097 / 146096) / 365 = year)
    (yearLow : 0 ≤ year) (doyLow : 0 ≤ doy)
    (isDay : (epoch + 719468) % 146097 = 365 * year + year / 4 - year / 100 + doy) :
    civilFromDays epoch =
      marchDate (year + (epoch + 719468) / 146097 * 400) ((5 * doy + 2) / 153) doy := by
  have era (z : Int) : (if 0 ≤ z then z else z - 146096).tdiv 146097 = z / 146097 :=
    @tdiv_shifted z 146097 (by decide)
  have rest : epoch + 719468 - (epoch + 719468) / 146097 * 146097 =
      (epoch + 719468) % 146097 := by
    omega
  have low : 0 ≤ (epoch + 719468) % 146097 := by omega
  have isDoy : (epoch + 719468) % 146097 - (365 * year + year / 4 - year / 100) = doy := by
    omega
  unfold civilFromDays
  dsimp only
  rw [era, rest, Int.tdiv_eq_ediv_of_nonneg low, Int.tdiv_eq_ediv_of_nonneg low,
    Int.tdiv_eq_ediv_of_nonneg low, Int.tdiv_eq_ediv_of_nonneg (by omega), isYear,
    Int.tdiv_eq_ediv_of_nonneg yearLow, Int.tdiv_eq_ediv_of_nonneg yearLow, isDoy,
    Int.tdiv_eq_ediv_of_nonneg (show 0 ≤ 5 * doy + 2 by omega),
    Int.tdiv_eq_ediv_of_nonneg (show 0 ≤ 153 * ((5 * doy + 2) / 153) + 2 by omega)]
  rfl

/-- The year, month and date of a day are real, and those of the day. -/
theorem civilFromDays_spec (epoch : Int) :
    (civilFromDays epoch).IsReal ∧ (civilFromDays epoch).number - 719468 = epoch := by
  obtain ⟨year, doy, isYear, yearLow, yearHigh, doyLow, doyHigh, isDay, leap⟩ :=
    @exists_year ((epoch + 719468) % 146097) (by omega) (by omega)
  obtain ⟨isReal, number⟩ := marchDate_spec doyLow doyHigh (isLeap_add_era ∘ leap) rfl
  rw [civilFromDays_eq isYear yearLow doyLow isDay, number]
  refine ⟨isReal, ?_⟩
  rw [yearStart_add_era yearLow yearHigh]
  omega

end Parvane.Repeats
