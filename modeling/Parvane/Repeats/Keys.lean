import Parvane.Foundation.Decimals
import Parvane.Repeats.Days

/-!
# Texts and numbers of days

For real dates with years of four digits, the text of a day, its date and its number say the
same, and texts are in the order of the days.
-/

namespace Parvane.Repeats

open Trimming Calendar Decimals

/-- A real date with a year of four digits. -/
structure IsDay (day : Date) : Prop where
  isReal : day.IsReal
  year_low : 1000 ≤ day.year
  year_high : day.year ≤ 9999

/-- The text of such a date. -/
def RealDay (day : String) : Prop :=
  ∃ date, IsDay date ∧ day = keyOf date

/-- The number of a date from 1970-01-01 on. -/
def epochOfDate (day : Date) : Int :=
  day.number - 719468

/-! ## Dates and numbers -/

section

variable {day other : Date} {epoch : Int}

theorem epochOfDate_civilFromDays (epoch : Int) : epochOfDate (civilFromDays epoch) = epoch :=
  (civilFromDays_spec epoch).2

theorem civilFromDays_epochOfDate (isReal : day.IsReal) :
    civilFromDays (epochOfDate day) = day := by
  obtain ⟨otherReal, number⟩ := civilFromDays_spec (epochOfDate day)
  refine otherReal.injective isReal ?_
  rw [epochOfDate] at number ⊢
  omega

/-- Months may be too large: then the year is moved. -/
theorem epochOf_eq {year : Int} (late : 100 ≤ year) (month date : Int) :
    epochOf year month date = monthStart (12 * year + month - 1) + date - 1 - 719468 := by
  have quotient : (12 * year + month - 1) / 12 = year + (month - 1) / 12 := by omega
  have rest : (12 * year + month - 1) % 12 = month - 1 - (month - 1) / 12 * 12 := by omega
  unfold epochOf
  dsimp only
  rw [if_neg (by omega), floorDiv_eq _ (by decide), daysFromCivil_eq (by omega), monthStart,
    quotient, rest]
  omega

theorem epochOf_date
    (low : 1 ≤ day.month) (high : day.month ≤ 12)
    (late : 100 ≤ day.year) : epochOf day.year day.month day.date = epochOfDate day := by
  rw [epochOf_eq late, epochOfDate, Date.number_eq low high, Date.monthIndex]

theorem daysInMonth_eq {year month : Int}
    (low : 1 ≤ month) (high : month ≤ 12)
    (late : 100 ≤ year) : daysInMonth year month = monthLength year month := by
  have positive := monthLength_pos year month
  have isReal : Date.IsReal ⟨year, month, monthLength year month⟩ :=
    ⟨low, high, by dsimp only; omega, Int.le_refl _⟩
  have last : epochOf year (month + 1) 0 = epochOfDate ⟨year, month, monthLength year month⟩ := by
    have length := @Date.monthLength_eq ⟨year, month, monthLength year month⟩ low high
    rw [epochOf_eq late, epochOfDate, Date.number_eq low high]
    simp only [Date.monthIndex] at length ⊢
    rw [show 12 * year + (month + 1) - 1 = 12 * year + month - 1 + 1 by omega, length]
    omega
  rw [daysInMonth, last, civilFromDays_epochOfDate isReal]

theorem weekdayOfEpoch_eq (epoch : Int) : weekdayOfEpoch epoch = (epoch + 4) % 7 := by
  unfold weekdayOfEpoch
  rw [Int.tmod_eq_emod_of_nonneg, Int.tmod_eq_emod]
  · split <;> omega
  · rw [Int.tmod_eq_emod]
    split <;> omega

theorem weekIndexOfEpoch_eq (epoch : Int) : weekIndexOfEpoch epoch = (epoch + 3) / 7 :=
  floorDiv_eq _ (by decide)

end

/-! ## Texts -/

section

variable {day other : Date}

theorem toList_toString {value : Int} (notNegative : 0 ≤ value) :
    (toString value).toList = Nat.toDigits 10 value.toNat := by
  obtain ⟨number, rfl⟩ := Int.eq_ofNat_of_zero_le notNegative
  rw [Int.toNat_natCast, ← Nat.toList_repr]
  rfl

theorem toList_pad2 {value : Int} (notNegative : 0 ≤ value) (small : value < 100) :
    (pad2 value).toList = padded 2 value.toNat := by
  have digits := toList_toString notNegative
  rw [pad2, ← String.length_toList]
  by_cases short : value < 10
  · rw [Nat.toDigits_of_lt_base (by omega)] at digits
    rw [if_pos (by rw [digits]; exact Nat.lt_succ_self 1), String.toList_append, digits, padded,
      padded, padded,
      Nat.mod_eq_of_lt (show value.toNat < 10 by omega),
      Nat.div_eq_of_lt (show value.toNat < 10 by omega)]
    rfl
  · rw [toDigits_eq_padded (show 10 ^ 1 ≤ value.toNat by omega) (by omega)] at digits
    rw [if_neg (by rw [digits, length_padded]; decide), digits]

theorem monthLength_le (year month : Int) : monthLength year month ≤ 31 := by
  unfold monthLength
  split_ifs <;> decide

theorem toList_keyOf (isDay : IsDay day) :
    (keyOf day).toList = padded 4 day.year.toNat ++ '-' :: (padded 2 day.month.toNat ++
      '-' :: padded 2 day.date.toNat) := by
  obtain ⟨⟨monthLow, monthHigh, dateLow, dateHigh⟩, yearLow, yearHigh⟩ := isDay
  have short := monthLength_le day.year day.month
  simp only [keyOf, String.toList_append]
  rw [toList_toString (by omega), toList_pad2 (by omega) (by omega),
    toList_pad2 (by omega) (by omega),
    toDigits_eq_padded (show 10 ^ 3 ≤ day.year.toNat by omega) (by omega)]
  simp only [List.append_assoc]
  rfl

/-- The texts are in the order of the days. -/
theorem keyOf_lt_iff (isDay : IsDay day) (otherDay : IsDay other) :
    keyOf day < keyOf other ↔ epochOfDate day < epochOfDate other := by
  have order : keyOf day < keyOf other ↔
      day.year < other.year ∨ day.year = other.year ∧
        (day.month < other.month ∨ day.month = other.month ∧ day.date < other.date) := by
    obtain ⟨⟨monthLow, monthHigh, dateLow, dateHigh⟩, yearLow, yearHigh⟩ := isDay
    obtain ⟨⟨monthLow', monthHigh', dateLow', dateHigh'⟩, yearLow', yearHigh'⟩ := otherDay
    have short := monthLength_le day.year day.month
    have short' := monthLength_le other.year other.month
    rw [String.lt_iff, toList_keyOf ⟨⟨monthLow, monthHigh, dateLow, dateHigh⟩, yearLow, yearHigh⟩,
      toList_keyOf ⟨⟨monthLow', monthHigh', dateLow', dateHigh'⟩, yearLow', yearHigh'⟩,
      append_lt_append_iff (by simp), padded_lt_padded_iff (by omega) (by omega),
      padded_inj (by omega) (by omega), List.cons_lt_cons_iff, append_lt_append_iff (by simp),
      padded_lt_padded_iff (by omega) (by omega), padded_inj (by omega) (by omega),
      List.cons_lt_cons_iff, padded_lt_padded_iff (by omega) (by omega)]
    simp only [Char.lt_irrefl, true_and, false_or]
    omega
  have number : epochOfDate day < epochOfDate other ↔ day.number < other.number := by
    unfold epochOfDate
    omega
  rw [order, number, isDay.isReal.number_lt_iff otherDay.isReal]
  have low := isDay.isReal.month_pos
  have high := isDay.isReal.month_le
  have low' := otherDay.isReal.month_pos
  have high' := otherDay.isReal.month_le
  unfold Date.monthIndex
  omega

theorem trim_padded (width number : Nat) :
    trim isSpace isSpace (padded width number) = padded width number := by
  have notSpace (c : Char) (digit : c.isDigit = true) : isSpace c = false := by
    have code : 48 ≤ c.toNat ∧ c.toNat ≤ 57 := by
      simpa [Char.isDigit, UInt32.le_iff_toNat_le] using digit
    simp only [isSpace, Bool.or_eq_false_iff, Bool.and_eq_false_iff, beq_eq_false_iff_ne,
      decide_eq_false_iff_not]
    omega
  exact trim_eq_self_iff.2
    ⟨fun c head => notSpace c (isDigit_of_mem_padded (List.mem_of_mem_head? head)),
      fun c last => notSpace c (isDigit_of_mem_padded (List.mem_of_mem_getLast? last))⟩

theorem all_isDigit_padded (width number : Nat) : (padded width number).all Char.isDigit = true :=
  List.all_eq_true.2 fun _ => isDigit_of_mem_padded

theorem numberOf_padded {width number : Nat} (small : number < 10 ^ width) (short : width ≤ 15) :
    numberOf (padded width number) = number := by
  have fits : number < 10 ^ 15 :=
    Nat.lt_of_lt_of_le small (Nat.pow_le_pow_right (by decide) short)
  unfold numberOf
  dsimp only
  rw [trim_padded, all_isDigit_padded, ofDigitChars_padded small, decide_eq_true fits]
  rfl

/-- The text of a day is read as its date. -/
theorem parts_keyOf (isDay : IsDay day) : parts (keyOf day) = day := by
  have noDash {width number : Nat} : '-' ∉ padded width number := fun member =>
    absurd (isDigit_of_mem_padded member) (by decide)
  have chars := toList_keyOf isDay
  obtain ⟨⟨monthLow, monthHigh, dateLow, dateHigh⟩, yearLow, yearHigh⟩ := isDay
  have short := monthLength_le day.year day.month
  have chunks : (keyOf day).toList.splitOn '-' =
      [padded 4 day.year.toNat, padded 2 day.month.toNat, padded 2 day.date.toNat] := by
    rw [chars, List.splitOn_append_cons_self_of_not_mem noDash,
      List.splitOn_append_cons_self_of_not_mem noDash, List.splitOn_eq_singleton noDash]
  have narrowed (value : Int) (low : 0 ≤ value) (high : value < 100) : narrow value = value :=
    Int.bmod_eq_of_le (by omega) (by omega)
  have year : numberOf (padded 4 day.year.toNat) = day.year := by
    rw [numberOf_padded (by omega) (by decide)]
    omega
  have month : numberOf (padded 2 day.month.toNat) = day.month := by
    rw [numberOf_padded (by omega) (by decide)]
    omega
  have date : numberOf (padded 2 day.date.toNat) = day.date := by
    rw [numberOf_padded (by omega) (by decide)]
    omega
  unfold parts
  dsimp only
  rw [chunks]
  simp only [List.getElem?_cons_zero, List.getElem?_cons_succ, Option.map_some, Option.getD_some,
    year, month, date, narrowed day.month (by omega) (by omega),
    narrowed day.date (by omega) (by omega)]

theorem epochDays_keyOf (isDay : IsDay day) : epochDays (keyOf day) = epochOfDate day := by
  have late := isDay.year_low
  rw [epochDays, parts_keyOf isDay]
  exact epochOf_date isDay.isReal.month_pos isDay.isReal.month_le (by omega)

theorem isDayKey_keyOf (isDay : IsDay day) : isDayKey (keyOf day) = true := by
  have digit (number : Nat) : (number % 10).digitChar.isDigit = true := by
    rw [Nat.isDigit_digitChar, decide_eq_true_eq]
    exact Nat.mod_lt _ (by decide)
  rw [isDayKey, toList_keyOf isDay]
  simp only [padded, List.nil_append, List.cons_append, List.all_cons, List.all_nil, digit,
    Bool.and_true]

end

end Parvane.Repeats
