import Parvane.Foundation.Calendar
import Parvane.History.Segments

/-!
# The month of a time

The month of a segment is found without tables and in 64 bits.  It is the month of the Gregorian
calendar, carried on in both directions, that the time lies in.
-/

namespace Parvane.History

open Calendar

/-! ## In 64 bits -/

/-- The result of an addition or a multiplication, which panics when it does not fit. -/
def checked64 (value : Int) : Option Int :=
  if -2 ^ 63 ≤ value ∧ value < 2 ^ 63 then some value else none

theorem checked64_bind {value : Int} {next : Int -> Option α}
    (low : -2 ^ 63 ≤ value)
    (high : value < 2 ^ 63) : (checked64 value >>= next) = next value := by
  rw [checked64, if_pos ⟨low, high⟩]
  rfl

/-- The year and the month, as they are computed before they are written out. -/
def yearMonthChecked (tsMs : Int64) : Option (Int × Int) := do
  let days := tsMs.toInt / 86400000
  let z ← checked64 (days + 719468)
  let era := z / 146097
  let doe := z % 146097
  let counted ← checked64 (doe - doe / 1460)
  let counted ← checked64 (counted + doe / 36524)
  let counted ← checked64 (counted - doe / 146096)
  let yoe := counted / 365
  let before ← checked64 (365 * yoe)
  let before ← checked64 (before + yoe / 4)
  let before ← checked64 (before - yoe / 100)
  let doy ← checked64 (doe - before)
  let fifths ← checked64 (5 * doy)
  let fifths ← checked64 (fifths + 2)
  let mp := fifths / 153
  let m ← checked64 (if mp < 10 then mp + 3 else mp - 9)
  let years ← checked64 (era * 400)
  let y ← checked64 (yoe + years)
  let y ← checked64 (y + if m ≤ 2 then 1 else 0)
  return (y, m)

/-- The day of the epoch that a time lies in. -/
def dayOf (tsMs : Int64) : Int :=
  tsMs.toInt / 86400000

section

variable {tsMs : Int64} {year doy : Int}

theorem dayOf_bounds (tsMs : Int64) : -2 ^ 40 < dayOf tsMs ∧ dayOf tsMs < 2 ^ 40 := by
  have low := tsMs.le_toInt
  have high := tsMs.toInt_lt
  unfold dayOf
  omega

/-- The year in its era, of which every value is small. -/
theorem countedYear_checked {doe : Int} {next : Int -> Option α}
    (low : 0 ≤ doe) (high : doe < 146097) :
    (do
      let counted ← checked64 (doe - doe / 1460)
      let counted ← checked64 (counted + doe / 36524)
      let counted ← checked64 (counted - doe / 146096)
      next counted) =
      next (doe - doe / 1460 + doe / 36524 - doe / 146096) := by
  rw [checked64_bind, checked64_bind, checked64_bind]
  all_goals omega

/-- The days of the year, and the number of its month after March. -/
theorem monthOfYear_checked {doe : Int} {next : Int -> Option α}
    (yearLow : 0 ≤ year) (yearHigh : year < 400) (doyLow : 0 ≤ doy) (doyHigh : doy ≤ 365)
    (isDay : doe = 365 * year + year / 4 - year / 100 + doy) :
    (do
      let before ← checked64 (365 * year)
      let before ← checked64 (before + year / 4)
      let before ← checked64 (before - year / 100)
      let doy ← checked64 (doe - before)
      let fifths ← checked64 (5 * doy)
      let fifths ← checked64 (fifths + 2)
      let mp := fifths / 153
      let m ← checked64 (if mp < 10 then mp + 3 else mp - 9)
      next m) =
      next (if (5 * doy + 2) / 153 < 10 then (5 * doy + 2) / 153 + 3
        else (5 * doy + 2) / 153 - 9) := by
  have isDoy : doe - (365 * year + year / 4 - year / 100) = doy := by
    omega
  rw [checked64_bind, checked64_bind, checked64_bind, isDoy, checked64_bind, checked64_bind,
    checked64_bind]
  · exact checked64_bind (by omega) (by omega)
  all_goals omega

/-- The date of a time, and what is computed of it. -/
theorem exists_date (tsMs : Int64) :
    ∃ date : Date, date.IsReal ∧ date.number = dayOf tsMs + 719468 ∧
      yearMonthChecked tsMs = some (date.year, date.month) ∧
      yearMonth tsMs = padded 4 date.year ++ "-" ++ padded 2 date.month := by
  obtain ⟨low, high⟩ := dayOf_bounds tsMs
  obtain ⟨year, doy, isYear, yearLow, yearHigh, doyLow, doyHigh, isDay, leap⟩ :=
    @exists_year ((dayOf tsMs + 719468) % 146097) (by omega) (by omega)
  have leapInEra := @isLeap_add_era year ((dayOf tsMs + 719468) / 146097) ∘ leap
  obtain ⟨isReal, number⟩ := marchDate_spec doyLow doyHigh leapInEra rfl
  have isDoy : (dayOf tsMs + 719468) % 146097 - (365 * year + year / 4 - year / 100) = doy := by
    omega
  have month : (if (5 * doy + 2) / 153 < 10 then (5 * doy + 2) / 153 + 3
      else (5 * doy + 2) / 153 - 9) =
        (5 * doy + 2) / 153 + if (5 * doy + 2) / 153 < 10 then 3 else -9 := by
    split <;> rfl
  refine ⟨_, isReal, ?_, ?_, ?_⟩
  · rw [number, yearStart_add_era yearLow yearHigh]
    omega
  · unfold yearMonthChecked
    change (checked64 (dayOf tsMs + 719468) >>= _) = _
    rw [checked64_bind (by omega) (by omega), countedYear_checked (by omega) (by omega), isYear,
      monthOfYear_checked yearLow yearHigh doyLow doyHigh isDay, month]
    clear isYear isReal number leapInEra leap month isDoy
    rw [checked64_bind (by omega) (by omega), checked64_bind (by omega) (by omega),
      checked64_bind (by split <;> omega) (by split <;> omega)]
    rfl
  · have isDayOf : tsMs.toInt / 86400000 = dayOf tsMs := rfl
    unfold yearMonth
    dsimp only
    rw [isDayOf, isYear, isDoy, month]
    rfl

end

/-- The year and the month of a time are those of the date that it lies in, found without leaving
64 bits, and they only go up. -/
theorem yearMonth_spec :
    (∀ tsMs : Int64, ∃ date : Date, date.IsReal ∧
      date.number - (⟨1970, 1, 1⟩ : Date).number = tsMs.toInt / 86400000 ∧
      yearMonthChecked tsMs = some (date.year, date.month) ∧
      yearMonth tsMs = padded 4 date.year ++ "-" ++ padded 2 date.month) ∧
    ∀ first second : Int64, first ≤ second -> ∀ earlier later,
      yearMonthChecked first = some earlier -> yearMonthChecked second = some later ->
        toLex earlier ≤ toLex later := by
  constructor
  · intro tsMs
    obtain ⟨date, isReal, number, checked, text⟩ := exists_date tsMs
    refine ⟨date, isReal, ?_, checked, text⟩
    have epoch : (⟨1970, 1, 1⟩ : Date).number = 719468 := by decide
    rw [number, epoch, Int.add_sub_cancel, dayOf]
  · intro first second ordered earlier later isEarlier isLater
    obtain ⟨firstDate, firstReal, firstNumber, firstChecked, -⟩ := exists_date first
    obtain ⟨secondDate, secondReal, secondNumber, secondChecked, -⟩ := exists_date second
    cases isEarlier.symm.trans firstChecked
    cases isLater.symm.trans secondChecked
    have days : firstDate.number ≤ secondDate.number := by
      have times := Int64.le_iff_toInt_le.1 ordered
      rw [firstNumber, secondNumber, dayOf, dayOf]
      omega
    have months : firstDate.monthIndex ≤ secondDate.monthIndex := by
      by_contra later
      exact Int.not_lt.2 days
        ((secondReal.number_lt_iff firstReal).2 (.inl (Int.not_le.1 later)))
    have firstMonth := firstReal.month_pos
    have firstMonthLe := firstReal.month_le
    have secondMonth := secondReal.month_pos
    have secondMonthLe := secondReal.month_le
    unfold Date.monthIndex at months
    rw [Prod.Lex.toLex_le_toLex]
    dsimp only
    omega

end Parvane.History
