import Mathlib.Algebra.Group.Nat.Defs
import Mathlib.Data.List.Basic

/-!
# Decimal numbers of fixed width

Numbers that are written with as many digits as others are in the order of their texts.
-/

namespace Decimals

/-- The last digits of a number, with zeros in front. -/
def padded : Nat -> Nat -> List Char
  | 0, _ => []
  | width + 1, number => padded width (number / 10) ++ [(number % 10).digitChar]

@[simp] theorem length_padded (width number : Nat) : (padded width number).length = width := by
  induction width generalizing number with
  | zero => rfl
  | succ width inductionHypothesis =>
      rw [padded, List.length_append, inductionHypothesis, List.length_singleton]

theorem isDigit_of_mem_padded {width number : Nat} {c : Char}
    (member : c ∈ padded width number) : c.isDigit = true := by
  induction width generalizing number with
  | zero => exact absurd member List.not_mem_nil
  | succ width inductionHypothesis =>
      rcases List.mem_append.1 member with before | last
      · exact inductionHypothesis before
      · rw [List.mem_singleton.1 last, Nat.isDigit_digitChar, decide_eq_true_eq]
        exact Nat.mod_lt _ (by decide)

theorem ofDigitChars_padded {width number : Nat}
    (small : number < 10 ^ width) : Nat.ofDigitChars 10 (padded width number) 0 = number := by
  induction width generalizing number with
  | zero => exact (Nat.lt_one_iff.1 small).symm
  | succ width inductionHypothesis =>
      have front : number / 10 < 10 ^ width := by
        rw [Nat.pow_succ] at small
        omega
      rw [padded, Nat.ofDigitChars_append, inductionHypothesis front,
        Nat.ofDigitChars_cons_digitChar_of_lt_ten (Nat.mod_lt _ (by decide)),
        Nat.ofDigitChars_nil]
      omega

/-- A number with its first digit not zero is written without padding. -/
theorem toDigits_eq_padded {width number : Nat}
    (large : 10 ^ width ≤ number)
    (small : number < 10 ^ (width + 1)) : Nat.toDigits 10 number = padded (width + 1) number := by
  induction width generalizing number with
  | zero =>
      rw [Nat.toDigits_of_lt_base (by omega), padded, padded, List.nil_append,
        Nat.mod_eq_of_lt (by omega)]
  | succ width inductionHypothesis =>
      have positive := Nat.pow_pos (n := width) (show 0 < 10 by decide)
      rw [Nat.pow_succ] at large
      rw [Nat.pow_succ, Nat.pow_succ] at small
      rw [Nat.toDigits_of_base_le (by decide) (by omega), padded,
        inductionHypothesis (by omega) (by rw [Nat.pow_succ]; omega)]

theorem append_lt_append_iff {first second : List Char}
    (sameLength : first.length = second.length) (rest other : List Char) :
    first ++ rest < second ++ other ↔ first < second ∨ first = second ∧ rest < other := by
  induction first generalizing second with
  | nil =>
      obtain rfl := List.length_eq_zero_iff.1 sameLength.symm
      simp
  | cons c first inductionHypothesis =>
      cases second with
      | nil => cases sameLength
      | cons d second =>
          have tail := inductionHypothesis (Nat.succ.inj sameLength)
          rw [List.cons_append, List.cons_append, List.cons_lt_cons_iff, List.cons_lt_cons_iff,
            tail, List.cons.injEq]
          tauto

theorem digitChar_lt_iff {first second : Nat} (small : first < 10) (otherSmall : second < 10) :
    first.digitChar < second.digitChar ↔ first < second := by
  rw [Char.lt_def, UInt32.lt_iff_toNat_lt]
  have one := Nat.toNat_digitChar_of_lt_ten small
  have two := Nat.toNat_digitChar_of_lt_ten otherSmall
  unfold Char.toNat at one two
  omega

theorem padded_inj {width first second : Nat}
    (small : first < 10 ^ width) (otherSmall : second < 10 ^ width) :
    padded width first = padded width second ↔ first = second := by
  refine ⟨fun same => ?_, fun same => by rw [same]⟩
  rw [← ofDigitChars_padded small, same, ofDigitChars_padded otherSmall]

/-- The order of the texts is that of the numbers. -/
theorem padded_lt_padded_iff {width first second : Nat}
    (small : first < 10 ^ width) (otherSmall : second < 10 ^ width) :
    padded width first < padded width second ↔ first < second := by
  induction width generalizing first second with
  | zero =>
      rw [Nat.pow_zero] at small otherSmall
      obtain rfl : first = second := by omega
      simp
  | succ width inductionHypothesis =>
      rw [Nat.pow_succ] at small otherSmall
      have front : first / 10 < 10 ^ width := by omega
      have otherFront : second / 10 < 10 ^ width := by omega
      rw [padded, padded, append_lt_append_iff (by simp), inductionHypothesis front otherFront,
        padded_inj front otherFront, List.cons_lt_cons_iff,
        digitChar_lt_iff (Nat.mod_lt _ (by decide)) (Nat.mod_lt _ (by decide))]
      simp only [List.not_lt_nil, and_false, or_false]
      omega

end Decimals
