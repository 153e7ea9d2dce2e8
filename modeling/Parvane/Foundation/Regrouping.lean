import Mathlib.Data.Nat.Digits.Lemmas

/-!
# Regrouping bits

Digits of one width are read and digits of another are written, the most significant first.
What was read and not yet written is pending.  All of them together are one number, so the
digits that were written say which ones were read.
-/

namespace Regrouping

/-- The number that some digits of the given width make up. -/
def number (width : Nat) (digits : List Nat) : Nat :=
  Nat.ofDigits (2 ^ width) digits.reverse

@[simp] theorem number_nil (width : Nat) : number width [] = 0 := rfl

@[simp] theorem number_append_singleton (width : Nat) (digits : List Nat) (digit : Nat) :
    number width (digits ++ [digit]) = number width digits * 2 ^ width + digit := by
  rw [number, List.reverse_append, List.reverse_singleton, List.singleton_append,
    Nat.ofDigits_cons, number, Nat.mul_comm, Nat.add_comm]

/-- Digits of one width and as many of them are known by their number. -/
theorem eq_of_number {width : Nat} {first second : List Nat}
    (positive : 0 < width) (sameLength : first.length = second.length)
    (firstSmall : ∀ digit ∈ first, digit < 2 ^ width)
    (secondSmall : ∀ digit ∈ second, digit < 2 ^ width)
    (same : number width first = number width second) : first = second := by
  have base : 1 < 2 ^ width := Nat.one_lt_two_pow (Nat.ne_of_gt positive)
  apply List.reverse_injective
  apply Nat.ofDigits_inj_of_len_eq base
  · rw [List.length_reverse, List.length_reverse, sameLength]
  · exact fun digit member => firstSmall digit (List.mem_reverse.1 member)
  · exact fun digit member => secondSmall digit (List.mem_reverse.1 member)
  · exact same

/-- The digits that were read are those that were written, followed by the lowest bits of what
is pending. -/
structure Regroups (source target : Nat) (read written : List Nat) (pending bits : Nat) :
    Prop where
  length : source * read.length = target * written.length + bits
  number : number source read = number target written * 2 ^ bits + pending % 2 ^ bits
  small : ∀ digit ∈ written, digit < 2 ^ target

variable {source target pending bits : Nat} {read written : List Nat}

theorem Regroups.nil (source target pending : Nat) :
    Regroups source target [] [] pending 0 where
  length := rfl
  number := by simp [Nat.mod_one]
  small := fun _ member => absurd member List.not_mem_nil

/-- A digit that is read becomes pending. -/
theorem Regroups.read_digit
    (regroups : Regroups source target read written pending bits) {digit later : Nat}
    (appended : later % 2 ^ (bits + source) = pending % 2 ^ bits * 2 ^ source + digit) :
    Regroups source target (read ++ [digit]) written later (bits + source) where
  length := by
    rw [List.length_append, List.length_singleton, Nat.mul_add, regroups.length, Nat.mul_one,
      Nat.add_assoc]
  number := by
    rw [number_append_singleton, regroups.number, appended, Nat.add_mul, Nat.mul_assoc,
      ← Nat.pow_add, Nat.add_assoc]
  small := regroups.small

/-- A digit is appended to what is pending in a word that is long enough. -/
theorem Regroups.read_into
    (regroups : Regroups source target read written pending bits) {digit later size : Nat}
    (fits : bits + source ≤ size) (small : digit < 2 ^ source)
    (appended : later = (pending * 2 ^ source + digit) % 2 ^ size) :
    Regroups source target (read ++ [digit]) written later (bits + source) := by
  apply regroups.read_digit
  rw [appended, Nat.mod_mod_of_dvd _ (Nat.pow_dvd_pow 2 fits), Nat.add_comm bits, Nat.pow_add,
    Nat.mod_mul, Nat.mul_comm pending, Nat.mul_add_mod, Nat.mod_eq_of_lt small,
    Nat.mul_add_div (Nat.two_pow_pos _), Nat.div_eq_of_lt small, Nat.add_zero, Nat.mul_comm,
    Nat.add_comm]

/-- The highest of the pending bits are written. -/
theorem Regroups.write_digit
    (regroups : Regroups source target read written pending (bits + target)) :
    Regroups source target read (written ++ [pending / 2 ^ bits % 2 ^ target]) pending bits where
  length := by
    rw [List.length_append, List.length_singleton, Nat.mul_add, Nat.mul_one, regroups.length]
    omega
  number := by
    rw [regroups.number, number_append_singleton, Nat.pow_add, Nat.mod_mul, Nat.add_mul,
      Nat.mul_assoc, Nat.mul_comm (2 ^ target), Nat.mul_comm (2 ^ bits) (pending / 2 ^ bits % _)]
    omega
  small := by
    intro digit member
    rcases List.mem_append.1 member with before | last
    · exact regroups.small digit before
    · rw [List.mem_singleton.1 last]
      exact Nat.mod_lt _ (Nat.two_pow_pos _)

/-- What was regrouped without rest and is regrouped back is what it was. -/
theorem Regroups.back
    (positive : 0 < source)
    {again : List Nat} {rest : Nat} (forth : Regroups source target read written pending 0)
    (back : Regroups target source written again rest 0)
    (small : ∀ digit ∈ read, digit < 2 ^ source) : again = read := by
  have sameLength : source * again.length = source * read.length := by
    rw [forth.length, Nat.add_zero, back.length, Nat.add_zero]
  apply eq_of_number positive (Nat.eq_of_mul_eq_mul_left positive sameLength) back.small small
  have thereAndBack := forth.number
  rw [back.number] at thereAndBack
  simpa [Nat.mod_one] using thereAndBack.symm

end Regrouping
