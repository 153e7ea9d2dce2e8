import Mathlib.Data.List.Induction
import Parvane.Foundation.Wire

/-!
# Integers of 64 bits

The decoders of messages read base-128 integers of at most ten bytes whose value has 64 bits.
A list of integers can be packed into one byte string; each of them ends with the first byte
below 128.
-/

namespace Wire

/-- Read an integer of at most ten bytes and 64 bits. -/
def decodeVarint64 (bytes : Bytes) : Option (Nat × Bytes) :=
  (decodeVarint bytes).filter fun (value, rest) =>
    value < 2 ^ 64 && bytes.length ≤ rest.length + 10

variable {bytes rest : Bytes}

theorem decodeVarint64_eq_some {value : Nat} :
    decodeVarint64 bytes = some (value, rest) ↔
      decodeVarint bytes = some (value, rest) ∧ value < 2 ^ 64 ∧
        bytes.length ≤ rest.length + 10 := by
  simp [decodeVarint64, Option.filter_eq_some_iff]

/-- The bytes of an integer: all but the last are at least 128. -/
theorem decodeVarint_split {value : Nat}
    (decoded : decodeVarint bytes = some (value, rest)) :
    ∃ front last, bytes = front ++ last :: rest ∧ (∀ byte ∈ front, 128 ≤ byte.toNat) ∧
      last.toNat < 128 := by
  induction bytes generalizing value with
  | nil => cases decoded
  | cons head tail inductionHypothesis =>
      rw [decodeVarint] at decoded
      split at decoded
      · next small =>
          cases decoded
          exact ⟨[], head, rfl, fun _ member => absurd member List.not_mem_nil, small⟩
      · next large =>
          obtain ⟨⟨high, unread⟩, tailDecoded, same⟩ := Option.map_eq_some_iff.1 decoded
          cases same
          obtain ⟨front, last, rfl, continued, ends⟩ := inductionHypothesis tailDecoded
          refine ⟨head :: front, last, rfl, List.forall_mem_cons.2 ⟨?_, continued⟩, ends⟩
          omega

theorem length_lt_of_decodeVarint {value : Nat}
    (decoded : decodeVarint bytes = some (value, rest)) : rest.length < bytes.length := by
  obtain ⟨front, last, rfl, -, -⟩ := decodeVarint_split decoded
  rw [List.length_append, List.length_cons]
  omega

theorem length_varintDigits_le {fuel value digits : Nat}
    (small : value < 128 ^ (digits + 1)) : (varintDigits fuel value).length ≤ digits + 1 := by
  induction fuel generalizing value digits with
  | zero =>
      simp only [varintDigits, List.length_singleton]
      omega
  | succ fuel inductionHypothesis =>
      rw [varintDigits]
      split
      · simp only [List.length_singleton]
        omega
      · next large =>
          cases digits with
          | zero => omega
          | succ digits =>
              have quotient : value / 128 < 128 ^ (digits + 1) := by
                rw [Nat.div_lt_iff_lt_mul (by decide)]
                rwa [pow_succ] at small
              rw [List.length_cons]
              exact Nat.succ_le_succ (inductionHypothesis quotient)

/-- An integer of 64 bits is read as it was written. -/
theorem decodeVarint64_encodeVarint {value : Nat}
    (small : value < 2 ^ 64)
    (rest : Bytes) : decodeVarint64 (encodeVarint value ++ rest) = some (value, rest) := by
  rw [decodeVarint64_eq_some]
  refine ⟨decodeVarint_encodeVarint value rest, small, ?_⟩
  have bound : value < 128 ^ (9 + 1) := small.trans (by decide)
  have short : (encodeVarint value).length ≤ 9 + 1 := length_varintDigits_le bound
  rw [List.length_append]
  omega

/-- A written integer ends with its only byte below 128. -/
theorem encodeVarint_split (value : Nat) :
    ∃ front last, encodeVarint value = front ++ [last] ∧ (∀ byte ∈ front, 128 ≤ byte.toNat) ∧
      last.toNat < 128 := by
  have decoded := decodeVarint_encodeVarint value []
  rw [List.append_nil] at decoded
  exact decodeVarint_split decoded

/-! ## Packed integers -/

/-- Read integers until the bytes end.  The first argument bounds their number. -/
def packedFrom : Nat -> Bytes -> Option (List Nat)
  | _, [] => some []
  | 0, _ :: _ => none
  | fuel + 1, byte :: bytes => do
      let (value, rest) ← decodeVarint64 (byte :: bytes)
      let values ← packedFrom fuel rest
      return value :: values

def decodePacked (bytes : Bytes) : Option (List Nat) :=
  packedFrom bytes.length bytes

/-- The number of bytes that end an integer. -/
def countEnds (bytes : Bytes) : Nat :=
  (bytes.filter fun byte => byte.toNat < 128).length

theorem countEnds_append (first second : Bytes) :
    countEnds (first ++ second) = countEnds first + countEnds second := by
  rw [countEnds, List.filter_append, List.length_append]
  rfl

theorem countEnds_of_decodeVarint {value : Nat}
    (decoded : decodeVarint bytes = some (value, rest)) : countEnds bytes = countEnds rest + 1 := by
  obtain ⟨front, last, rfl, continued, ends⟩ := decodeVarint_split decoded
  have noEnds : countEnds front = 0 := by
    rw [countEnds, List.length_eq_zero_iff, List.filter_eq_nil_iff]
    intro byte member
    simpa using continued byte member
  rw [countEnds_append, noEnds, countEnds, List.filter_cons_of_pos (by simpa using ends),
    List.length_cons, Nat.zero_add]
  rfl

theorem length_of_packedFrom {fuel : Nat} {bytes : Bytes} {values : List Nat}
    (decoded : packedFrom fuel bytes = some values) : values.length = countEnds bytes := by
  induction fuel generalizing bytes values with
  | zero =>
      cases bytes with
      | nil =>
          cases decoded
          rfl
      | cons byte bytes => cases decoded
  | succ fuel inductionHypothesis =>
      cases bytes with
      | nil =>
          cases decoded
          rfl
      | cons byte bytes =>
          rw [packedFrom, Option.bind_eq_bind, Option.bind_eq_some_iff] at decoded
          obtain ⟨⟨value, rest⟩, headDecoded, decoded⟩ := decoded
          obtain ⟨others, tailDecoded, same⟩ := Option.bind_eq_some_iff.1 decoded
          cases same
          rw [List.length_cons, inductionHypothesis tailDecoded,
            countEnds_of_decodeVarint (decodeVarint64_eq_some.1 headDecoded).1]

/-- As many integers as bytes that end one. -/
theorem length_of_decodePacked {bytes : Bytes} {values : List Nat}
    (decoded : decodePacked bytes = some values) : values.length = countEnds bytes :=
  length_of_packedFrom decoded

theorem lt_of_mem_packedFrom {fuel : Nat} {bytes : Bytes} {values : List Nat}
    (decoded : packedFrom fuel bytes = some values) : ∀ value ∈ values, value < 2 ^ 64 := by
  induction fuel generalizing bytes values with
  | zero =>
      cases bytes with
      | nil =>
          cases decoded
          simp
      | cons byte bytes => cases decoded
  | succ fuel inductionHypothesis =>
      cases bytes with
      | nil =>
          cases decoded
          simp
      | cons byte bytes =>
          rw [packedFrom, Option.bind_eq_bind, Option.bind_eq_some_iff] at decoded
          obtain ⟨⟨value, rest⟩, headDecoded, decoded⟩ := decoded
          obtain ⟨others, tailDecoded, same⟩ := Option.bind_eq_some_iff.1 decoded
          cases same
          exact List.forall_mem_cons.2
            ⟨(decodeVarint64_eq_some.1 headDecoded).2.1, inductionHypothesis tailDecoded⟩

/-! ## Written integers -/

theorem countEnds_flatMap_encodeVarint (values : List Nat) :
    countEnds (values.flatMap encodeVarint) = values.length := by
  induction values with
  | nil => rfl
  | cons value values inductionHypothesis =>
      rw [List.flatMap_cons, countEnds_of_decodeVarint (decodeVarint_encodeVarint value _),
        inductionHypothesis, List.length_cons]

theorem lt_of_mem_getLast?_flatMap_encodeVarint (values : List Nat) :
    ∀ byte ∈ (values.flatMap encodeVarint).getLast?, byte.toNat < 128 := by
  induction values using List.reverseRecOn with
  | nil => simp
  | append_singleton values value _ =>
      obtain ⟨front, last, written, -, ends⟩ := encodeVarint_split value
      intro byte member
      rw [List.flatMap_append, List.flatMap_singleton, written, ← List.append_assoc,
        List.getLast?_concat, Option.mem_some_iff] at member
      exact member ▸ ends

end Wire
