import Parvane.Foundation.Wire
import Mathlib.Algebra.GroupWithZero.Nat
import Mathlib.Data.Nat.Log

/-!
# Fields of records

A field shows where it ends: it has a fixed width, or its length goes before it.
-/

/-!
## Delimited fields

Fields that are written one after the other can be read back when each of them shows where it
ends: it has a fixed length, or its length goes before it.
-/

namespace Wire

variable {α β γ : Type*}

/-- What follows an encoded value cannot be taken for a part of it. -/
def Delimited (valid : α -> Prop) (encode : α -> Bytes) : Prop :=
  ∀ first second, valid first -> valid second -> ∀ afterFirst afterSecond : Bytes,
    encode first ++ afterFirst = encode second ++ afterSecond ->
    first = second ∧ afterFirst = afterSecond

namespace Delimited

variable {valid : α -> Prop} {encode : α -> Bytes}

theorem injective (delimited : Delimited valid encode) {first second : α}
    (firstValid : valid first) (secondValid : valid second)
    (same : encode first = encode second) : first = second :=
  (delimited first second firstValid secondValid [] [] (congrArg (· ++ []) same)).1

/-- Values of one length are delimited. -/
theorem of_length
    (length : Nat)
    (fixed : ∀ value, valid value -> (encode value).length = length)
    (injective : Function.Injective encode) : Delimited valid encode := by
  intro first second firstValid secondValid afterFirst afterSecond same
  have lengths : (encode first).length = (encode second).length :=
    (fixed first firstValid).trans (fixed second secondValid).symm
  obtain ⟨values, rests⟩ := List.append_inj same lengths
  exact ⟨injective values, rests⟩

/-- A delimited value may be given through any injective view of it. -/
theorem comp (delimited : Delimited valid encode) {view : β -> α}
    (injective : Function.Injective view) : Delimited (valid ∘ view) (encode ∘ view) := by
  intro first second firstValid secondValid afterFirst afterSecond same
  obtain ⟨values, rests⟩ := delimited _ _ firstValid secondValid _ _ same
  exact ⟨injective values, rests⟩

/-- Two delimited values are delimited together. -/
theorem append (delimited : Delimited valid encode)
    {validNext : β -> Prop} {encodeNext : β -> Bytes} (next : Delimited validNext encodeNext) :
    Delimited (fun pair : α × β => valid pair.1 ∧ validNext pair.2)
      fun pair => encode pair.1 ++ encodeNext pair.2 := by
  rintro ⟨first, firstNext⟩ ⟨second, secondNext⟩ firstValid secondValid afterFirst afterSecond
    same
  rw [List.append_assoc, List.append_assoc] at same
  obtain ⟨values, rests⟩ := delimited _ _ firstValid.1 secondValid.1 _ _ same
  obtain ⟨nexts, ends⟩ := next _ _ firstValid.2 secondValid.2 _ _ rests
  exact ⟨Prod.ext values nexts, ends⟩

end Delimited

/-- Bytes after one byte that tells how many they are. -/
def lengthPrefixed (bytes : Bytes) : Bytes :=
  UInt8.ofNat bytes.length :: bytes

theorem delimited_lengthPrefixed :
    Delimited (fun bytes : Bytes => bytes.length < 256) lengthPrefixed := by
  intro first second firstShort secondShort afterFirst afterSecond same
  obtain ⟨prefixes, rest⟩ := List.cons.inj same
  have lengths := congrArg UInt8.toNat prefixes
  rw [UInt8.toNat_ofNat', UInt8.toNat_ofNat', Nat.mod_eq_of_lt firstShort,
    Nat.mod_eq_of_lt secondShort] at lengths
  exact List.append_inj rest lengths

/-- A text after one byte that tells its length. -/
theorem delimited_text :
    Delimited (fun text : String => text.utf8ByteSize < 256)
      fun text => lengthPrefixed (utf8 text) :=
  delimited_lengthPrefixed.comp fun first second => (utf8_inj first second).1

end Wire

/-!
## Lengths on the wire

A delimited content is preceded by its length, an integer that takes more bytes the greater
it is.  So the length of the whole grows by one with each byte of content, but by two where
the integer gets longer: these totals are left out.
-/

namespace Wire

theorem length_varintDigits {fuel value : Nat} (enough : value ≤ fuel) :
    (varintDigits fuel value).length = Nat.log 128 value + 1 := by
  induction fuel generalizing value with
  | zero =>
      obtain rfl := Nat.le_zero.1 enough
      rfl
  | succ fuel inductionHypothesis =>
      rw [varintDigits]
      split
      · next small =>
          rw [Nat.log_of_lt small]
          rfl
      · next large =>
          have quotient : value / 128 ≤ fuel := by omega
          rw [List.length_cons, inductionHypothesis quotient,
            Nat.log_of_one_lt_of_le (by decide) (not_lt.1 large)]

theorem length_encodeVarint (value : Nat) : (encodeVarint value).length = Nat.log 128 value + 1 :=
  length_varintDigits (Nat.le_refl value)

/-- The logarithm grows at the powers of the base only. -/
theorem log_succ_cases {base : Nat} (large : 1 < base) (value : Nat) :
    Nat.log base (value + 1) = Nat.log base value ∨
      ∃ power, value + 1 = base ^ (power + 1) ∧ Nat.log base value = power ∧
        Nat.log base (value + 1) = power + 1 := by
  have grows : Nat.log base value ≤ Nat.log base (value + 1) :=
    Nat.log_mono_right (Nat.le_succ value)
  cases logarithm : Nat.log base (value + 1) with
  | zero => exact .inl (by omega)
  | succ power =>
      have reached : base ^ (power + 1) ≤ value + 1 := by
        rw [← logarithm]
        exact Nat.pow_log_le_self base (Nat.succ_ne_zero value)
      by_cases already : base ^ (power + 1) ≤ value
      · have := Nat.le_log_of_pow_le large already
        exact .inl (by omega)
      · have exactly : value + 1 = base ^ (power + 1) := by omega
        have positive : 0 < base ^ power := Nat.pow_pos (by omega)
        have doubled : 2 * base ^ power ≤ base ^ (power + 1) := by
          rw [pow_succ, Nat.mul_comm]
          exact Nat.mul_le_mul_left _ large
        refine .inr ⟨power, exactly, ?_, rfl⟩
        exact Nat.log_eq_of_pow_le_of_lt_pow (by omega) (by omega)

/-- The number of bytes of a delimited content together with its length. -/
def delimitedLength (size : Nat) : Nat :=
  (encodeVarint size).length + size

/-- One more byte of content lengthens the whole by one byte, or by two at a power. -/
theorem delimitedLength_succ (size : Nat) :
    delimitedLength (size + 1) = delimitedLength size + 1 ∨
      ∃ power, size + 1 = 128 ^ (power + 1) ∧
        delimitedLength size = 128 ^ (power + 1) + power ∧
        delimitedLength (size + 1) = delimitedLength size + 2 := by
  unfold delimitedLength
  rw [length_encodeVarint, length_encodeVarint]
  rcases @log_succ_cases 128 (by decide) size with same | ⟨power, exactly, low, high⟩
  · exact .inl (by omega)
  · exact .inr ⟨power, exactly, by omega, by omega⟩

theorem delimitedLength_strictMono : StrictMono delimitedLength := by
  apply strictMono_nat_of_lt_succ
  intro size
  rcases delimitedLength_succ size with one | ⟨-, -, -, two⟩ <;> omega

theorem delimitedLength_add_le (size more : Nat) :
    delimitedLength size + more ≤ delimitedLength (size + more) := by
  induction more with
  | zero => exact Nat.le_refl _
  | succ more inductionHypothesis =>
      have step := delimitedLength_strictMono (Nat.lt_succ_self (size + more))
      rw [Nat.succ_eq_add_one, Nat.add_assoc] at step
      omega

theorem delimitedLength_add_ge (size more : Nat) :
    delimitedLength (size + more) ≤ delimitedLength size + 2 * more := by
  induction more with
  | zero => exact Nat.le_refl _
  | succ more inductionHypothesis =>
      rw [← Nat.add_assoc]
      rcases delimitedLength_succ (size + more) with one | ⟨-, -, -, two⟩ <;> omega

theorem lt_delimitedLength (size : Nat) : size < delimitedLength size := by
  unfold delimitedLength
  rw [length_encodeVarint]
  omega

/-- Every total is the length of some delimited content, save those at the powers. -/
theorem exists_delimitedLength (total : Nat) :
    (∃ size, delimitedLength size = total + 1) ∨
      ∃ power, total = 128 ^ (power + 1) + power := by
  induction total with
  | zero => exact .inl ⟨0, rfl⟩
  | succ total inductionHypothesis =>
      rcases inductionHypothesis with ⟨size, reached⟩ | ⟨power, skipped⟩
      · rcases delimitedLength_succ size with one | ⟨power, exactly, low, two⟩
        · exact .inl ⟨size + 1, by omega⟩
        · exact .inr ⟨power, by omega⟩
      · have same : Nat.log 128 (128 ^ (power + 1)) = power + 1 := Nat.log_pow (by decide) _
        refine .inl ⟨128 ^ (power + 1), ?_⟩
        rw [delimitedLength, length_encodeVarint, same]
        omega

/-- Bytes with their length and a tag of one byte take any total but the least ones and those
at the powers. -/
theorem exists_fieldLength {total : Nat}
    (atLeast : 3 ≤ total) (atMost : total ≤ 128 ^ 3) (first : total ≠ 130)
    (second : total ≠ 16387) : ∃ size, 1 ≤ size ∧ total = 1 + delimitedLength size := by
  rcases exists_delimitedLength (total - 2) with ⟨size, reached⟩ | ⟨power, skipped⟩
  · refine ⟨size, ?_, by omega⟩
    by_contra zero
    obtain rfl : size = 0 := by omega
    have empty : delimitedLength 0 = 1 := rfl
    omega
  · exfalso
    rcases power with _ | _ | power
    · omega
    · omega
    · have large : 128 ^ 3 ≤ 128 ^ (power + 1 + 1 + 1) :=
        Nat.pow_le_pow_right (by decide) (by omega)
      omega

/-! ## One field among others -/

theorem length_encodeFields_append (first second : List Field) :
    (encodeFields (first ++ second)).length =
      (encodeFields first).length + (encodeFields second).length := by
  rw [encodeFields_append, List.length_append]

/-- The number of bytes of a field that holds bytes, under a number that fits into one byte. -/
theorem length_encodeFields_bytes {number : Nat}
    (small : number < 16) (content : Bytes) :
    (encodeFields (bytes number content)).length =
      if content = [] then 0 else 1 + delimitedLength content.length := by
  unfold bytes
  split
  · rfl
  · have tag : Nat.log 128 (8 * number + 2) = 0 := Nat.log_of_lt (by omega)
    simp only [encodeFields, List.flatMap_cons, List.flatMap_nil, List.append_nil, encodeField,
      Payload.encode, Payload.wireType, List.length_append, length_encodeVarint, tag,
      delimitedLength]

/-- A field of bytes between others makes the message longer by its tag, its length and its
bytes. -/
theorem length_encodeFields_between {front back : List Field} {number : Nat}
    (small : number < 16) {content : Bytes} (positive : 1 ≤ content.length) :
    (encodeFields (front ++ bytes number content ++ back)).length =
      (encodeFields (front ++ bytes number [] ++ back)).length +
        (1 + delimitedLength content.length) := by
  have notEmpty : content ≠ [] := List.length_pos_iff.1 positive
  simp only [length_encodeFields_append, length_encodeFields_bytes small, if_neg notEmpty,
    if_true]
  omega

end Wire

/-!
## Records of fields of fixed widths

A record is a list of numbers, each with a width in bytes.  A number is read back at the sum of the
widths before it when it fits its width.
-/

namespace Parvane
namespace Layout

open Wire (Bytes littleEndian ofLittleEndian littleEndian_length ofLittleEndian_littleEndian)

/-- A number and the number of bytes it takes. -/
structure Field where
  width : Nat
  value : Nat

def write (fields : List Field) : Bytes :=
  fields.flatMap fun field => littleEndian field.width field.value

def width (fields : List Field) : Nat :=
  (fields.map Field.width).sum

/-- The number at a position. -/
def readAt (width position : Nat) (bytes : Bytes) : Nat :=
  ofLittleEndian ((bytes.drop position).take width)

/-- A part of the bytes. -/
def slice (position size : Nat) (bytes : Bytes) : Bytes :=
  (bytes.drop position).take size

section

variable {fields : List Field} {front part back : Bytes} {size value position offset : Nat}

@[simp] theorem width_nil : width [] = 0 :=
  rfl

@[simp] theorem width_cons (field : Field) (fields : List Field) :
    width (field :: fields) = field.width + width fields :=
  List.sum_cons

theorem length_write : (write fields).length = width fields := by
  unfold write width
  rw [List.length_flatMap]
  simp only [littleEndian_length]

theorem write_append (fields others : List Field) :
    write (fields ++ others) = write fields ++ write others :=
  List.flatMap_append

theorem slice_append (isPosition : position = front.length) (isSize : size = part.length) :
    slice position size (front ++ (part ++ back)) = part := by
  rw [slice, isPosition, isSize, List.drop_left, List.take_left]

/-- A field that fits its width is read at the width of the fields before it. -/
theorem readAt_field
    (index : Nat)
    (isField : fields[index]? = some ⟨size, value⟩)
    (isOffset : width (fields.take index) = offset)
    (fits : value < 256 ^ size) :
    readAt size (front.length + offset) (front ++ (write fields ++ back)) = value := by
  obtain ⟨inside, isValue⟩ := List.getElem?_eq_some_iff.1 isField
  have split : write fields =
      write (fields.take index) ++ (littleEndian size value ++ write (fields.drop (index + 1))) := by
    have cut : fields = fields.take index ++ (⟨size, value⟩ :: fields.drop (index + 1)) := by
      rw [← isValue, List.getElem_cons_drop, List.take_append_drop]
    conv_lhs => rw [cut, write_append]
    rfl
  have whole : front ++ (write fields ++ back) =
      (front ++ write (fields.take index)) ++
        (littleEndian size value ++ (write (fields.drop (index + 1)) ++ back)) := by
    rw [split]
    simp only [List.append_assoc]
  have isSlice : slice (front.length + offset) size (front ++ (write fields ++ back)) =
      littleEndian size value := by
    rw [whole]
    refine slice_append ?_ (littleEndian_length _ _).symm
    rw [List.length_append, length_write, isOffset]
  unfold slice at isSlice
  rw [readAt, isSlice, ofLittleEndian_littleEndian size value fits]

theorem readAt_first
    (isField : fields[0]? = some ⟨size, value⟩)
    (fits : value < 256 ^ size) :
    readAt size front.length (front ++ (write fields ++ back)) = value :=
  readAt_field 0 isField rfl fits

end

end Layout
end Parvane
