import Mathlib.Order.Basic
import Mathlib.Data.List.Basic
import Mathlib.Data.List.Lex
import Mathlib.Data.String.Basic

/-!
# The protocol-buffer wire format

Messages are written as a list of numbered fields.  A field is a tag (number and
wire type) followed by a base-128 integer, eight fixed bytes, or a counted byte
string.  Default values of plain fields are left out; fields with presence are
written whenever they are present.

Everything here serves one fact: the byte string determines the message.  It is
proved by a decoder for fields, and then field by field, since the field number
tells which part of the message a field came from.
-/

namespace Wire

/-- Byte strings. -/
abbrev Bytes := List UInt8

instance linearOrderUInt8 : LinearOrder UInt8 where
  le_refl := UInt8.le_refl
  le_trans _ _ _ := UInt8.le_trans
  lt_iff_le_not_ge first second := by
    rw [UInt8.lt_iff_toNat_lt, UInt8.le_iff_toNat_le, UInt8.le_iff_toNat_le]
    omega
  le_antisymm _ _ := UInt8.le_antisymm
  le_total := UInt8.le_total
  toDecidableLE := inferInstance
  toDecidableLT := inferInstance
  toDecidableEq := inferInstance

instance linearOrderUInt64 : LinearOrder UInt64 where
  le_refl := UInt64.le_refl
  le_trans _ _ _ := UInt64.le_trans
  lt_iff_le_not_ge first second := by
    rw [UInt64.lt_iff_toNat_lt, UInt64.le_iff_toNat_le, UInt64.le_iff_toNat_le]
    omega
  le_antisymm _ _ := UInt64.le_antisymm
  le_total := UInt64.le_total
  toDecidableLE := inferInstance
  toDecidableLT := inferInstance
  toDecidableEq := inferInstance
  min := min
  max := max

instance linearOrderInt64 : LinearOrder Int64 where
  le_refl := Int64.le_refl
  le_trans _ _ _ := Int64.le_trans
  lt_iff_le_not_ge first second := by
    rw [Int64.lt_iff_toInt_lt, Int64.le_iff_toInt_le, Int64.le_iff_toInt_le]
    omega
  le_antisymm _ _ := Int64.le_antisymm
  le_total := Int64.le_total
  toDecidableLE := inferInstance
  toDecidableLT := inferInstance
  toDecidableEq := inferInstance
  min := min
  max := max

/-- Byte strings of one length, such as identifiers and digests. -/
structure FixedBytes (length : Nat) where
  bytes : Bytes
  length_eq : bytes.length = length
  deriving DecidableEq

namespace FixedBytes

theorem bytes_injective {length : Nat} :
    Function.Injective fun value : FixedBytes length => value.bytes := by
  rintro ⟨first, _⟩ ⟨second, _⟩ equal
  cases equal
  rfl

instance (length : Nat) : LinearOrder (FixedBytes length) :=
  LinearOrder.lift' (fun value => value.bytes) bytes_injective

instance (length : Nat) : Std.LawfulEqOrd (FixedBytes length) where
  eq_of_compare := compare_eq_iff_eq.1

/-- The byte string as one of the given length. -/
def ofBytes? (length : Nat) (bytes : Bytes) : Option (FixedBytes length) :=
  if length_eq : bytes.length = length then some ⟨bytes, length_eq⟩ else none

end FixedBytes

/-! ## Integers -/

/-- Base-128 digits, least significant first, the high bit marking that more
follow.  The first argument bounds the recursion. -/
def varintDigits : Nat -> Nat -> Bytes
  | 0, value => [UInt8.ofNat value]
  | fuel + 1, value =>
      if value < 128 then [UInt8.ofNat value]
      else UInt8.ofNat (value % 128 + 128) :: varintDigits fuel (value / 128)

/-- Variable-length encoding of a natural number. -/
def encodeVarint (value : Nat) : Bytes :=
  varintDigits value value

/-- Read one variable-length number and return the unread rest. -/
def decodeVarint : Bytes -> Option (Nat × Bytes)
  | [] => none
  | head :: rest =>
      if head.toNat < 128 then some (head.toNat, rest)
      else (decodeVarint rest).map fun (high, unread) =>
        (head.toNat - 128 + 128 * high, unread)

theorem decodeVarint_varintDigits
    (fuel value : Nat) (rest : Bytes) (bounded : value ≤ fuel) :
    decodeVarint (varintDigits fuel value ++ rest) = some (value, rest) := by
  induction fuel generalizing value with
  | zero =>
      have zero : value = 0 := Nat.le_zero.1 bounded
      subst zero
      simp [varintDigits, decodeVarint]
  | succ fuel inductionHypothesis =>
      unfold varintDigits
      split
      · next small =>
          have digit : (UInt8.ofNat value).toNat = value := by
            rw [UInt8.toNat_ofNat']
            omega
          simp [decodeVarint, digit, small]
      · next large =>
          have digit :
              (UInt8.ofNat (value % 128 + 128)).toNat = value % 128 + 128 := by
            rw [UInt8.toNat_ofNat']
            omega
          rw [List.cons_append, decodeVarint, digit,
            if_neg (by omega), inductionHypothesis (value / 128) (by omega)]
          simp only [Option.map_some, Option.some.injEq, Prod.mk.injEq, and_true]
          omega

theorem decodeVarint_encodeVarint (value : Nat) (rest : Bytes) :
    decodeVarint (encodeVarint value ++ rest) = some (value, rest) :=
  decodeVarint_varintDigits value value rest le_rfl

theorem encodeVarint_ne_nil (value : Nat) : encodeVarint value ≠ [] := by
  intro empty
  have decoded := decodeVarint_encodeVarint value []
  rw [empty] at decoded
  cases decoded

/-- A fixed number of base-256 digits, least significant first. -/
def littleEndian : Nat -> Nat -> Bytes
  | 0, _ => []
  | count + 1, value => UInt8.ofNat (value % 256) :: littleEndian count (value / 256)

@[simp] theorem littleEndian_length (count value : Nat) :
    (littleEndian count value).length = count := by
  induction count generalizing value with
  | zero => rfl
  | succ count inductionHypothesis => simp [littleEndian, inductionHypothesis]

/-- The number written by `littleEndian`. -/
def ofLittleEndian : Bytes -> Nat
  | [] => 0
  | head :: rest => head.toNat + 256 * ofLittleEndian rest

theorem ofLittleEndian_littleEndian
    (count value : Nat) (bounded : value < 256 ^ count) :
    ofLittleEndian (littleEndian count value) = value := by
  induction count generalizing value with
  | zero =>
      rw [pow_zero] at bounded
      simp [littleEndian, ofLittleEndian]
      omega
  | succ count inductionHypothesis =>
      have quotient : value / 256 < 256 ^ count := by
        rw [Nat.div_lt_iff_lt_mul (by decide)]
        rwa [pow_succ] at bounded
      rw [littleEndian, ofLittleEndian, inductionHypothesis _ quotient,
        UInt8.toNat_ofNat']
      omega

/-- Eight bytes of an unsigned integer, most significant first. -/
def bigEndian64 (value : UInt64) : Bytes :=
  (littleEndian 8 value.toNat).reverse

theorem littleEndian_toNat_injective :
    Function.Injective fun value : UInt64 => littleEndian 8 value.toNat := by
  intro first second equal
  have numbers := congrArg ofLittleEndian equal
  rw [ofLittleEndian_littleEndian 8 _ first.toNat_lt,
    ofLittleEndian_littleEndian 8 _ second.toNat_lt] at numbers
  exact UInt64.toNat_inj.1 numbers

theorem bigEndian64_injective : Function.Injective bigEndian64 := by
  intro first second equal
  exact littleEndian_toNat_injective (List.reverse_injective equal)

@[simp] theorem bigEndian64_length (value : UInt64) : (bigEndian64 value).length = 8 := by
  simp [bigEndian64]

/-! ## Fields -/

/-- What a field carries, by wire type. -/
inductive Payload
  | varint (value : Nat)
  | fixed64 (bits : UInt64)
  | delimited (bytes : Bytes)
  deriving DecidableEq

/-- A numbered field. -/
structure Field where
  number : Nat
  payload : Payload
  deriving DecidableEq

/-- The wire type that stands in the low bits of a tag. -/
def Payload.wireType : Payload -> Nat
  | .varint _ => 0
  | .fixed64 _ => 1
  | .delimited _ => 2

/-- The bytes after the tag. -/
def Payload.encode : Payload -> Bytes
  | .varint value => encodeVarint value
  | .fixed64 bits => littleEndian 8 bits.toNat
  | .delimited bytes => encodeVarint bytes.length ++ bytes

/-- The bytes of one field. -/
def encodeField (field : Field) : Bytes :=
  encodeVarint (8 * field.number + field.payload.wireType) ++ field.payload.encode

/-- The bytes of a message, given as its fields. -/
def encodeFields (fields : List Field) : Bytes :=
  fields.flatMap encodeField

/-- Read one field and return the unread rest. -/
def decodeField (bytes : Bytes) : Option (Field × Bytes) :=
  match decodeVarint bytes with
  | none => none
  | some (tag, rest) =>
      match tag % 8 with
      | 0 => (decodeVarint rest).map fun (value, unread) =>
          (⟨tag / 8, .varint value⟩, unread)
      | 1 => some (⟨tag / 8, .fixed64 (UInt64.ofNat (ofLittleEndian (rest.take 8)))⟩,
          rest.drop 8)
      | 2 => (decodeVarint rest).map fun (length, unread) =>
          (⟨tag / 8, .delimited (unread.take length)⟩, unread.drop length)
      | _ => none

theorem decodeField_encodeField (field : Field) (rest : Bytes) :
    decodeField (encodeField field ++ rest) = some (field, rest) := by
  obtain ⟨number, payload⟩ := field
  rw [encodeField, List.append_assoc, decodeField, decodeVarint_encodeVarint]
  have wireType_lt : payload.wireType < 8 := by
    cases payload <;> simp [Payload.wireType]
  have typeEq : (8 * number + payload.wireType) % 8 = payload.wireType := by
    omega
  have numberEq : (8 * number + payload.wireType) / 8 = number := by
    omega
  simp only [typeEq, numberEq]
  cases payload with
  | varint value =>
      simp [Payload.wireType, Payload.encode, decodeVarint_encodeVarint]
  | fixed64 bits =>
      have written := ofLittleEndian_littleEndian 8 _ bits.toNat_lt
      have taken : (littleEndian 8 bits.toNat ++ rest).take 8 =
          littleEndian 8 bits.toNat := by
        rw [List.take_append_of_le_length (by simp), List.take_of_length_le (by simp)]
      have dropped : (littleEndian 8 bits.toNat ++ rest).drop 8 = rest :=
        List.drop_left' (by simp)
      simp [Payload.wireType, Payload.encode, taken, dropped, written]
  | delimited bytes =>
      simp [Payload.wireType, Payload.encode, decodeVarint_encodeVarint]

theorem encodeField_ne_nil (field : Field) : encodeField field ≠ [] := by
  rw [encodeField]
  exact List.append_ne_nil_of_left_ne_nil (encodeVarint_ne_nil _) _

/-- The byte string determines the list of fields. -/
theorem encodeFields_injective : Function.Injective encodeFields := by
  intro first
  induction first with
  | nil =>
      intro second equal
      cases second with
      | nil => rfl
      | cons head tail =>
          exact absurd (List.append_eq_nil_iff.1 equal.symm).1
            (encodeField_ne_nil head)
  | cons firstHead firstTail inductionHypothesis =>
      intro second equal
      cases second with
      | nil =>
          exact absurd (List.append_eq_nil_iff.1 equal).1
            (encodeField_ne_nil firstHead)
      | cons secondHead secondTail =>
          have decoded := congrArg decodeField equal
          simp only [encodeFields, List.flatMap_cons, decodeField_encodeField,
            Option.some.injEq, Prod.mk.injEq] at decoded
          rw [decoded.1, inductionHypothesis decoded.2]

@[simp] theorem encodeFields_append (first second : List Field) :
    encodeFields (first ++ second) = encodeFields first ++ encodeFields second := by
  simp [encodeFields]

/-! ## Messages -/

/-- A message type: the fields it writes, which determine the message. -/
class Message (α : Type) where
  fields : α -> List Field
  fields_injective : Function.Injective fields

/-- The bytes of a message. -/
def encode [Message α] (message : α) : Bytes :=
  encodeFields (Message.fields message)

theorem encode_injective [Message α] : Function.Injective (encode (α := α)) :=
  fun _ _ equal => Message.fields_injective (encodeFields_injective equal)

/-- A message is at least as long as the contents of its fields. -/
theorem length_le_encode [Message α] {message : α} {number : Nat} {content : Bytes}
    (member : ⟨number, .delimited content⟩ ∈ Message.fields message) :
    content.length ≤ (encode message).length := by
  have inside : encodeField ⟨number, .delimited content⟩ <:+: encode message :=
    List.infix_of_mem_flatten (List.mem_map_of_mem member)
  refine le_trans ?_ inside.length_le
  simp only [encodeField, Payload.encode, List.length_append]
  omega

@[simp] theorem encode_inj [Message α] (first second : α) :
    encode first = encode second ↔ first = second :=
  encode_injective.eq_iff

/-- The fields with a given number. -/
def select (number : Nat) (fields : List Field) : List Field :=
  fields.filter fun field => field.number = number

@[simp] theorem select_append (number : Nat) (first second : List Field) :
    select number (first ++ second) = select number first ++ select number second := by
  simp [select]

@[simp] theorem select_nil (number : Nat) : select number [] = [] := rfl

/-- Fields that all carry one number. -/
theorem select_of_forall {number wanted : Nat} {fields : List Field}
    (numbered : ∀ field ∈ fields, field.number = number) :
    select wanted fields = if number = wanted then fields else [] := by
  unfold select
  split
  · next same =>
      rw [List.filter_eq_self]
      intro field member
      simp [numbered field member, same]
  · next different =>
      rw [List.filter_eq_nil_iff]
      intro field member
      simp [numbered field member, different]

/-- An integer field, left out when zero. -/
def uint (number value : Nat) : List Field :=
  if value = 0 then [] else [⟨number, .varint value⟩]

/-- An unsigned 32-bit field, left out when zero. -/
def uint32 (number : Nat) (value : UInt32) : List Field :=
  uint number value.toNat

/-- An unsigned 64-bit field, left out when zero. -/
def uint64 (number : Nat) (value : UInt64) : List Field :=
  uint number value.toNat

/-- A truth value, left out when false. -/
def flag (number : Nat) (value : Bool) : List Field :=
  uint number value.toNat

/-- A signed 64-bit field, written as its two's complement. -/
def int64 (number : Nat) (value : Int64) : List Field :=
  uint number value.toUInt64.toNat

/-- A signed 32-bit field, sign-extended to 64 bits first. -/
def int32 (number : Nat) (value : Int32) : List Field :=
  uint number value.toInt64.toUInt64.toNat

/-- A double field given by its bits, left out when zero. -/
def double (number : Nat) (bits : UInt64) : List Field :=
  if bits = 0 then [] else [⟨number, .fixed64 bits⟩]

/-- A byte-string field, left out when empty. -/
def bytes (number : Nat) (value : Bytes) : List Field :=
  if value = [] then [] else [⟨number, .delimited value⟩]

/-- The bytes of a text. -/
def utf8 (text : String) : Bytes :=
  text.toByteArray.data.toList

/-- Every character takes a byte at least. -/
theorem length_le_utf8 (letters : List Char) :
    letters.length ≤ (utf8 (String.ofList letters)).length := by
  rw [utf8, String.toByteArray_ofList]
  induction letters with
  | nil => exact Nat.zero_le _
  | cons letter letters inductionHypothesis =>
      have positive := letter.utf8Size_pos
      rw [List.utf8Encode_cons, List.utf8Encode_singleton]
      simp at inductionHypothesis ⊢
      omega

/-- A text field, left out when empty. -/
def string (number : Nat) (value : String) : List Field :=
  bytes number (utf8 value)

/-- A nested message, written when present. -/
def message [Message α] (number : Nat) (value : Option α) : List Field :=
  value.toList.map fun present => ⟨number, .delimited (encode present)⟩

/-- A list of nested messages, one field each. -/
def repeated [Message α] (number : Nat) (values : List α) : List Field :=
  values.map fun value => ⟨number, .delimited (encode value)⟩

/-- An integer field with presence, written also when zero. -/
def presentUint (number : Nat) (value : Option Nat) : List Field :=
  value.toList.map fun present => ⟨number, .varint present⟩

/-- A byte-string field with presence, written also when empty. -/
def presentBytes (number : Nat) (value : Option Bytes) : List Field :=
  value.toList.map fun present => ⟨number, .delimited present⟩

/-- A list of byte strings, one field each. -/
def repeatedBytes (number : Nat) (values : List Bytes) : List Field :=
  values.map fun value => ⟨number, .delimited value⟩

/-- A list of integers packed into one field. -/
def packed (number : Nat) (values : List Nat) : List Field :=
  bytes number (values.flatMap encodeVarint)

@[simp] theorem select_uint (wanted number value : Nat) :
    select wanted (uint number value) =
      if number = wanted then uint number value else [] := by
  apply select_of_forall
  intro field member
  unfold uint at member
  split at member <;> simp_all

section

variable (wanted number : Nat)

@[simp] theorem select_uint32 (value : UInt32) :
    select wanted (uint32 number value) =
      if number = wanted then uint32 number value else [] :=
  select_uint wanted number _

@[simp] theorem select_uint64 (value : UInt64) :
    select wanted (uint64 number value) =
      if number = wanted then uint64 number value else [] :=
  select_uint wanted number _

@[simp] theorem select_flag (value : Bool) :
    select wanted (flag number value) =
      if number = wanted then flag number value else [] :=
  select_uint wanted number value.toNat

@[simp] theorem select_int64 (value : Int64) :
    select wanted (int64 number value) =
      if number = wanted then int64 number value else [] :=
  select_uint wanted number _

@[simp] theorem select_int32 (value : Int32) :
    select wanted (int32 number value) =
      if number = wanted then int32 number value else [] :=
  select_uint wanted number _

@[simp] theorem select_double (value : UInt64) :
    select wanted (double number value) =
      if number = wanted then double number value else [] := by
  apply select_of_forall
  intro field member
  unfold double at member
  split at member <;> simp_all

@[simp] theorem select_bytes (value : Bytes) :
    select wanted (bytes number value) =
      if number = wanted then bytes number value else [] := by
  apply select_of_forall
  intro field member
  unfold bytes at member
  split at member <;> simp_all

@[simp] theorem select_string (value : String) :
    select wanted (string number value) =
      if number = wanted then string number value else [] :=
  select_bytes wanted number _

@[simp] theorem select_packed (values : List Nat) :
    select wanted (packed number values) =
      if number = wanted then packed number values else [] :=
  select_bytes wanted number _

@[simp] theorem select_repeated [Message α] (values : List α) :
    select wanted (repeated number values) =
      if number = wanted then repeated number values else [] := by
  apply select_of_forall
  intro field member
  simp only [repeated, List.mem_map] at member
  obtain ⟨_, _, rfl⟩ := member
  rfl

@[simp] theorem select_message [Message α] (value : Option α) :
    select wanted (message number value) =
      if number = wanted then message number value else [] :=
  select_repeated wanted number value.toList

@[simp] theorem select_presentUint (value : Option Nat) :
    select wanted (presentUint number value) =
      if number = wanted then presentUint number value else [] := by
  apply select_of_forall
  intro field member
  simp only [presentUint, List.mem_map] at member
  obtain ⟨_, _, rfl⟩ := member
  rfl

@[simp] theorem select_repeatedBytes
    (values : List Bytes) :
    select wanted (repeatedBytes number values) =
      if number = wanted then repeatedBytes number values else [] := by
  apply select_of_forall
  intro field member
  simp only [repeatedBytes, List.mem_map] at member
  obtain ⟨_, _, rfl⟩ := member
  rfl

@[simp] theorem select_presentBytes
    (value : Option Bytes) :
    select wanted (presentBytes number value) =
      if number = wanted then presentBytes number value else [] :=
  select_repeatedBytes wanted number value.toList

end

@[simp] theorem uint_inj (number first second : Nat) :
    uint number first = uint number second ↔ first = second := by
  unfold uint
  split <;> split <;> simp <;> omega

@[simp] theorem uint32_inj (number : Nat) (first second : UInt32) :
    uint32 number first = uint32 number second ↔ first = second := by
  simp [uint32, UInt32.toNat_inj]

@[simp] theorem uint64_inj (number : Nat) (first second : UInt64) :
    uint64 number first = uint64 number second ↔ first = second := by
  simp [uint64, UInt64.toNat_inj]

@[simp] theorem presentUint_inj (number : Nat) (first second : Option Nat) :
    presentUint number first = presentUint number second ↔ first = second := by
  cases first <;> cases second <;> simp [presentUint]

@[simp] theorem presentBytes_inj (number : Nat) (first second : Option Bytes) :
    presentBytes number first = presentBytes number second ↔ first = second := by
  cases first <;> cases second <;> simp [presentBytes]

@[simp] theorem flag_inj (number : Nat) (first second : Bool) :
    flag number first = flag number second ↔ first = second := by
  cases first <;> cases second <;> simp [flag]

theorem toUInt64_inj (first second : Int64) :
    first.toUInt64 = second.toUInt64 ↔ first = second := by
  refine ⟨fun equal => ?_, fun equal => equal ▸ rfl⟩
  cases first
  cases second
  exact congrArg Int64.ofUInt64 equal

@[simp] theorem int64_inj (number : Nat) (first second : Int64) :
    int64 number first = int64 number second ↔ first = second := by
  simp only [int64, uint_inj, UInt64.toNat_inj]
  exact toUInt64_inj first second

@[simp] theorem int32_inj (number : Nat) (first second : Int32) :
    int32 number first = int32 number second ↔ first = second := by
  simp only [int32, uint_inj, UInt64.toNat_inj, toUInt64_inj]
  refine ⟨fun equal => ?_, fun equal => equal ▸ rfl⟩
  rw [← Int32.toInt32_toInt64 first, equal, Int32.toInt32_toInt64]

@[simp] theorem double_inj (number : Nat) (first second : UInt64) :
    double number first = double number second ↔ first = second := by
  unfold double
  split <;> split <;> simp_all [eq_comm]

@[simp] theorem bytes_inj (number : Nat) (first second : Bytes) :
    bytes number first = bytes number second ↔ first = second := by
  unfold bytes
  split <;> split <;> simp_all [eq_comm]

@[simp] theorem utf8_inj (first second : String) : utf8 first = utf8 second ↔ first = second := by
  unfold utf8
  refine ⟨fun equal => ?_, fun equal => equal ▸ rfl⟩
  apply String.toByteArray_inj.1
  exact ByteArray.ext (Array.ext' equal)

@[simp] theorem string_inj (number : Nat) (first second : String) :
    string number first = string number second ↔ first = second := by
  simp [string]

@[simp] theorem repeated_inj [Message α] (number : Nat) (first second : List α) :
    repeated number first = repeated number second ↔ first = second := by
  unfold repeated
  refine ⟨fun equal => ?_, fun equal => equal ▸ rfl⟩
  refine List.map_injective_iff.2 ?_ equal
  intro left right fieldEq
  simpa using fieldEq

@[simp] theorem message_inj [Message α] (number : Nat) (first second : Option α) :
    message number first = message number second ↔ first = second := by
  refine ⟨fun equal => ?_, fun equal => equal ▸ rfl⟩
  have lists := (repeated_inj number first.toList second.toList).1 equal
  cases first <;> cases second <;> simp_all

theorem flatMap_encodeVarint_injective :
    Function.Injective fun values : List Nat => values.flatMap encodeVarint := by
  intro first
  induction first with
  | nil =>
      intro second equal
      cases second with
      | nil => rfl
      | cons head tail =>
          exact absurd (List.append_eq_nil_iff.1 equal.symm).1
            (encodeVarint_ne_nil head)
  | cons firstHead firstTail inductionHypothesis =>
      intro second equal
      cases second with
      | nil =>
          exact absurd (List.append_eq_nil_iff.1 equal).1
            (encodeVarint_ne_nil firstHead)
      | cons secondHead secondTail =>
          have decoded := congrArg decodeVarint equal
          simp only [List.flatMap_cons, decodeVarint_encodeVarint,
            Option.some.injEq, Prod.mk.injEq] at decoded
          rw [decoded.1, inductionHypothesis decoded.2]

@[simp] theorem packed_inj (number : Nat) (first second : List Nat) :
    packed number first = packed number second ↔ first = second := by
  rw [packed, packed, bytes_inj]
  exact flatMap_encodeVarint_injective.eq_iff

/-- Equal field lists agree on the fields of every number. -/
theorem select_each
    (numbers : List Nat) {first second : List Field} (equal : first = second) :
    ∀ number ∈ numbers, select number first = select number second :=
  fun number _ => congrArg (select number) equal

end Wire
