import Mathlib.Data.List.Pairwise
import Parvane.Codec.Limits
import Parvane.Foundation.Varint

/-!
# Decoding by a schema

The rules of the wire format, written down for themselves: what value the bytes of a message
have.  The value lists the known fields in the order in which they stand.  The walk over
untrusted bytes is compared with these rules: where it accepts and the rules give a value, the
value is within the limits of the schema.
-/

namespace Parvane.Codec

open Wire Limits

/-- One item of a field. -/
inductive Element
  | number (value : Nat)
  | fixed (bytes : Bytes)
  | text (value : String)
  | bytes (value : Bytes)
  | message (fields : List (UInt32 × Element))

/-- The known fields of a message with their items, in the order of the bytes. -/
abbrev Value := List (UInt32 × Element)

/-! ## The rules -/

section

def takeBytes (count : Nat) (bytes : Bytes) : Option (Bytes × Bytes) :=
  if count ≤ bytes.length then some (bytes.take count, bytes.drop count) else none

/-- A byte string after its length. -/
def delimited (bytes : Bytes) : Option (Bytes × Bytes) := do
  let (length, rest) ← decodeVarint64 bytes
  takeBytes length rest

/-- Pass over a field.  Groups, which have gone out of use, are not read. -/
def skipField (wire : Nat) (bytes : Bytes) : Option Bytes :=
  match wire with
  | 0 => (decodeVarint64 bytes).map Prod.snd
  | 1 => (takeBytes 8 bytes).map Prod.snd
  | 2 => (delimited bytes).map Prod.snd
  | 5 => (takeBytes 4 bytes).map Prod.snd
  | _ => none

/-- Pieces of one length. -/
def chunks (size : Nat) : Nat -> Bytes -> List Bytes
  | 0, _ => []
  | count + 1, bytes => bytes.take size :: chunks size count (bytes.drop size)

/-- What stands next in the bytes of a message. -/
inductive Part
  | unknown
  | elements (field : FieldSpec) (elements : List Element)
  | message (field : FieldSpec) (nested : MsgSpec) (data : Bytes)

variable (schema : Schema)

def decodeField (field : FieldSpec) (wire : Nat) (bytes : Bytes) : Option (Part × Bytes) :=
  match field.ty, wire with
  | .varint, 0 => do
      let (value, rest) ← decodeVarint64 bytes
      return (.elements field [.number value], rest)
  | .fixed64, 1 => do
      let (data, rest) ← takeBytes 8 bytes
      return (.elements field [.fixed data], rest)
  | .fixed32, 5 => do
      let (data, rest) ← takeBytes 4 bytes
      return (.elements field [.fixed data], rest)
  | .varint, 2 =>
      if field.repeated then do
        let (data, rest) ← delimited bytes
        let values ← decodePacked data
        return (.elements field (values.map .number), rest)
      else none
  | .fixed64, 2 =>
      if field.repeated then do
        let (data, rest) ← delimited bytes
        if data.length % 8 = 0 then
          return (.elements field ((chunks 8 (data.length / 8) data).map .fixed), rest)
        else none
      else none
  | .fixed32, 2 =>
      if field.repeated then do
        let (data, rest) ← delimited bytes
        if data.length % 4 = 0 then
          return (.elements field ((chunks 4 (data.length / 4) data).map .fixed), rest)
        else none
      else none
  | .str, 2 => do
      let (data, rest) ← delimited bytes
      let text ← String.fromUTF8? ⟨data.toArray⟩
      return (.elements field [.text text], rest)
  | .bytes, 2 => do
      let (data, rest) ← delimited bytes
      return (.elements field [.bytes data], rest)
  | .message index, 2 => do
      let (data, rest) ← delimited bytes
      let nested ← schema[index]?
      return (.message field nested data, rest)
  | _, _ => none

/-- A key has 32 bits: the number of a field and how it is written. -/
def decodePart (spec : MsgSpec) (bytes : Bytes) : Option (Part × Bytes) := do
  let (key, rest) ← decodeVarint64 bytes
  if key < 2 ^ 32 ∧ key / 8 ≠ 0 then
    match spec.field (UInt32.ofNat (key / 8)) with
    | none => do
        let rest ← skipField (key % 8) rest
        return (.unknown, rest)
    | some field => decodeField schema field (key % 8) rest
  else none

/-- The value of the bytes of a message.  The first argument bounds the number of steps. -/
def decodeFrom : Nat -> MsgSpec -> Bytes -> Option Value
  | 0, _, _ => none
  | _ + 1, _, [] => some []
  | steps + 1, spec, byte :: bytes => do
      match ← decodePart schema spec (byte :: bytes) with
      | (.unknown, rest) => decodeFrom steps spec rest
      | (.elements field elements, rest) => do
          let others ← decodeFrom steps spec rest
          return elements.map (field.number, ·) ++ others
      | (.message field nested data, rest) => do
          let inner ← decodeFrom steps nested data
          let others ← decodeFrom steps spec rest
          return (field.number, .message inner) :: others

def decodeValue (spec : MsgSpec) (bytes : Bytes) : Option Value :=
  decodeFrom schema (bytes.length + 1) spec bytes

/-- Somewhere a key has more than 32 bits, or packed integers have more than 64 bits or more
than ten bytes. -/
inductive Oversized : MsgSpec -> Bytes -> Prop
  | key {spec : MsgSpec} {bytes : Bytes} {key : Nat} {rest : Bytes}
      (read : decodeVarint64 bytes = some (key, rest))
      (large : 2 ^ 32 ≤ key) : Oversized spec bytes
  | packed {spec : MsgSpec} {bytes : Bytes} {key : Nat} {rest : Bytes} {field : FieldSpec}
      {data later : Bytes}
      (read : decodeVarint64 bytes = some (key, rest))
      (known : spec.field (UInt32.ofNat (key / 8)) = some field)
      (integers : field.ty = .varint ∧ key % 8 = 2)
      (inside : delimited rest = some (data, later))
      (ended : ∀ byte ∈ data.getLast?, byte.toNat < 128)
      (undecoded : decodePacked data = none) : Oversized spec bytes
  | inside {spec : MsgSpec} {bytes : Bytes} {field : FieldSpec} {nested : MsgSpec}
      {data rest : Bytes}
      (read : decodePart schema spec bytes = some (.message field nested data, rest))
      (oversized : Oversized nested data) : Oversized spec bytes
  | later {spec : MsgSpec} {bytes : Bytes} {part : Part} {rest : Bytes}
      (read : decodePart schema spec bytes = some (part, rest))
      (oversized : Oversized spec rest) : Oversized spec bytes

end

/-! ## Values within the limits -/

/-- How many items a field may have. -/
def limit (field : FieldSpec) : Nat :=
  if field.repeated then field.maxItems.toNat else 1

section

variable (schema : Schema)

/-- An item of the type of its field, and of a length that the field allows. -/
def Fits (field : FieldSpec) (element : Element) : Prop :=
  match field.ty, element with
  | .varint, .number value => value < 2 ^ 64
  | .fixed64, .fixed bytes => bytes.length = 8
  | .fixed32, .fixed bytes => bytes.length = 4
  | .str, .text value => value.utf8ByteSize ≤ field.maxLen.toNat
  | .bytes, .bytes value => value.length ≤ field.maxLen.toNat
  | .message index, .message _ => schema[index]?.isSome = true
  | _, _ => False

/-- A value of a message at some depth within all limits of the schema. -/
inductive Within (origin : Origin) : Nat -> MsgSpec -> Value -> Prop
  | intro {depth : Nat} {spec : MsgSpec} {value : Value}
      (shallow : depth ≤ maxDepth)
      (known : ∀ item ∈ value, ∃ field, spec.field item.1 = some field ∧
        Fits schema field item.2 ∧ (origin = .client -> field.serverSet = false))
      (counted : ∀ field ∈ spec.fields,
        value.countP (fun item => item.1 == field.number) ≤ limit field)
      (nested : ∀ number fields, (number, .message fields) ∈ value ->
        ∀ field index inner, spec.field number = some field -> field.ty = .message index ->
          schema[index]? = some inner -> Within origin (depth + 1) inner fields) :
      Within origin depth spec value

end

/-! ## The walk reads what the rules read -/

theorem varintFrom_eq_ok {left : Nat} {bytes rest : Bytes} {value : Nat} :
    varintFrom left bytes = .ok (value, rest) ↔
      decodeVarint bytes = some (value, rest) ∧ value < 2 ^ (7 * left + 1) ∧
        bytes.length ≤ rest.length + (left + 1) := by
  induction left generalizing bytes value with
  | zero =>
      cases bytes with
      | nil => simp [varintFrom, decodeVarint]
      | cons byte bytes =>
          rw [varintFrom, decodeVarint]
          split
          · next large =>
              refine iff_of_false (by simp) ?_
              rintro ⟨decoded, small, short⟩
              split at decoded
              · cases decoded
                omega
              · obtain ⟨⟨high, unread⟩, tailDecoded, same⟩ := Option.map_eq_some_iff.1 decoded
                cases same
                have shorter := length_lt_of_decodeVarint tailDecoded
                simp only [List.length_cons] at short
                omega
          · next small =>
              rw [if_pos (by omega)]
              simp only [Except.ok.injEq, Option.some.injEq, Prod.mk.injEq]
              constructor
              · rintro ⟨rfl, rfl⟩
                refine ⟨⟨rfl, rfl⟩, by omega, ?_⟩
                simp
              · exact And.left
  | succ left inductionHypothesis =>
      cases bytes with
      | nil => simp [varintFrom, decodeVarint]
      | cons byte bytes =>
          rw [varintFrom, decodeVarint]
          split
          · next small =>
              simp only [Except.ok.injEq, Option.some.injEq, Prod.mk.injEq]
              constructor
              · rintro ⟨rfl, rfl⟩
                refine ⟨⟨rfl, rfl⟩, ?_, by simp⟩
                calc byte.toNat < 2 ^ 7 := small
                  _ ≤ 2 ^ (7 * (left + 1) + 1) := Nat.pow_le_pow_right (by decide) (by omega)
              · exact And.left
          · next large =>
              have digit : byte.toNat - 128 < 128 := by
                have := byte.toNat_lt
                omega
              have power : 2 ^ (7 * (left + 1) + 1) = 128 * 2 ^ (7 * left + 1) := by
                rw [show 7 * (left + 1) + 1 = 7 + (7 * left + 1) by omega, pow_add]
                rfl
              constructor
              · intro read
                cases tailRead : varintFrom left bytes with
                | error error =>
                    rw [tailRead] at read
                    cases read
                | ok found =>
                    obtain ⟨high, unread⟩ := found
                    rw [tailRead] at read
                    cases read
                    obtain ⟨decoded, small, short⟩ := inductionHypothesis.1 tailRead
                    rw [decoded, power]
                    refine ⟨rfl, by omega, ?_⟩
                    simp only [List.length_cons]
                    omega
              · rintro ⟨decoded, small, short⟩
                obtain ⟨⟨high, unread⟩, tailDecoded, same⟩ := Option.map_eq_some_iff.1 decoded
                cases same
                rw [power] at small
                simp only [List.length_cons] at short
                rw [inductionHypothesis.2 ⟨tailDecoded, by omega, by omega⟩]
                rfl

/-- The reader of the walk reads the integers of the format. -/
theorem varint_eq_ok {bytes rest : Bytes} {value : Nat} :
    varint bytes = .ok (value, rest) ↔ decodeVarint64 bytes = some (value, rest) := by
  rw [varint, varintFrom_eq_ok, decodeVarint64_eq_some]

theorem take_eq_ok_iff {count : Nat} {bytes data rest : Bytes} :
    take count bytes = .ok (data, rest) ↔ takeBytes count bytes = some (data, rest) := by
  unfold take takeBytes
  split <;> simp

theorem lenDelimited_eq_ok {bytes data rest : Bytes} :
    lenDelimited bytes = .ok (data, rest) ↔ delimited bytes = some (data, rest) := by
  simp only [lenDelimited, delimited, bind_eq_ok, Prod.exists, varint_eq_ok, take_eq_ok_iff,
    Option.bind_eq_bind, Option.bind_eq_some_iff]

theorem map_snd_eq_ok {read : Result (α × Bytes)}
    {rules : Option (α × Bytes)}
    (agree : ∀ value rest, read = .ok (value, rest) ↔ rules = some (value, rest))
    {rest : Bytes}
    (mapped : read.map Prod.snd = .ok rest) : rules.map Prod.snd = some rest := by
  cases reads : read with
  | error error =>
      rw [reads] at mapped
      cases mapped
  | ok found =>
      rw [reads] at mapped
      cases mapped
      rw [(agree found.1 found.2).1 reads]
      rfl

theorem skipUnknown_eq_ok {wire : Nat} {bytes rest : Bytes}
    (skipped : skipUnknown wire bytes = .ok rest) : skipField wire bytes = some rest := by
  unfold skipUnknown at skipped
  unfold skipField
  split at skipped
  · exact map_snd_eq_ok (fun _ _ => varint_eq_ok) skipped
  · exact map_snd_eq_ok (fun _ _ => take_eq_ok_iff) skipped
  · exact map_snd_eq_ok (fun _ _ => lenDelimited_eq_ok) skipped
  · exact map_snd_eq_ok (fun _ _ => take_eq_ok_iff) skipped
  · cases skipped

theorem length_chunks (size count : Nat) (bytes : Bytes) :
    (chunks size count bytes).length = count := by
  induction count generalizing bytes with
  | zero => rfl
  | succ count inductionHypothesis => rw [chunks, List.length_cons, inductionHypothesis]

theorem length_of_mem_chunks {size count : Nat} {bytes : Bytes}
    (enough : size * count ≤ bytes.length) :
    ∀ chunk ∈ chunks size count bytes, chunk.length = size := by
  induction count generalizing bytes with
  | zero => simp [chunks]
  | succ count inductionHypothesis =>
      rw [Nat.mul_succ] at enough
      refine List.forall_mem_cons.2 ⟨?_, inductionHypothesis ?_⟩
      · rw [List.length_take]
        omega
      · rw [List.length_drop]
        omega

theorem utf8ByteSize_of_fromUTF8? {data : Bytes} {text : String}
    (decoded : String.fromUTF8? ⟨data.toArray⟩ = some text) : text.utf8ByteSize = data.length := by
  unfold String.fromUTF8? at decoded
  split at decoded
  · cases decoded
    rfl
  · cases decoded

section

variable {schema : Schema} {origin : Origin}

/-- What the walk counts is what the rules read, for a field with its limits. -/
def Agrees (schema : Schema) (field : FieldSpec) : Occurrence -> Part -> Prop
  | .items counted count, .elements decoded elements =>
      counted = field ∧ decoded = field ∧ elements.length = count ∧
        (∀ element ∈ elements, Fits schema field element) ∧ ∀ index, field.ty ≠ .message index
  | .message counted nested data, .message decoded inner bytes =>
      counted = field ∧ decoded = field ∧ nested = inner ∧ data = bytes ∧
        ∃ index, field.ty = .message index ∧ schema[index]? = some nested
  | _, _ => False

/-- Packed integers that end but are too long or too large. -/
def OverlongPacked (field : FieldSpec) (wire : Nat) (bytes : Bytes) : Prop :=
  (field.ty = .varint ∧ wire = 2) ∧ ∃ data later, delimited bytes = some (data, later) ∧
    (∀ byte ∈ data.getLast?, byte.toNat < 128) ∧ decodePacked data = none

theorem countPackedVarints_eq_ok {data : Bytes} {count : Nat}
    (counted : countPackedVarints data = .ok count) :
    (∀ byte ∈ data.getLast?, byte.toNat < 128) ∧ countEnds data = count := by
  unfold countPackedVarints at counted
  split at counted
  · cases counted
  · next ended =>
      refine ⟨fun byte last => ?_, Except.ok.inj counted⟩
      rw [Option.mem_def] at last
      simpa [last] using ended

variable {field : FieldSpec}

theorem readField_agrees {wire : Nat} {bytes rest : Bytes} {occurrence : Occurrence}
    (read : readField schema field wire bytes = .ok (occurrence, rest)) :
    OverlongPacked field wire bytes ∨
      ∃ part, decodeField schema field wire bytes = some (part, rest) ∧
        Agrees schema field occurrence part := by
  unfold readField at read
  split at read
  all_goals
    simp only [bind_eq_ok, require_eq_ok, present_eq_ok, Prod.exists, pure, Except.pure,
      Except.ok.injEq, Prod.mk.injEq, reduceCtorEq] at read
  all_goals rename_i ty
  · obtain ⟨value, unread, read, rfl, rfl⟩ := read
    have decoded := varint_eq_ok.1 read
    refine .inr ⟨.elements field [.number value], ?_, rfl, rfl, rfl, ?_, by simp [ty]⟩
    · simp [decodeField, ty, decoded]
    · simpa [Fits, ty] using (decodeVarint64_eq_some.1 decoded).2.1
  · obtain ⟨data, unread, read, rfl, rfl⟩ := read
    refine .inr ⟨.elements field [.fixed data], ?_, rfl, rfl, rfl, ?_, by simp [ty]⟩
    · simp [decodeField, ty, take_eq_ok_iff.1 read]
    · obtain ⟨enough, rfl, rfl⟩ := take_eq_ok.1 read
      simpa [Fits, ty] using enough
  · obtain ⟨data, unread, read, rfl, rfl⟩ := read
    refine .inr ⟨.elements field [.fixed data], ?_, rfl, rfl, rfl, ?_, by simp [ty]⟩
    · simp [decodeField, ty, take_eq_ok_iff.1 read]
    · obtain ⟨enough, rfl, rfl⟩ := take_eq_ok.1 read
      simpa [Fits, ty] using enough
  · obtain ⟨_, repeated, data, unread, read, count, counted, rfl, rfl⟩ := read
    have inside := lenDelimited_eq_ok.1 read
    obtain ⟨ended, ends⟩ := countPackedVarints_eq_ok counted
    cases decoded : decodePacked data with
    | none => exact .inl ⟨⟨ty, rfl⟩, data, unread, inside, ended, decoded⟩
    | some values =>
        refine .inr ⟨.elements field (values.map .number), ?_, rfl, rfl, ?_, ?_, by simp [ty]⟩
        · simp [decodeField, ty, repeated, inside, decoded]
        · rw [List.length_map, length_of_decodePacked decoded, ends]
        · rw [List.forall_mem_map]
          intro value member
          simpa [Fits, ty] using lt_of_mem_packedFrom decoded value member
  · obtain ⟨_, repeated, data, unread, read, _, whole, rfl, rfl⟩ := read
    have whole : data.length % 8 = 0 := beq_iff_eq.1 whole
    refine .inr ⟨.elements field ((chunks 8 (data.length / 8) data).map .fixed), ?_,
      rfl, rfl, ?_, ?_, by simp [ty]⟩
    · simp [decodeField, ty, repeated, lenDelimited_eq_ok.1 read, whole]
    · rw [List.length_map, length_chunks]
    · rw [List.forall_mem_map]
      intro chunk member
      simpa [Fits, ty] using length_of_mem_chunks (Nat.mul_div_le data.length 8) chunk member
  · obtain ⟨_, repeated, data, unread, read, _, whole, rfl, rfl⟩ := read
    have whole : data.length % 4 = 0 := beq_iff_eq.1 whole
    refine .inr ⟨.elements field ((chunks 4 (data.length / 4) data).map .fixed), ?_,
      rfl, rfl, ?_, ?_, by simp [ty]⟩
    · simp [decodeField, ty, repeated, lenDelimited_eq_ok.1 read, whole]
    · rw [List.length_map, length_chunks]
    · rw [List.forall_mem_map]
      intro chunk member
      simpa [Fits, ty] using length_of_mem_chunks (Nat.mul_div_le data.length 4) chunk member
  · obtain ⟨data, unread, read, _, short, _, valid, rfl, rfl⟩ := read
    obtain ⟨text, decoded⟩ := Option.isSome_iff_exists.1 valid
    refine .inr ⟨.elements field [.text text], ?_, rfl, rfl, rfl, ?_, by simp [ty]⟩
    · simp [decodeField, ty, lenDelimited_eq_ok.1 read, decoded]
    · simpa [Fits, ty, utf8ByteSize_of_fromUTF8? decoded] using short
  · obtain ⟨data, unread, read, _, short, rfl, rfl⟩ := read
    refine .inr ⟨.elements field [.bytes data], ?_, rfl, rfl, rfl, ?_, by simp [ty]⟩
    · simp [decodeField, ty, lenDelimited_eq_ok.1 read]
    · simpa [Fits, ty] using short
  · obtain ⟨data, unread, read, nested, known, rfl, rfl⟩ := read
    refine .inr ⟨.message field nested data, ?_, rfl, rfl, rfl, rfl, _, ty, known⟩
    simp [decodeField, ty, lenDelimited_eq_ok.1 read, known]

/-- What stands next, as the walk has checked it. -/
def AgreesAt (schema : Schema) (origin : Origin) (spec : MsgSpec) (occurrence : Occurrence)
    (part : Part) : Prop :=
  (occurrence = .unknown ∧ part = .unknown) ∨
    ∃ field, spec.field field.number = some field ∧ (origin = .client -> field.serverSet = false) ∧
      Agrees schema field occurrence part

variable {spec : MsgSpec}

theorem AgreesAt.unknown {part : Part}
    (agrees : AgreesAt schema origin spec .unknown part) : part = .unknown := by
  rcases agrees with ⟨-, rfl⟩ | ⟨field, -, -, agrees⟩
  · rfl
  · exact agrees.elim

theorem AgreesAt.items {count : Nat} {part : Part}
    (agrees : AgreesAt schema origin spec (.items field count) part) :
    ∃ elements, part = .elements field elements ∧ spec.field field.number = some field ∧
      (origin = .client -> field.serverSet = false) ∧ elements.length = count ∧
        (∀ element ∈ elements, Fits schema field element) ∧ ∀ index, field.ty ≠ .message index := by
  rcases agrees with ⟨nothing, -⟩ | ⟨field, known, allowed, agrees⟩
  · cases nothing
  · cases part with
    | elements decoded elements =>
        obtain ⟨rfl, rfl, length, fits⟩ := agrees
        exact ⟨elements, rfl, known, allowed, length, fits⟩
    | unknown => exact agrees.elim
    | message => exact agrees.elim

theorem AgreesAt.message {spec nested : MsgSpec} {data : Bytes} {part : Part}
    (agrees : AgreesAt schema origin spec (.message field nested data) part) :
    part = .message field nested data ∧ spec.field field.number = some field ∧
      (origin = .client -> field.serverSet = false) ∧
        ∃ index, field.ty = .message index ∧ schema[index]? = some nested := by
  rcases agrees with ⟨nothing, -⟩ | ⟨field, known, allowed, agrees⟩
  · cases nothing
  · cases part with
    | message decoded inner bytes =>
        obtain ⟨rfl, rfl, rfl, rfl, typed⟩ := agrees
        exact ⟨rfl, known, allowed, typed⟩
    | unknown => exact agrees.elim
    | elements => exact agrees.elim

theorem readOccurrence_agrees {bytes rest : Bytes} {occurrence : Occurrence}
    (read : readOccurrence schema origin spec bytes = .ok (occurrence, rest)) :
    (Oversized schema spec bytes ∧ decodePart schema spec bytes = none) ∨
      ∃ part, decodePart schema spec bytes = some (part, rest) ∧
        AgreesAt schema origin spec occurrence part := by
  simp only [readOccurrence, bind_eq_ok, require_eq_ok, Prod.exists, varint_eq_ok] at read
  obtain ⟨key, unread, keyRead, _, inside, _, nonzero, read⟩ := read
  by_cases small : key < 2 ^ 32
  · have positive : key / 8 ≠ 0 := by
      intro zero
      rw [zero] at nonzero
      cases nonzero
    have part : decodePart schema spec bytes =
        match spec.field (UInt32.ofNat (key / 8)) with
        | none => do
            let rest ← skipField (key % 8) unread
            return (.unknown, rest)
        | some field => decodeField schema field (key % 8) unread := by
      rw [decodePart, keyRead]
      exact if_pos ⟨small, positive⟩
    split at read
    · next unknown =>
        simp only [bind_eq_ok, pure, Except.pure, Except.ok.injEq, Prod.mk.injEq] at read
        obtain ⟨_, skipped, rfl, rfl⟩ := read
        rw [part, unknown]
        refine .inr ⟨.unknown, ?_, .inl ⟨rfl, rfl⟩⟩
        simp [skipUnknown_eq_ok skipped]
    · next field known =>
        simp only [bind_eq_ok, require_eq_ok] at read
        obtain ⟨_, allowed, read⟩ := read
        rw [part, known]
        have number : field.number = UInt32.ofNat (key / 8) := by
          rw [MsgSpec.field] at known
          have found := List.find?_some known
          exact beq_iff_eq.1 found
        rcases readField_agrees read with ⟨integers, data, later, inside, ended, undecoded⟩ | found
        · left
          refine ⟨.packed keyRead known integers inside ended undecoded, ?_⟩
          simp [decodeField, integers.1, integers.2, inside, undecoded]
        · obtain ⟨found, decoded, agrees⟩ := found
          refine .inr ⟨found, decoded, .inr ⟨field, number ▸ known, ?_, agrees⟩⟩
          rintro rfl
          simpa using allowed
  · left
    refine ⟨.key keyRead (not_lt.1 small), ?_⟩
    rw [decodePart, keyRead]
    exact if_neg fun both => small both.1

theorem limit_lt (field : FieldSpec) : limit field < 2 ^ 64 - 1 := by
  have small := field.maxItems.toNat_lt
  unfold limit
  split <;> omega

theorem add_eq_ok {counts later : Counts} {count : Nat} :
    add counts field count = .ok later ↔
      counts field.number + count ≤ limit field ∧
        Function.update counts field.number (counts field.number + count) = later := by
  have bounded := limit_lt field
  have seen : min (counts field.number + count) (2 ^ 64 - 1) ≤ limit field ↔
      counts field.number + count ≤ limit field := by omega
  have same (within : counts field.number + count ≤ limit field) :
      min (counts field.number + count) (2 ^ 64 - 1) = counts field.number + count := by omega
  unfold limit at seen same ⊢
  unfold add
  split
  · next repeated =>
      simp only [if_pos repeated] at seen same ⊢
      simp only [bind_eq_ok, require_eq_ok, decide_eq_true_eq, pure, Except.pure, Except.ok.injEq,
        exists_and_left, exists_const, seen]
      exact and_congr_right fun within => by rw [same within]
  · next single =>
      simp only [if_neg single] at seen same ⊢
      simp only [bind_eq_ok, require_eq_ok, decide_eq_true_eq, pure, Except.pure, Except.ok.injEq,
        exists_and_left, exists_const, seen]
      exact and_congr_right fun within => by rw [same within]

/-- The limits of a value that follows others. -/
structure WithinFrom (schema : Schema) (origin : Origin) (depth : Nat) (spec : MsgSpec)
    (counts : Counts) (value : Value) : Prop where
  known : ∀ item ∈ value, ∃ field, spec.field item.1 = some field ∧
    Fits schema field item.2 ∧ (origin = .client -> field.serverSet = false)
  counted : ∀ field ∈ spec.fields,
    value.countP (fun item => item.1 == field.number) = 0 ∨
      counts field.number + value.countP (fun item => item.1 == field.number) ≤ limit field
  nested : ∀ number fields, (number, .message fields) ∈ value ->
    ∀ field index inner, spec.field number = some field -> field.ty = .message index ->
      schema[index]? = some inner -> Within schema origin (depth + 1) inner fields

theorem WithinFrom.within {depth : Nat} {value : Value}
    (shallow : depth ≤ maxDepth)
    (within : WithinFrom schema origin depth spec (fun _ => 0) value) :
    Within schema origin depth spec value :=
  .intro shallow within.known
    (fun field member => by
      rcases within.counted field member with none | some
      · omega
      · omega)
    within.nested

/-- A field of a message is determined by its number. -/
theorem field_eq_of_number {first second : FieldSpec}
    (firstMember : first ∈ spec.fields) (secondMember : second ∈ spec.fields)
    (same : first.number = second.number) : first = second := by
  have apart : spec.fields.Pairwise fun one other => one.number ≠ other.number :=
    spec.sorted.imp fun less => UInt32.ne_of_lt less
  have : Std.Symm fun one other : FieldSpec => one.number ≠ other.number :=
    ⟨fun _ _ => Ne.symm⟩
  by_contra different
  exact apart.forall firstMember secondMember different same

/-- Items of a field that were counted come before a value within the limits that are left. -/
theorem WithinFrom.cons
    {depth : Nat} {counts later : Counts} {elements : List Element} {value : Value}
    (known : spec.field field.number = some field)
    (allowed : origin = .client -> field.serverSet = false)
    (fits : ∀ element ∈ elements, Fits schema field element)
    (inner : ∀ fields, .message fields ∈ elements ->
      ∀ index inner, field.ty = .message index -> schema[index]? = some inner ->
        Within schema origin (depth + 1) inner fields)
    (added : add counts field elements.length = .ok later)
    (within : WithinFrom schema origin depth spec later value) :
    WithinFrom schema origin depth spec counts
      (elements.map (field.number, ·) ++ value) := by
  obtain ⟨le, rfl⟩ := add_eq_ok.1 added
  refine ⟨?_, ?_, ?_⟩
  · intro item member
    rcases List.mem_append.1 member with first | second
    · obtain ⟨element, inside, rfl⟩ := List.mem_map.1 first
      exact ⟨field, known, fits element inside, allowed⟩
    · exact within.known item second
  · intro other member
    rw [List.countP_append, List.countP_map]
    by_cases same : field.number = other.number
    · have whole : elements.countP ((fun item : UInt32 × Element => item.1 == other.number) ∘
          (field.number, ·)) = elements.length := by
        rw [List.countP_eq_length]
        intro element _
        exact beq_iff_eq.2 same
      obtain rfl := field_eq_of_number (List.mem_of_find?_eq_some known) member same
      rw [whole]
      have rest := within.counted field member
      rw [Function.update_self] at rest
      omega
    · have nothing : elements.countP ((fun item : UInt32 × Element => item.1 == other.number) ∘
          (field.number, ·)) = 0 := by
        rw [List.countP_eq_zero]
        intro element _ found
        exact same (beq_iff_eq.1 found)
      have rest := within.counted other member
      rw [Function.update_of_ne (Ne.symm same)] at rest
      rw [nothing, Nat.zero_add]
      exact rest
  · intro number fields member field' index nested known' ty found
    rcases List.mem_append.1 member with first | second
    · obtain ⟨element, inside, same⟩ := List.mem_map.1 first
      cases same
      rw [known] at known'
      cases known'
      exact inner fields inside index nested ty found
    · exact within.nested number fields second field' index nested known' ty found

theorem WithinFrom.message
    {depth index : Nat} {spec nested : MsgSpec} {counts later : Counts} {fields value : Value}
    (known : spec.field field.number = some field)
    (allowed : origin = .client -> field.serverSet = false) (ty : field.ty = .message index)
    (found : schema[index]? = some nested)
    (inner : Within schema origin (depth + 1) nested fields)
    (added : add counts field 1 = .ok later)
    (within : WithinFrom schema origin depth spec later value) :
    WithinFrom schema origin depth spec counts ((field.number, .message fields) :: value) := by
  change WithinFrom schema origin depth spec counts
    ([Element.message fields].map (field.number, ·) ++ value)
  refine within.cons known allowed ?_ ?_ added
  · have typed : Fits schema field (.message fields) := by simp only [Fits, ty, found, Option.isSome]
    simpa using typed
  · intro others member index' nested' ty' found'
    obtain rfl : others = fields := by simpa using member
    rw [ty] at ty'
    cases ty'
    rw [found] at found'
    cases found'
    exact inner

/-- Where the walk accepts, the rules give a value within the limits, unless an integer is too
large for them. -/
theorem walkFrom_sound {steps depth : Nat} {counts : Counts} {bytes : Bytes}
    (accepted : walkFrom schema origin steps depth spec counts bytes = some (.ok ())) :
    (Oversized schema spec bytes ∧ decodeFrom schema steps spec bytes = none) ∨
      ∃ value, decodeFrom schema steps spec bytes = some value ∧
        WithinFrom schema origin depth spec counts value := by
  induction steps generalizing depth spec counts bytes with
  | zero => cases accepted
  | succ steps inductionHypothesis =>
      cases bytes with
      | nil =>
          refine .inr ⟨[], rfl, ?_, ?_, ?_⟩
          · simp
          · simp
          · simp
      | cons byte bytes =>
          rw [walkFrom] at accepted
          cases read : readOccurrence schema origin spec (byte :: bytes) with
          | error error =>
              rw [read] at accepted
              cases accepted
          | ok found =>
              obtain ⟨occurrence, rest⟩ := found
              rw [read] at accepted
              rcases readOccurrence_agrees read with ⟨oversized, undecoded⟩ | found
              · left
                refine ⟨oversized, ?_⟩
                rw [decodeFrom, undecoded]
                rfl
              · obtain ⟨part, decoded, agrees⟩ := found
                cases occurrence with
                | unknown =>
                    obtain rfl := agrees.unknown
                    rw [decodeFrom, decoded]
                    exact (inductionHypothesis accepted).imp_left (.imp_left (.later decoded))
                | items field count =>
                    obtain ⟨elements, rfl, known, allowed, rfl, fits, flat⟩ := agrees.items
                    dsimp only at accepted
                    split at accepted
                    · cases accepted
                    · next later added =>
                        rw [decodeFrom, decoded]
                        rcases inductionHypothesis accepted with ⟨oversized, undecoded⟩ | read
                        · left
                          refine ⟨.later decoded oversized, ?_⟩
                          simp [undecoded]
                        · obtain ⟨others, decoded, within⟩ := read
                          refine .inr ⟨elements.map (field.number, ·) ++ others, ?_, ?_⟩
                          · simp [decoded]
                          · refine within.cons known allowed fits ?_ added
                            exact fun _ _ index _ ty _ => absurd ty (flat index)
                | message field nested data =>
                    obtain ⟨rfl, known, allowed, index, ty, found⟩ := agrees.message
                    dsimp only at accepted
                    split at accepted
                    · cases accepted
                    · next shallow =>
                        split at accepted
                        · next insideAccepted =>
                            split at accepted
                            · cases accepted
                            · next later added =>
                                rw [decodeFrom, decoded]
                                rcases inductionHypothesis insideAccepted with
                                  ⟨oversized, undecoded⟩ | insideRead
                                · left
                                  refine ⟨.inside decoded oversized, ?_⟩
                                  simp [undecoded]
                                · obtain ⟨inner, innerDecoded, innerWithin⟩ := insideRead
                                  rcases inductionHypothesis accepted with
                                    ⟨oversized, undecoded⟩ | read
                                  · left
                                    refine ⟨.later decoded oversized, ?_⟩
                                    simp [undecoded]
                                  · obtain ⟨others, othersDecoded, within⟩ := read
                                    refine .inr ⟨(field.number, .message inner) :: others, ?_, ?_⟩
                                    · simp [innerDecoded, othersDecoded]
                                    · exact within.message known allowed ty found
                                        (innerWithin.within (not_lt.1 shallow)) added
                        · next stopped =>
                            exact absurd accepted stopped

/-- The walk ends on every input.  The value of the bytes that it accepts is within the limits
of the schema; they have no value only where an integer among them is too large. -/
theorem checked_within (schema : Schema) (origin : Origin) (spec : MsgSpec) (bytes : Bytes) :
    (check schema origin spec bytes).isSome = true ∧
      (check schema origin spec bytes = some (.ok ()) ->
        (∃ value, decodeValue schema spec bytes = some value ∧
          Within schema origin 0 spec value) ∨
        (Oversized schema spec bytes ∧ decodeValue schema spec bytes = none)) := by
  refine ⟨check_isSome spec bytes, fun accepted => ?_⟩
  rcases walkFrom_sound accepted with oversized | ⟨value, decoded, within⟩
  · exact .inr oversized
  · exact .inl ⟨value, decoded, within.within (Nat.zero_le _)⟩

end

/-! ## The first message of a client -/

def clientInfoSpec : MsgSpec where
  name := "parvane.core.v2.ClientInfo"
  fields :=
    [{ number := 1, name := "kind", ty := .str, maxLen := 16 },
      { number := 2, name := "version", ty := .str, maxLen := 32 }]
  sorted := by decide

def helloSpec : MsgSpec where
  name := "parvane.core.v2.Hello"
  fields :=
    [{ number := 1, name := "proto_minor", ty := .varint },
      { number := 2, name := "features", ty := .str, repeated := true, maxLen := 64,
        maxItems := 64 },
      { number := 3, name := "client", ty := .message 0 },
      { number := 4, name := "channel", ty := .varint }]
  sorted := by decide

def helloSchema : Schema :=
  [clientInfoSpec, helloSpec]

/-- A message with a feature and a client has a value within the limits. -/
theorem checked_within_hello :
    ∃ value, decodeValue helloSchema helloSpec
        [0x08, 0x01, 0x12, 0x01, 0x78, 0x1a, 0x05, 0x0a, 0x03, 0x77, 0x65, 0x62] = some value ∧
      Within helloSchema .client 0 helloSpec value := by
  have decoded : decodeValue helloSchema helloSpec
      [0x08, 0x01, 0x12, 0x01, 0x78, 0x1a, 0x05, 0x0a, 0x03, 0x77, 0x65, 0x62] ≠ none := by
    rw [Option.ne_none_iff_isSome]
    decide +kernel
  exact ((checked_within helloSchema .client helloSpec _).2 (by decide +kernel)).resolve_right
    fun oversized => decoded oversized.2

/-- The number of a field may have 32 bits for the walk, but its key has 32 bits for the rules:
the walk passes over an unknown field in bytes that have no value. -/
theorem checked_without_value :
    check helloSchema .client helloSpec [0x80, 0x80, 0x80, 0x80, 0x10, 0x00] = some (.ok ()) ∧
      decodeValue helloSchema helloSpec [0x80, 0x80, 0x80, 0x80, 0x10, 0x00] = none :=
  ⟨by decide +kernel, by
    rw [← Option.isNone_iff_eq_none]
    decide +kernel⟩

end Parvane.Codec
