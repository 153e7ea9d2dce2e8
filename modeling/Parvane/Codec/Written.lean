import Parvane.Codec.Decoding

/-!
# Walking over written messages

The walk accepts the bytes that were written for a message when every field keeps its limits:
the bytes are taken apart again into the fields of the message, and what is demanded of each
known field depends only on the fields of its number.
-/

namespace Parvane.Codec

open Wire Limits

variable {schema : Schema} {origin : Origin}

/-! ## The number of steps -/

variable {spec : MsgSpec} {counts : Counts}

/-- More steps do not change what the walk finds. -/
theorem walkFrom_mono {steps more depth : Nat} {bytes : Bytes} {answer : Result Unit}
    (found : walkFrom schema origin steps depth spec counts bytes = some answer)
    (le : steps ≤ more) : walkFrom schema origin more depth spec counts bytes = some answer := by
  induction steps generalizing more depth spec counts bytes answer with
  | zero => cases found
  | succ steps inductionHypothesis =>
      obtain ⟨more, rfl⟩ : ∃ before, more = before + 1 := ⟨more - 1, by omega⟩
      have le : steps ≤ more := Nat.le_of_succ_le_succ le
      cases bytes with
      | nil => exact found
      | cons byte bytes =>
          rw [walkFrom] at found ⊢
          cases read : readOccurrence schema origin spec (byte :: bytes) with
          | error error =>
              rw [read] at found
              exact found
          | ok occurred =>
              obtain ⟨occurrence, rest⟩ := occurred
              rw [read] at found
              cases occurrence with
              | unknown => exact inductionHypothesis found le
              | items field count =>
                  dsimp only at found ⊢
                  cases added : add counts field count with
                  | error error =>
                      rw [added] at found
                      exact found
                  | ok later =>
                      rw [added] at found
                      exact inductionHypothesis found le
              | message field nested data =>
                  dsimp only at found ⊢
                  split at found
                  · next deep => rw [if_pos deep, ← found]
                  · next shallow =>
                      rw [if_neg shallow]
                      cases inner : walkFrom schema origin steps (depth + 1) nested
                          (fun _ => 0) data with
                      | none =>
                          rw [inner] at found
                          cases found
                      | some answer =>
                          rw [inner] at found
                          rw [inductionHypothesis inner le]
                          cases answer with
                          | error error => exact found
                          | ok =>
                              dsimp only at found ⊢
                              cases added : add counts field 1 with
                              | error error =>
                                  rw [added] at found
                                  exact found
                              | ok later =>
                                  rw [added] at found
                                  exact inductionHypothesis found le

theorem walkFrom_eq_of_length_lt {steps more depth : Nat} {bytes : Bytes}
    (enough : bytes.length < steps) (alsoEnough : bytes.length < more) :
    walkFrom schema origin steps depth spec counts bytes =
      walkFrom schema origin more depth spec counts bytes := by
  obtain ⟨answer, found⟩ := Option.isSome_iff_exists.1
    (walkFrom_isSome schema origin depth spec counts (Nat.lt_succ_self bytes.length))
  rw [walkFrom_mono found enough, walkFrom_mono found alsoEnough]

section

variable (schema origin)

/-- The walk accepts bytes at some depth. -/
def Accepts (depth : Nat) (spec : MsgSpec) (bytes : Bytes) : Prop :=
  walkFrom schema origin (bytes.length + 1) depth spec (fun _ => 0) bytes = some (.ok ())

/-! ## What is demanded of a field -/

/-- The payload of a known field that is not a message is written as the field says and keeps
its limits. -/
def Plain (known : FieldSpec) (payload : Payload) : Prop :=
  match known.ty, payload with
  | .varint, .varint _ => True
  | .fixed64, .fixed64 _ => True
  | .varint, .delimited data =>
      known.repeated = true ∧ ∀ byte ∈ data.getLast?, byte.toNat < 128
  | .fixed64, .delimited data => known.repeated = true ∧ data.length % 8 = 0
  | .fixed32, .delimited data => known.repeated = true ∧ data.length % 4 = 0
  | .str, .delimited data => data.length ≤ known.maxLen.toNat ∧ isUtf8 data = true
  | .bytes, .delimited data => data.length ≤ known.maxLen.toNat
  | _, _ => False

/-- The payload of a known field keeps its limits, and a message in it keeps its own. -/
def Keeps (depth : Nat) (known : FieldSpec) (payload : Payload) : Prop :=
  match known.ty, payload with
  | .message index, .delimited data =>
      ∃ nested, schema[index]? = some nested ∧ depth + 1 ≤ maxDepth ∧
        Accepts schema origin (depth + 1) nested data
  | _, _ => Plain known payload

variable {schema origin} in
theorem keeps_iff {depth : Nat} {known : FieldSpec} {payload : Payload} :
    Keeps schema origin depth known payload ↔
      Plain known payload ∨
        ∃ index data nested, known.ty = .message index ∧ payload = .delimited data ∧
          schema[index]? = some nested ∧ depth + 1 ≤ maxDepth ∧
            Accepts schema origin (depth + 1) nested data := by
  cases ty : known.ty <;> cases payload <;> simp [Keeps, Plain, ty]

/-- A client does not write the fields of the server. -/
def Allowed (known : FieldSpec) : Prop :=
  origin = .client -> known.serverSet = false

/-- The number of items in a payload. -/
def itemCount (known : FieldSpec) (payload : Payload) : Nat :=
  match known.ty, payload with
  | .varint, .delimited data => countEnds data
  | .fixed64, .delimited data => data.length / 8
  | .fixed32, .delimited data => data.length / 4
  | _, _ => 1

theorem itemCount_of_message {known : FieldSpec} {index : Nat}
    (ty : known.ty = .message index)
    (payload : Payload) : itemCount known payload = 1 := by
  simp [itemCount, ty]

/-- All fields of one number together keep the limits, where some items have been seen. -/
def FieldOk (depth seen : Nat) (known : FieldSpec) (group : List Field) : Prop :=
  (∀ field ∈ group, Allowed origin known ∧ Keeps schema origin depth known field.payload) ∧
    seen + (group.map fun field => itemCount known field.payload).sum ≤ limit known

end

/-- The number of a field fits into a key, and an integer into 64 bits. -/
def Proper (field : Field) : Prop :=
  0 < field.number ∧ field.number < 2 ^ 29 ∧ ∀ value, field.payload = .varint value -> value < 2 ^ 64

/-! ## Reading a written field -/

theorem varint_encodeVarint {value : Nat}
    (small : value < 2 ^ 64)
    (rest : Bytes) : varint (encodeVarint value ++ rest) = .ok (value, rest) :=
  varint_eq_ok.2 (decodeVarint64_encodeVarint small rest)

theorem take_length_append (data rest : Bytes) : take data.length (data ++ rest) = .ok (data, rest) := by
  rw [take_eq_ok]
  simp

theorem lenDelimited_written {data : Bytes}
    (small : data.length < 2 ^ 64) (rest : Bytes) :
    lenDelimited (encodeVarint data.length ++ (data ++ rest)) = .ok (data, rest) := by
  rw [lenDelimited, varint_encodeVarint small]
  exact take_length_append data rest

theorem countPackedVarints_eq_ok_iff {data : Bytes} {count : Nat} :
    countPackedVarints data = .ok count ↔
      (∀ byte ∈ data.getLast?, byte.toNat < 128) ∧ countEnds data = count := by
  refine ⟨countPackedVarints_eq_ok, fun ⟨ended, ends⟩ => ?_⟩
  rw [countPackedVarints, if_neg]
  · exact congrArg Except.ok ends
  · cases last : data.getLast? with
    | none => simp
    | some byte => simpa using ended byte last

/-- The payload has the size of a payload that can be written. -/
def Payload.Small : Payload -> Prop
  | .varint value => value < 2 ^ 64
  | .fixed64 _ => True
  | .delimited data => data.length < 2 ^ 64

/-- What the walk finds in a payload that a known field carries. -/
def Occurs (schema : Schema) (known : FieldSpec) (payload : Payload) : Occurrence -> Prop
  | .unknown => False
  | .items field count =>
      Plain known payload ∧ known = field ∧ itemCount known payload = count
  | .message field nested data =>
      ∃ index, known.ty = .message index ∧ schema[index]? = some nested ∧ known = field ∧
        payload = .delimited data

variable {known : FieldSpec}

theorem readField_eq_ok_iff {payload : Payload} {rest unread : Bytes} {occurrence : Occurrence}
    (small : Payload.Small payload) :
    readField schema known payload.wireType (payload.encode ++ rest) = .ok (occurrence, unread) ↔
      Occurs schema known payload occurrence ∧ rest = unread := by
  cases payload with
  | varint value =>
      have read := varint_encodeVarint small rest
      cases ty : known.ty <;> cases occurrence <;>
        simp [readField, Occurs, Plain, itemCount, Payload.wireType, Payload.encode, ty, read,
          bind, Except.bind, pure, Except.pure, and_assoc]
  | fixed64 bits =>
      have read : take 8 (littleEndian 8 bits.toNat ++ rest) =
          .ok (littleEndian 8 bits.toNat, rest) := by
        have taken := take_length_append (littleEndian 8 bits.toNat) rest
        rwa [littleEndian_length] at taken
      cases ty : known.ty <;> cases occurrence <;>
        simp [readField, Occurs, Plain, itemCount, Payload.wireType, Payload.encode, ty, read,
          bind, Except.bind, pure, Except.pure, and_assoc]
  | delimited data =>
      have read := lenDelimited_written small rest
      cases ty : known.ty <;> cases occurrence <;>
        simp [readField, Occurs, Plain, itemCount, Payload.wireType, Payload.encode, ty, read,
          bind_eq_ok, require_eq_ok, present_eq_ok, countPackedVarints_eq_ok_iff, pure,
          Except.pure, and_assoc]

/-! ## Walking over a written field -/

variable {field : Field}

variable (schema origin) in
theorem readOccurrence_encodeField
    (spec : MsgSpec) (proper : Proper field) (rest : Bytes) :
    readOccurrence schema origin spec (encodeField field ++ rest) =
      (match spec.field (UInt32.ofNat field.number) with
      | none => do
          let rest ← skipUnknown field.payload.wireType (field.payload.encode ++ rest)
          return (.unknown, rest)
      | some known => do
          require (!(origin == .client && known.serverSet)) (.serverSetField known.name)
          readField schema known field.payload.wireType (field.payload.encode ++ rest)) := by
  obtain ⟨positive, small, -⟩ := proper
  have wireType_lt : field.payload.wireType < 8 := by
    cases field.payload <;> simp [Payload.wireType]
  have number : (8 * field.number + field.payload.wireType) / 8 = field.number := by omega
  have wire : (8 * field.number + field.payload.wireType) % 8 = field.payload.wireType := by omega
  have nonzero : (UInt32.ofNat field.number != 0) = true := by
    rw [bne_iff_ne, ne_eq, ← UInt32.toNat_inj, UInt32.toNat_ofNat_of_lt']
    · exact positive.ne'
    · exact small.trans (by decide)
  rw [encodeField, List.append_assoc, readOccurrence, varint_encodeVarint (by omega)]
  have inside : field.number < 4294967296 := small.trans (by decide)
  cases known : spec.field (UInt32.ofNat field.number) <;>
    simp [bind, Except.bind, number, wire, require, nonzero, inside, known]

theorem skipUnknown_written {payload : Payload}
    (small : Payload.Small payload) (rest : Bytes) :
    skipUnknown payload.wireType (payload.encode ++ rest) = .ok rest := by
  cases payload with
  | varint value =>
      simp [skipUnknown, Payload.wireType, Payload.encode, varint_encodeVarint small, Except.map]
  | fixed64 bits =>
      have taken := take_length_append (littleEndian 8 bits.toNat) rest
      rw [littleEndian_length] at taken
      simp [skipUnknown, Payload.wireType, Payload.encode, taken, Except.map]
  | delimited data =>
      simp [skipUnknown, Payload.wireType, Payload.encode, lenDelimited_written small, Except.map]

theorem walkFrom_unknown {steps depth : Nat}
    (proper : Proper field) (small : Payload.Small field.payload)
    (unknown : spec.field (UInt32.ofNat field.number) = none)
    (rest : Bytes) :
    walkFrom schema origin (steps + 1) depth spec counts (encodeField field ++ rest) =
      walkFrom schema origin steps depth spec counts rest := by
  obtain ⟨byte, bytes, written⟩ := List.exists_cons_of_ne_nil
    (List.append_ne_nil_of_left_ne_nil (encodeField_ne_nil field) rest)
  have read := readOccurrence_encodeField schema origin spec proper rest
  rw [unknown, skipUnknown_written small] at read
  rw [written] at read ⊢
  rw [walkFrom, read]
  rfl

theorem length_lt_encodeField {data : Bytes}
    (payload : field.payload = .delimited data) : data.length < (encodeField field).length := by
  have nonempty := List.length_pos_of_ne_nil
    (encodeVarint_ne_nil (8 * field.number + field.payload.wireType))
  rw [encodeField, List.length_append, payload, Payload.encode, List.length_append]
  rw [payload] at nonempty
  omega

theorem walkFrom_known {steps depth : Nat}
    (proper : Proper field) (small : Payload.Small field.payload)
    (found : spec.field (UInt32.ofNat field.number) = some known)
    (enough : (encodeField field).length ≤ steps)
    (rest : Bytes) :
    walkFrom schema origin (steps + 1) depth spec counts (encodeField field ++ rest) =
        some (.ok ()) ↔
      Allowed origin known ∧ Keeps schema origin depth known field.payload ∧
        ∃ later, add counts known (itemCount known field.payload) = .ok later ∧
          walkFrom schema origin steps depth spec later rest = some (.ok ()) := by
  have allowed : (!(origin == .client && known.serverSet)) = true ↔ Allowed origin known := by
    cases origin <;> simp [Allowed]
  have read := readOccurrence_encodeField schema origin spec proper rest
  rw [found] at read
  rw [walkFrom_cons_eq_ok (List.append_ne_nil_of_left_ne_nil (encodeField_ne_nil field) rest), read]
  simp only [bind_eq_ok, require_eq_ok, allowed, readField_eq_ok_iff small]
  constructor
  · rintro ⟨occurrence, _, ⟨_, allowed, occurs, rfl⟩, continues⟩
    cases occurrence with
    | unknown => exact occurs.elim
    | items other count =>
        obtain ⟨plain, rfl, rfl⟩ := occurs
        exact ⟨allowed, keeps_iff.2 (.inl plain), continues⟩
    | message other nested data =>
        obtain ⟨index, ty, entry, rfl, payload⟩ := occurs
        obtain ⟨shallow, inner, added⟩ := continues
        have inside : data.length < steps := (length_lt_encodeField payload).trans_le enough
        rw [walkFrom_eq_of_length_lt inside (Nat.lt_succ_self _)] at inner
        rw [itemCount_of_message ty]
        exact ⟨allowed, keeps_iff.2 (.inr ⟨index, data, nested, ty, payload, entry, shallow, inner⟩),
          added⟩
  · rintro ⟨allowed, keeps, added⟩
    rcases keeps_iff.1 keeps with plain | message
    · exact ⟨.items known _, rest, ⟨(), allowed, ⟨plain, rfl, rfl⟩, rfl⟩, added⟩
    · obtain ⟨index, data, nested, ty, payload, entry, shallow, inner⟩ := message
      have inside : data.length < steps := (length_lt_encodeField payload).trans_le enough
      rw [Accepts, ← walkFrom_eq_of_length_lt inside (Nat.lt_succ_self _)] at inner
      rw [itemCount_of_message ty] at added
      exact ⟨.message known nested data, rest,
        ⟨(), allowed, ⟨index, ty, entry, rfl, payload⟩, rfl⟩, shallow, inner, added⟩

/-! ## Walking over a written message -/

theorem select_cons (number : Nat) (field : Field) (fields : List Field) :
    select number (field :: fields) =
      if field.number = number then field :: select number fields else select number fields := by
  simp [select, List.filter_cons]

theorem fieldOk_nil {depth seen : Nat} {known : FieldSpec} :
    FieldOk schema origin depth seen known [] ↔ seen ≤ limit known := by
  simp [FieldOk]

theorem fieldOk_cons {depth seen : Nat} {group : List Field} :
    FieldOk schema origin depth seen known (field :: group) ↔
      Allowed origin known ∧ Keeps schema origin depth known field.payload ∧
        FieldOk schema origin depth (seen + itemCount known field.payload) known group := by
  simp only [FieldOk, List.forall_mem_cons, List.map_cons, List.sum_cons, Nat.add_assoc, and_assoc]

theorem FieldOk.seen_le {depth seen : Nat} {group : List Field}
    (fine : FieldOk schema origin depth seen known group) : seen ≤ limit known :=
  (Nat.le_add_right _ _).trans fine.2

/-- The fields of each number by themselves decide whether the walk accepts. -/
theorem walkFrom_encodeFields {steps depth : Nat} {fields : List Field}
    (proper : ∀ field ∈ fields, Proper field)
    (small : ∀ field ∈ fields, Payload.Small field.payload)
    (enough : (encodeFields fields).length < steps)
    (below : ∀ known ∈ spec.fields, counts known.number ≤ limit known) :
    walkFrom schema origin steps depth spec counts (encodeFields fields) = some (.ok ()) ↔
      ∀ known ∈ spec.fields,
        FieldOk schema origin depth (counts known.number) known
          (select known.number.toNat fields) := by
  induction fields generalizing steps counts with
  | nil =>
      obtain ⟨steps, rfl⟩ : ∃ before, steps = before + 1 := ⟨steps - 1, by omega⟩
      refine iff_of_true rfl fun known member => ?_
      rw [select_nil, fieldOk_nil]
      exact below known member
  | cons field fields inductionHypothesis =>
      obtain ⟨steps, rfl⟩ : ∃ before, steps = before + 1 := ⟨steps - 1, by omega⟩
      obtain ⟨fieldProper, proper⟩ := List.forall_mem_cons.1 proper
      obtain ⟨fieldSmall, small⟩ := List.forall_mem_cons.1 small
      have written : encodeFields (field :: fields) = encodeField field ++ encodeFields fields :=
        List.flatMap_cons
      have positive := List.length_pos_of_ne_nil (encodeField_ne_nil field)
      rw [written, List.length_append] at enough
      have number : (UInt32.ofNat field.number).toNat = field.number :=
        UInt32.toNat_ofNat_of_lt' (fieldProper.2.1.trans (by decide))
      rw [written]
      cases found : spec.field (UInt32.ofNat field.number) with
      | none =>
          rw [walkFrom_unknown fieldProper fieldSmall found,
            inductionHypothesis proper small (by omega) below]
          refine forall₂_congr fun known member => ?_
          rw [select_cons, if_neg]
          intro same
          rw [MsgSpec.field, List.find?_eq_none] at found
          refine found known member (beq_iff_eq.2 ?_)
          rw [same, UInt32.ofNat_toNat]
      | some known =>
          have member : known ∈ spec.fields := List.mem_of_find?_eq_some found
          have same : known.number = UInt32.ofNat field.number := by
            rw [MsgSpec.field] at found
            have equal := List.find?_some found
            exact beq_iff_eq.1 equal
          have toNat : field.number = known.number.toNat := by rw [same, number]
          have here : FieldOk schema origin depth (counts known.number) known
                (select known.number.toNat (field :: fields)) ↔
              Allowed origin known ∧ Keeps schema origin depth known field.payload ∧
                FieldOk schema origin depth (counts known.number + itemCount known field.payload)
                  known (select known.number.toNat fields) := by
            rw [select_cons, if_pos toNat, fieldOk_cons]
          have elsewhere {other : FieldSpec} (otherMember : other ∈ spec.fields)
              (different : other ≠ known) :
              other.number ≠ known.number ∧
                select other.number.toNat (field :: fields) = select other.number.toNat fields := by
            have apart : other.number ≠ known.number :=
              fun equal => different (field_eq_of_number otherMember member equal)
            refine ⟨apart, ?_⟩
            rw [select_cons, if_neg]
            rw [toNat, UInt32.toNat_inj]
            exact Ne.symm apart
          have belowLater (le : counts known.number + itemCount known field.payload ≤ limit known) :
              ∀ other ∈ spec.fields, Function.update counts known.number
                (counts known.number + itemCount known field.payload) other.number ≤
                  limit other := by
            intro other otherMember
            by_cases equal : other = known
            · rw [equal, Function.update_self]
              exact le
            · rw [Function.update_of_ne (elsewhere otherMember equal).1]
              exact below other otherMember
          rw [walkFrom_known fieldProper fieldSmall found (by omega)]
          constructor
          · rintro ⟨allowed, keeps, later, added, accepted⟩ other otherMember
            obtain ⟨le, rfl⟩ := add_eq_ok.1 added
            have rest := (inductionHypothesis proper small (by omega) (belowLater le)).1 accepted
              other otherMember
            by_cases equal : other = known
            · subst equal
              rw [Function.update_self] at rest
              exact here.2 ⟨allowed, keeps, rest⟩
            · obtain ⟨apart, selected⟩ := elsewhere otherMember equal
              rw [Function.update_of_ne apart] at rest
              rw [selected]
              exact rest
          · intro fine
            obtain ⟨allowed, keeps, rest⟩ := here.1 (fine known member)
            refine ⟨allowed, keeps, _, add_eq_ok.2 ⟨rest.seen_le, rfl⟩, ?_⟩
            refine (inductionHypothesis proper small (by omega) (belowLater rest.seen_le)).2 ?_
            intro other otherMember
            by_cases equal : other = known
            · subst equal
              rw [Function.update_self]
              exact rest
            · obtain ⟨apart, selected⟩ := elsewhere otherMember equal
              rw [Function.update_of_ne apart, ← selected]
              exact fine other otherMember

theorem length_le_of_mem {fields : List Field}
    (member : field ∈ fields) : (encodeField field).length ≤ (encodeFields fields).length := by
  rw [encodeFields, List.flatMap_def]
  exact (List.sublist_flatten_of_mem (List.mem_map_of_mem member)).length_le

theorem small_of_proper
    (proper : Proper field)
    (short : (encodeField field).length < 2 ^ 64) : Payload.Small field.payload := by
  cases payload : field.payload with
  | varint value => exact proper.2.2 value payload
  | fixed64 bits => trivial
  | delimited data => exact (length_lt_encodeField payload).trans short

/-- The walk accepts written fields exactly when those of each number keep the limits. -/
theorem accepts_encodeFields {depth : Nat} {fields : List Field}
    (proper : ∀ field ∈ fields, Proper field)
    (short : (encodeFields fields).length < 2 ^ 64) :
    Accepts schema origin depth spec (encodeFields fields) ↔
      ∀ known ∈ spec.fields,
        FieldOk schema origin depth 0 known (select known.number.toNat fields) :=
  walkFrom_encodeFields proper
    (fun field member => small_of_proper (proper field member)
      ((length_le_of_mem member).trans_lt short))
    (Nat.lt_succ_self _) (fun _ _ => Nat.zero_le _)

end Parvane.Codec
