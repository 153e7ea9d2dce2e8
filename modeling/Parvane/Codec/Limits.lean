import Parvane.Core

/-!
# Limits of untrusted bytes

Before the bytes of a message are decoded they are walked over once, along a table of the
schema: lengths of strings and byte strings, numbers of items, the depth of nesting, fields
that only a server sets.  The walk reads the wire format itself and builds no value.
-/

namespace Parvane.Codec.Limits

open Wire

def maxDepth : Nat := 32

/-- Where the bytes come from; a client may not set the fields of the server. -/
inductive Origin
  | client
  | server
  deriving DecidableEq

/-! ## The table of the schema -/

/-- How a field is written. -/
inductive FieldTy
  | varint
  | fixed64
  | fixed32
  | str
  | bytes
  /-- A nested message, by its index in the table. -/
  | message (index : Nat)
  deriving DecidableEq

structure FieldSpec where
  number : UInt32
  name : String
  ty : FieldTy
  repeated : Bool := false
  maxLen : UInt32 := 0
  maxItems : UInt32 := 0
  serverSet : Bool := false
  deriving DecidableEq

/-- A message of the schema; its fields are sorted by number. -/
structure MsgSpec where
  name : String
  fields : List FieldSpec
  sorted : fields.Pairwise fun first second => first.number < second.number

abbrev Schema := List MsgSpec

/-- The field of a number, which a binary search finds. -/
def MsgSpec.field (spec : MsgSpec) (number : UInt32) : Option FieldSpec :=
  spec.fields.find? fun field => field.number == number

/-! ## Reading -/

/-- Read an integer.  The first argument is how many bytes may follow the next one. -/
def varintFrom : Nat -> Bytes -> Result (Nat × Bytes)
  | _, [] => .error .malformed
  | 0, byte :: rest => if 1 < byte.toNat then .error .malformed else .ok (byte.toNat, rest)
  | left + 1, byte :: rest =>
      if byte.toNat < 128 then .ok (byte.toNat, rest)
      else (varintFrom left rest).map fun (high, unread) =>
        (byte.toNat - 128 + 128 * high, unread)

/-- An integer has ten bytes at most. -/
def varint (bytes : Bytes) : Result (Nat × Bytes) :=
  varintFrom 9 bytes

def take (count : Nat) (bytes : Bytes) : Result (Bytes × Bytes) :=
  if count ≤ bytes.length then .ok (bytes.take count, bytes.drop count) else .error .malformed

def lenDelimited (bytes : Bytes) : Result (Bytes × Bytes) := do
  let (length, rest) ← varint bytes
  take length rest

/-- The number of integers in a packed field. -/
def countPackedVarints (data : Bytes) : Result Nat :=
  if data.getLast?.any fun byte => 128 ≤ byte.toNat then .error .malformed
  else .ok (data.filter fun byte => byte.toNat < 128).length

def isUtf8 (data : Bytes) : Bool :=
  (String.fromUTF8? ⟨data.toArray⟩).isSome

/-- Pass over a field that is not in the table. -/
def skipUnknown (wire : Nat) (bytes : Bytes) : Result Bytes :=
  match wire with
  | 0 => (varint bytes).map Prod.snd
  | 1 => (take 8 bytes).map Prod.snd
  | 2 => (lenDelimited bytes).map Prod.snd
  | 5 => (take 4 bytes).map Prod.snd
  | _ => .error .malformed

/-- What stands next in the bytes of a message. -/
inductive Occurrence
  | unknown
  | items (field : FieldSpec) (count : Nat)
  | message (field : FieldSpec) (nested : MsgSpec) (data : Bytes)

variable (schema : Schema) (origin : Origin)

/-- Read a field of the table after its key. -/
def readField (field : FieldSpec) (wire : Nat) (bytes : Bytes) : Result (Occurrence × Bytes) :=
  match field.ty, wire with
  | .varint, 0 => do
      let (_, rest) ← varint bytes
      return (.items field 1, rest)
  | .fixed64, 1 => do
      let (_, rest) ← take 8 bytes
      return (.items field 1, rest)
  | .fixed32, 5 => do
      let (_, rest) ← take 4 bytes
      return (.items field 1, rest)
  | .varint, 2 => do
      require field.repeated .malformed
      let (data, rest) ← lenDelimited bytes
      let count ← countPackedVarints data
      return (.items field count, rest)
  | .fixed64, 2 => do
      require field.repeated .malformed
      let (data, rest) ← lenDelimited bytes
      require (data.length % 8 == 0) .malformed
      return (.items field (data.length / 8), rest)
  | .fixed32, 2 => do
      require field.repeated .malformed
      let (data, rest) ← lenDelimited bytes
      require (data.length % 4 == 0) .malformed
      return (.items field (data.length / 4), rest)
  | .str, 2 => do
      let (data, rest) ← lenDelimited bytes
      require (data.length ≤ field.maxLen.toNat) (.fieldLimit field.name)
      require (isUtf8 data) (.invalidField field.name)
      return (.items field 1, rest)
  | .bytes, 2 => do
      let (data, rest) ← lenDelimited bytes
      require (data.length ≤ field.maxLen.toNat) (.fieldLimit field.name)
      return (.items field 1, rest)
  | .message index, 2 => do
      let (data, rest) ← lenDelimited bytes
      let nested ← present schema[index]? .malformed
      return (.message field nested data, rest)
  | _, _ => .error .malformed

/-- Read a key and what belongs to it. -/
def readOccurrence (spec : MsgSpec) (bytes : Bytes) : Result (Occurrence × Bytes) := do
  let (key, rest) ← varint bytes
  require (key / 8 < 2 ^ 32) .malformed
  let number := UInt32.ofNat (key / 8)
  require (number != 0) .malformed
  match spec.field number with
  | none => do
      let rest ← skipUnknown (key % 8) rest
      return (.unknown, rest)
  | some field => do
      require (!(origin == .client && field.serverSet)) (.serverSetField field.name)
      readField schema field (key % 8) rest

/-! ## The walk -/

/-- How many items of every field have been seen. -/
abbrev Counts := UInt32 -> Nat

/-- Count items of a field, of which there may be only so many. -/
def add (counts : Counts) (field : FieldSpec) (count : Nat) : Result Counts := do
  let seen := min (counts field.number + count) (2 ^ 64 - 1)
  if field.repeated then
    require (seen ≤ field.maxItems.toNat) (.fieldLimit field.name)
  else
    require (seen ≤ 1) (.duplicateField field.name)
  return Function.update counts field.number seen

/-- Walk over a message that stands at some depth.  The first argument bounds the number of
steps; without a result the steps were not enough. -/
def walkFrom : Nat -> Nat -> MsgSpec -> Counts -> Bytes -> Option (Result Unit)
  | 0, _, _, _, _ => none
  | _ + 1, _, _, _, [] => some (.ok ())
  | steps + 1, depth, spec, counts, byte :: bytes =>
      match readOccurrence schema origin spec (byte :: bytes) with
      | .error error => some (.error error)
      | .ok (.unknown, rest) => walkFrom steps depth spec counts rest
      | .ok (.items field count, rest) =>
          match add counts field count with
          | .error error => some (.error error)
          | .ok counts => walkFrom steps depth spec counts rest
      | .ok (.message field nested data, rest) =>
          if maxDepth < depth + 1 then some (.error .tooDeep)
          else
            match walkFrom steps (depth + 1) nested (fun _ => 0) data with
            | some (.ok ()) =>
                match add counts field 1 with
                | .error error => some (.error error)
                | .ok counts => walkFrom steps depth spec counts rest
            | stopped => stopped

/-- Check the bytes of a message. -/
def check (spec : MsgSpec) (bytes : Bytes) : Option (Result Unit) :=
  walkFrom schema origin (bytes.length + 1) 0 spec (fun _ => 0) bytes

/-- The walk accepts what was read and then the rest. -/
def Continues (steps depth : Nat) (spec : MsgSpec) (counts : Counts) (rest : Bytes) :
    Occurrence -> Prop
  | .unknown => walkFrom schema origin steps depth spec counts rest = some (.ok ())
  | .items field count =>
      ∃ later, add counts field count = .ok later ∧
        walkFrom schema origin steps depth spec later rest = some (.ok ())
  | .message field nested data =>
      depth + 1 ≤ maxDepth ∧
        walkFrom schema origin steps (depth + 1) nested (fun _ => 0) data = some (.ok ()) ∧
          ∃ later, add counts field 1 = .ok later ∧
            walkFrom schema origin steps depth spec later rest = some (.ok ())

variable {schema origin} in
/-- The walk accepts bytes when it can read what stands next and goes on. -/
theorem walkFrom_cons_eq_ok {steps depth : Nat} {spec : MsgSpec} {counts : Counts} {bytes : Bytes}
    (nonempty : bytes ≠ []) :
    walkFrom schema origin (steps + 1) depth spec counts bytes = some (.ok ()) ↔
      ∃ occurrence rest, readOccurrence schema origin spec bytes = .ok (occurrence, rest) ∧
        Continues schema origin steps depth spec counts rest occurrence := by
  obtain ⟨byte, bytes, rfl⟩ := List.exists_cons_of_ne_nil nonempty
  rw [walkFrom]
  cases read : readOccurrence schema origin spec (byte :: bytes) with
  | error error => simp
  | ok found =>
      obtain ⟨occurrence, rest⟩ := found
      simp only [Except.ok.injEq, Prod.mk.injEq, ↓existsAndEq, true_and, and_true]
      cases occurrence with
      | unknown => rfl
      | items field count =>
          simp only [Continues]
          cases add counts field count <;> simp
      | message field nested data =>
          simp only [Continues]
          split
          · next deep => simp [not_le.2 deep]
          · next shallow =>
              rw [and_iff_right (not_lt.1 shallow)]
              split
              · next accepted =>
                  rw [and_iff_right accepted]
                  cases add counts field 1 <;> simp
              · next stopped => exact iff_of_false stopped fun both => stopped both.1

/-! ## What the readers leave unread -/

theorem length_lt_of_varintFrom {left : Nat} {bytes rest : Bytes} {value : Nat}
    (read : varintFrom left bytes = .ok (value, rest)) : rest.length < bytes.length := by
  induction left generalizing bytes value with
  | zero =>
      cases bytes with
      | nil => cases read
      | cons byte bytes =>
          rw [varintFrom] at read
          split at read
          · cases read
          · cases read
            simp
  | succ left inductionHypothesis =>
      cases bytes with
      | nil => cases read
      | cons byte bytes =>
          rw [varintFrom] at read
          split at read
          · cases read
            simp
          · cases tailRead : varintFrom left bytes with
            | error error =>
                rw [tailRead] at read
                cases read
            | ok found =>
                rw [tailRead] at read
                cases read
                have shorter := inductionHypothesis tailRead
                simp only [List.length_cons]
                omega

theorem length_lt_of_varint {bytes rest : Bytes} {value : Nat}
    (read : varint bytes = .ok (value, rest)) : rest.length < bytes.length :=
  length_lt_of_varintFrom read

theorem take_eq_ok {count : Nat} {bytes data rest : Bytes} :
    take count bytes = .ok (data, rest) ↔
      count ≤ bytes.length ∧ data = bytes.take count ∧ rest = bytes.drop count := by
  unfold take
  split
  · next fits => simp [fits, eq_comm]
  · next short => simp [short]

theorem length_le_of_take {count : Nat} {bytes data rest : Bytes}
    (taken : take count bytes = .ok (data, rest)) :
    data.length ≤ bytes.length ∧ rest.length ≤ bytes.length := by
  obtain ⟨-, rfl, rfl⟩ := take_eq_ok.1 taken
  rw [List.length_take, List.length_drop]
  omega

theorem length_le_of_lenDelimited {bytes data rest : Bytes}
    (read : lenDelimited bytes = .ok (data, rest)) :
    data.length ≤ bytes.length ∧ rest.length ≤ bytes.length := by
  simp only [lenDelimited, bind_eq_ok, Prod.exists] at read
  obtain ⟨length, unread, lengthRead, taken⟩ := read
  have shorter := length_lt_of_varint lengthRead
  have within := length_le_of_take taken
  omega

theorem length_le_of_skipUnknown {wire : Nat} {bytes rest : Bytes}
    (skipped : skipUnknown wire bytes = .ok rest) : rest.length ≤ bytes.length := by
  have ofMap {α : Type} {read : Result (α × Bytes)} (mapped : read.map Prod.snd = .ok rest) :
      ∃ value, read = .ok (value, rest) := by
    cases read with
    | error error => cases mapped
    | ok found =>
        cases mapped
        exact ⟨found.1, rfl⟩
  unfold skipUnknown at skipped
  split at skipped
  · obtain ⟨value, read⟩ := ofMap skipped
    exact (length_lt_of_varint read).le
  · obtain ⟨data, read⟩ := ofMap skipped
    exact (length_le_of_take read).2
  · obtain ⟨data, read⟩ := ofMap skipped
    exact (length_le_of_lenDelimited read).2
  · obtain ⟨data, read⟩ := ofMap skipped
    exact (length_le_of_take read).2
  · cases skipped

/-- The bytes of a nested message, if one was read. -/
def Occurrence.data : Occurrence -> Bytes
  | .message _ _ data => data
  | _ => []

variable {schema origin}

theorem length_le_of_readField
    {field : FieldSpec} {wire : Nat} {bytes rest : Bytes} {occurrence : Occurrence}
    (read : readField schema field wire bytes = .ok (occurrence, rest)) :
    occurrence.data.length ≤ bytes.length ∧ rest.length ≤ bytes.length := by
  unfold readField at read
  split at read
  all_goals
    simp only [bind_eq_ok, require_eq_ok, present_eq_ok, Prod.exists, pure, Except.pure,
      Except.ok.injEq, Prod.mk.injEq, reduceCtorEq] at read
  · obtain ⟨_, unread, read, rfl, rfl⟩ := read
    exact ⟨Nat.zero_le _, (length_lt_of_varint read).le⟩
  · obtain ⟨_, unread, read, rfl, rfl⟩ := read
    exact ⟨Nat.zero_le _, (length_le_of_take read).2⟩
  · obtain ⟨_, unread, read, rfl, rfl⟩ := read
    exact ⟨Nat.zero_le _, (length_le_of_take read).2⟩
  · obtain ⟨_, _, _, unread, read, _, _, rfl, rfl⟩ := read
    exact ⟨Nat.zero_le _, (length_le_of_lenDelimited read).2⟩
  · obtain ⟨_, _, _, unread, read, _, _, rfl, rfl⟩ := read
    exact ⟨Nat.zero_le _, (length_le_of_lenDelimited read).2⟩
  · obtain ⟨_, _, _, unread, read, _, _, rfl, rfl⟩ := read
    exact ⟨Nat.zero_le _, (length_le_of_lenDelimited read).2⟩
  · obtain ⟨_, unread, read, _, _, _, _, rfl, rfl⟩ := read
    exact ⟨Nat.zero_le _, (length_le_of_lenDelimited read).2⟩
  · obtain ⟨_, unread, read, _, _, rfl, rfl⟩ := read
    exact ⟨Nat.zero_le _, (length_le_of_lenDelimited read).2⟩
  · obtain ⟨data, unread, read, nested, _, rfl, rfl⟩ := read
    exact length_le_of_lenDelimited read

/-- Everything that is read takes a byte at least. -/
theorem length_lt_of_readOccurrence {spec : MsgSpec} {bytes rest : Bytes} {occurrence : Occurrence}
    (read : readOccurrence schema origin spec bytes = .ok (occurrence, rest)) :
    occurrence.data.length < bytes.length ∧ rest.length < bytes.length := by
  simp only [readOccurrence, bind_eq_ok, Prod.exists] at read
  obtain ⟨key, unread, keyRead, _, -, _, -, read⟩ := read
  have shorter := length_lt_of_varint keyRead
  split at read
  · simp only [bind_eq_ok, pure, Except.pure, Except.ok.injEq, Prod.mk.injEq] at read
    obtain ⟨_, skipped, rfl, rfl⟩ := read
    have le := length_le_of_skipUnknown skipped
    simp only [Occurrence.data, List.length_nil]
    omega
  · simp only [bind_eq_ok] at read
    obtain ⟨_, -, read⟩ := read
    have le := length_le_of_readField read
    omega

/-- The walk ends on every input: one step for each byte and one at the end are enough. -/
theorem walkFrom_isSome
    (schema : Schema) (origin : Origin) {steps : Nat} (depth : Nat) (spec : MsgSpec)
    (counts : Counts) {bytes : Bytes} (enough : bytes.length < steps) :
    (walkFrom schema origin steps depth spec counts bytes).isSome = true := by
  induction steps generalizing depth spec counts bytes with
  | zero => omega
  | succ steps inductionHypothesis =>
      cases bytes with
      | nil => rfl
      | cons byte bytes =>
          rw [walkFrom]
          cases read : readOccurrence schema origin spec (byte :: bytes) with
          | error error => rfl
          | ok found =>
              obtain ⟨occurrence, rest⟩ := found
              have shorter := length_lt_of_readOccurrence read
              cases occurrence with
              | unknown => exact inductionHypothesis _ _ _ (by omega)
              | items field count =>
                  dsimp only
                  cases add counts field count with
                  | error error => rfl
                  | ok counts => exact inductionHypothesis _ _ _ (by omega)
              | message field nested data =>
                  dsimp only
                  split
                  · rfl
                  · have inside : data.length < steps := by
                      have := shorter.1
                      simp only [Occurrence.data] at this
                      omega
                    have inner := inductionHypothesis (depth + 1) nested (fun _ => 0) inside
                    split
                    · cases add counts field 1 with
                      | error error => rfl
                      | ok counts => exact inductionHypothesis _ _ _ (by omega)
                    · exact inner

theorem check_isSome (spec : MsgSpec) (bytes : Bytes) :
    (check schema origin spec bytes).isSome = true :=
  walkFrom_isSome schema origin 0 spec _ (Nat.lt_succ_self _)

end Parvane.Codec.Limits
