import Parvane.Codec.Framing
import Parvane.Codec.Written

/-!
# Messages and their limits

A message type is laid out field by field next to the table of the schema: each field comes with
the bytes that are written for it and with the limit that its value has to keep.  The walk
accepts a written message exactly when its value keeps the limits.
-/

namespace Parvane.Codec

open Wire Limits

variable {schema : Schema}

/-- A field of a message: what the table says about it, what is written for it, and when its
value keeps the limits. -/
structure Group (schema : Schema) where
  known : FieldSpec
  fields : List Field
  /-- How deep messages are nested in the field. -/
  height : Nat
  within : Prop
  numbered : ∀ field ∈ fields, field.number = known.number.toNat
  proper : ∀ field ∈ fields, Proper field
  fieldOk : ∀ depth, depth + height ≤ maxDepth -> (encodeFields fields).length < 2 ^ 64 ->
    (FieldOk schema .client depth 0 known fields ↔ within)

/-- A message type of the schema. -/
class Limited (schema : outParam Schema) (α : Type) [Message α] where
  index : Nat
  spec : MsgSpec
  height : Nat
  groups : α -> List (Group schema)
  entry : schema[index]? = some spec := by rfl
  known_groups : ∀ value, (groups value).map Group.known = spec.fields := by
    intro value
    rfl
  fields_groups : ∀ value, Message.fields value = (groups value).flatMap Group.fields := by
    intro value
    simp [Message.fields]
  height_groups : ∀ value, (groups value).all (fun group => group.height ≤ height) = true := by
    intro value
    rfl

/-- All fields of a value keep the limits. -/
def Moderate [Message α] [Limited schema α] (value : α) : Prop :=
  ∀ group ∈ Limited.groups value, group.within

theorem select_flatMap_fields {groups : List (Group schema)}
    (apart : groups.Pairwise fun first second => first.known.number < second.known.number)
    {group : Group schema} (member : group ∈ groups) :
    select group.known.number.toNat (groups.flatMap Group.fields) = group.fields := by
  have other {one : Group schema} (different : one.known.number ≠ group.known.number) :
      select group.known.number.toNat one.fields = [] := by
    rw [select_of_forall one.numbered, if_neg]
    rwa [UInt32.toNat_inj]
  have others {ones : List (Group schema)}
      (different : ∀ one ∈ ones, one.known.number ≠ group.known.number) :
      select group.known.number.toNat (ones.flatMap Group.fields) = [] := by
    rw [select, List.filter_flatMap, List.flatMap_eq_nil_iff]
    exact fun one member => other (different one member)
  induction groups with
  | nil => cases member
  | cons head tail inductionHypothesis =>
      obtain ⟨headApart, tailApart⟩ := List.pairwise_cons.1 apart
      rw [List.flatMap_cons, select_append]
      rcases List.mem_cons.1 member with rfl | inTail
      · rw [select_of_forall group.numbered, if_pos rfl,
          others fun one member => Ne.symm (UInt32.ne_of_lt (headApart one member)),
          List.append_nil]
      · rw [other (UInt32.ne_of_lt (headApart group inTail)), inductionHypothesis tailApart inTail,
          List.nil_append]

/-- The walk accepts a written message exactly when its fields keep the limits. -/
theorem accepts_encode [Message α]
    [Limited schema α]
    {depth : Nat} {value : α} (deep : depth + Limited.height α ≤ maxDepth)
    (short : (encode value).length < 2 ^ 64) :
    Accepts schema .client depth (Limited.spec α) (encode value) ↔ Moderate value := by
  have known := Limited.known_groups value
  have apart : (Limited.groups value).Pairwise fun first second =>
      first.known.number < second.known.number := by
    have sorted := (Limited.spec α).sorted
    rw [← known, List.pairwise_map] at sorted
    exact sorted
  have proper : ∀ field ∈ Message.fields value, Proper field := by
    rw [Limited.fields_groups value, List.forall_mem_flatMap]
    exact fun group _ => group.proper
  rw [encode, accepts_encodeFields proper short, ← known, List.forall_mem_map]
  refine forall₂_congr fun group member => ?_
  rw [Limited.fields_groups value, select_flatMap_fields apart member]
  refine group.fieldOk depth ?_ ?_
  · have heights := List.all_eq_true.1 (Limited.height_groups value) group member
    have := of_decide_eq_true heights
    omega
  · refine Nat.lt_of_le_of_lt ?_ short
    have whole : encodeFields ((Limited.groups value).flatMap Group.fields) =
        ((Limited.groups value).map fun group => encodeFields group.fields).flatten := by
      rw [← List.flatMap_def]
      exact List.flatMap_assoc
    rw [encode, Limited.fields_groups value, whole]
    have inside := List.mem_map_of_mem (f := fun group : Group schema => encodeFields group.fields)
      member
    exact (List.sublist_flatten_of_mem inside).length_le

/-! ## Kinds of fields -/

namespace Group

variable (number : UInt32) (name : String)

/-- A number that a key can hold. -/
abbrev Numbered (number : UInt32) : Prop :=
  decide (0 < number.toNat ∧ number.toNat < 2 ^ 29) = true

theorem bounds_of_numbered {number : UInt32} (inside : Numbered number) :
    0 < number.toNat ∧ number.toNat < 2 ^ 29 :=
  of_decide_eq_true inside

theorem proper_of_not_varint {number : UInt32}
    (inside : Numbered number) {field : Field} (same : field.number = number.toNat)
    (noVarint : ∀ value, field.payload ≠ .varint value) : Proper field :=
  by
  obtain ⟨positive, small⟩ := bounds_of_numbered inside
  exact ⟨same ▸ positive, same ▸ small, fun value payload => absurd payload (noVarint value)⟩

theorem fieldOk_items {depth : Nat} {known : FieldSpec} {group : List Field}
    (notServer : known.serverSet = false)
    (single : ∀ field ∈ group, itemCount known field.payload = 1) :
    FieldOk schema .client depth 0 known group ↔
      (∀ field ∈ group, Keeps schema .client depth known field.payload) ∧
        group.length ≤ limit known := by
  have count : (group.map fun field => itemCount known field.payload).sum = group.length := by
    rw [List.map_congr_left single]
    simp
  simp [FieldOk, Allowed, notServer, count]

theorem fieldOk_single {depth : Nat} {known : FieldSpec} {field : Field}
    (notServer : known.serverSet = false) (notRepeated : known.repeated = false)
    (single : itemCount known field.payload = 1) :
    FieldOk schema .client depth 0 known [field] ↔
      Keeps schema .client depth known field.payload := by
  rw [fieldOk_items notServer (by simpa using single), limit, notRepeated]
  simp

theorem forall_mem_uint {number value : Nat} {property : Field -> Prop} :
    (∀ field ∈ uint number value, property field) ↔
      (value ≠ 0 -> property ⟨number, .varint value⟩) := by
  unfold uint
  split <;> simp_all

theorem forall_mem_bytes {number : Nat} {value : Bytes} {property : Field -> Prop} :
    (∀ field ∈ bytes number value, property field) ↔
      (value ≠ [] -> property ⟨number, .delimited value⟩) := by
  unfold bytes
  split <;> simp_all

/-- An integer or a truth value. -/
def integer
    (value : Nat) (small : value < 2 ^ 64)
    (inside : Numbered number := by exact Eq.refl true) : Group schema where
  known := { number := number, name := name, ty := .varint }
  fields := uint number.toNat value
  height := 0
  within := True
  numbered := forall_mem_uint.2 fun _ => rfl
  proper := forall_mem_uint.2 fun _ =>
    ⟨(bounds_of_numbered inside).1, (bounds_of_numbered inside).2,
      fun other same => Payload.varint.inj same ▸ small⟩
  fieldOk := by
    intro depth _ _
    unfold uint
    split
    · simp [fieldOk_nil]
    · rw [fieldOk_single rfl rfl rfl]
      rfl

def uint32 (value : UInt32) (inside : Numbered number := by exact Eq.refl true) : Group schema :=
  integer number name value.toNat (value.toNat_lt.trans (by decide)) inside

def uint64 (value : UInt64) (inside : Numbered number := by exact Eq.refl true) : Group schema :=
  integer number name value.toNat value.toNat_lt inside

def int32 (value : Int32) (inside : Numbered number := by exact Eq.refl true) : Group schema :=
  integer number name value.toInt64.toUInt64.toNat (UInt64.toNat_lt _) inside

def int64 (value : Int64) (inside : Numbered number := by exact Eq.refl true) : Group schema :=
  integer number name value.toUInt64.toNat (UInt64.toNat_lt _) inside

def flag (value : Bool) (inside : Numbered number := by exact Eq.refl true) : Group schema :=
  integer number name value.toNat (value.toNat_lt.trans (by decide)) inside

/-- A byte string. -/
def blob (maxLen : UInt32) (value : Bytes) (inside : Numbered number := by exact Eq.refl true) :
    Group schema where
  known := { number := number, name := name, ty := .bytes, maxLen := maxLen }
  fields := bytes number.toNat value
  height := 0
  within := value.length ≤ maxLen.toNat
  numbered := forall_mem_bytes.2 fun _ => rfl
  proper := forall_mem_bytes.2 fun _ => proper_of_not_varint inside rfl (by simp)
  fieldOk := by
    intro depth _ _
    unfold bytes
    split
    · next empty => simp [fieldOk_nil, empty]
    · rw [fieldOk_single rfl rfl rfl]
      rfl

theorem isUtf8_utf8 (value : String) : isUtf8 (utf8 value) = true := by
  have whole : (⟨(utf8 value).toArray⟩ : ByteArray) = value.toByteArray := rfl
  rw [isUtf8, whole, String.fromUTF8?, dif_pos value.isValidUTF8]
  rfl

/-- A text. -/
def text (maxLen : UInt32) (value : String) (inside : Numbered number := by exact Eq.refl true) :
    Group schema where
  known := { number := number, name := name, ty := .str, maxLen := maxLen }
  fields := string number.toNat value
  height := 0
  within := value.utf8ByteSize ≤ maxLen.toNat
  numbered := forall_mem_bytes.2 fun _ => rfl
  proper := forall_mem_bytes.2 fun _ => proper_of_not_varint inside rfl (by simp)
  fieldOk := by
    intro depth _ _
    have length : (utf8 value).length = value.utf8ByteSize := rfl
    unfold string bytes
    split
    · next empty => simp [fieldOk_nil, ← length, empty]
    · rw [fieldOk_single rfl rfl rfl]
      simp [Keeps, Plain, isUtf8_utf8, length]

/-- An integer or a truth value with presence. -/
def presentInteger
    (value : Option Nat) (small : ∀ present ∈ value, present < 2 ^ 64)
    (inside : Numbered number := by exact Eq.refl true) :
    Group schema where
  known := { number := number, name := name, ty := .varint }
  fields := presentUint number.toNat value
  height := 0
  within := True
  numbered := by simp [presentUint]
  proper := by
    simp only [presentUint, List.forall_mem_map, Option.mem_toList]
    exact fun present member =>
      ⟨(bounds_of_numbered inside).1, (bounds_of_numbered inside).2,
        fun other same => Payload.varint.inj same ▸ small present member⟩
  fieldOk := by
    intro depth _ _
    cases value with
    | none => simp [presentUint, fieldOk_nil]
    | some present =>
        rw [presentUint, Option.toList_some, List.map_singleton, fieldOk_single rfl rfl rfl]
        rfl

def presentInt64 (value : Option Int64) (inside : Numbered number := by exact Eq.refl true) :
    Group schema :=
  presentInteger number name (value.map fun present => present.toUInt64.toNat)
    (fun _ member => by
      obtain ⟨present, -, rfl⟩ := Option.map_eq_some_iff.1 member
      exact UInt64.toNat_lt _)
    inside

def presentFlag (value : Option Bool) (inside : Numbered number := by exact Eq.refl true) :
    Group schema :=
  presentInteger number name (value.map Bool.toNat)
    (fun _ member => by
      obtain ⟨present, -, rfl⟩ := Option.map_eq_some_iff.1 member
      exact present.toNat_lt.trans (by decide))
    inside

/-- A text with presence. -/
def presentText
    (maxLen : UInt32) (value : Option String) (inside : Numbered number := by exact Eq.refl true) :
    Group schema where
  known := { number := number, name := name, ty := .str, maxLen := maxLen }
  fields := presentBytes number.toNat (value.map utf8)
  height := 0
  within := ∀ present ∈ value, present.utf8ByteSize ≤ maxLen.toNat
  numbered := by simp [presentBytes]
  proper := by
    simp only [presentBytes, List.forall_mem_map]
    exact fun _ _ => proper_of_not_varint inside rfl (by simp)
  fieldOk := by
    intro depth _ _
    cases value with
    | none => simp [presentBytes, fieldOk_nil]
    | some present =>
        have length : (utf8 present).length = present.utf8ByteSize := rfl
        rw [presentBytes, Option.map_some, Option.toList_some, List.map_singleton,
          fieldOk_single rfl rfl rfl]
        simp [Keeps, Plain, isUtf8_utf8, length]

/-- A list of integers. -/
def packed
    (maxItems : UInt32) (values : List Nat) (inside : Numbered number := by exact Eq.refl true) :
    Group schema where
  known := { number := number, name := name, ty := .varint, repeated := true, maxItems := maxItems }
  fields := Wire.packed number.toNat values
  height := 0
  within := values.length ≤ maxItems.toNat
  numbered := forall_mem_bytes.2 fun _ => rfl
  proper := forall_mem_bytes.2 fun _ => proper_of_not_varint inside rfl (by simp)
  fieldOk := by
    intro depth _ _
    unfold Wire.packed bytes
    split
    · next empty =>
        have none : values.length = 0 := by rw [← countEnds_flatMap_encodeVarint, empty]; rfl
        simp [fieldOk_nil, none]
    · simp [fieldOk_cons, fieldOk_nil, Allowed, Keeps, Plain, itemCount, limit,
        countEnds_flatMap_encodeVarint]
      exact fun _ => lt_of_mem_getLast?_flatMap_encodeVarint values

section

variable [Message α] [Limited schema α]

theorem keeps_message {depth : Nat} {known : FieldSpec} {value : α}
    (ty : known.ty = .message (Limited.index α))
    (deep : depth + (Limited.height α + 1) ≤ maxDepth)
    (short : (encode value).length < 2 ^ 64) :
    Keeps schema .client depth known (.delimited (encode value)) ↔ Moderate value := by
  have notPlain : ¬Plain known (.delimited (encode value)) := by simp [Plain, ty]
  rw [keeps_iff, or_iff_right notPlain]
  constructor
  · rintro ⟨index, data, nested, typed, payload, entry, shallow, accepted⟩
    cases payload
    cases ty.symm.trans typed
    cases Limited.entry.symm.trans entry
    exact (accepts_encode (by omega) short).1 accepted
  · intro moderate
    exact ⟨_, _, _, ty, rfl, Limited.entry, by omega,
      (accepts_encode (by omega) short).2 moderate⟩

/-- A nested message. -/
def nested (value : Option α) (inside : Numbered number := by exact Eq.refl true) : Group schema where
  known := { number := number, name := name, ty := .message (Limited.index α) }
  fields := message number.toNat value
  height := Limited.height α + 1
  within := ∀ present ∈ value, Moderate present
  numbered := by simp [message]
  proper := by
    simp only [message, List.forall_mem_map]
    exact fun _ _ => proper_of_not_varint inside rfl (by simp)
  fieldOk := by
    intro depth deep short
    cases value with
    | none => simp [message, fieldOk_nil]
    | some present =>
        have inner : (encode present).length < 2 ^ 64 :=
          (length_lt_encodeField rfl).trans_le (length_le_of_mem List.mem_cons_self) |>.trans short
        rw [message, Option.toList_some, List.map_singleton, fieldOk_single rfl rfl rfl,
          keeps_message rfl deep inner]
        simp

/-- A list of messages. -/
def list
    (maxItems : UInt32) (values : List α)
    (inside : Numbered number := by exact Eq.refl true) : Group schema where
  known :=
    { number := number, name := name, ty := .message (Limited.index α), repeated := true,
      maxItems := maxItems }
  fields := repeated number.toNat values
  height := Limited.height α + 1
  within := values.length ≤ maxItems.toNat ∧ ∀ value ∈ values, Moderate value
  numbered := by simp [repeated]
  proper := by
    simp only [repeated, List.forall_mem_map]
    exact fun _ _ => proper_of_not_varint inside rfl (by simp)
  fieldOk := by
    intro depth deep short
    rw [fieldOk_items rfl (by simp [repeated, itemCount]), repeated, List.length_map,
      List.forall_mem_map, and_comm]
    refine and_congr Iff.rfl (forall₂_congr fun value member => ?_)
    have inside := length_le_of_mem (List.mem_map_of_mem (f := fun value : α =>
      (⟨number.toNat, .delimited (encode value)⟩ : Field)) member)
    exact keeps_message rfl deep (((length_lt_encodeField rfl).trans_le inside).trans short)

end

/-! ## What is written for a field -/

section

variable {number name}
variable {inside : Numbered number}

@[simp] theorem fields_uint32 (value : UInt32) :
    (uint32 number name value inside : Group schema).fields =
      Wire.uint32 number.toNat value := rfl

@[simp] theorem fields_uint64 (value : UInt64) :
    (uint64 number name value inside : Group schema).fields =
      Wire.uint64 number.toNat value := rfl

@[simp] theorem fields_int32 (value : Int32) :
    (int32 number name value inside : Group schema).fields =
      Wire.int32 number.toNat value := rfl

@[simp] theorem fields_int64 (value : Int64) :
    (int64 number name value inside : Group schema).fields =
      Wire.int64 number.toNat value := rfl

@[simp] theorem fields_flag (value : Bool) :
    (flag number name value inside : Group schema).fields = Wire.flag number.toNat value := rfl

@[simp] theorem fields_blob (maxLen : UInt32) (value : Bytes) :
    (blob number name maxLen value inside : Group schema).fields =
      bytes number.toNat value := rfl

@[simp] theorem fields_text (maxLen : UInt32) (value : String) :
    (text number name maxLen value inside : Group schema).fields =
      string number.toNat value := rfl

@[simp] theorem fields_presentInt64 (value : Option Int64) :
    (presentInt64 number name value inside : Group schema).fields =
      presentUint number.toNat (value.map fun present => present.toUInt64.toNat) := rfl

@[simp] theorem fields_presentFlag (value : Option Bool) :
    (presentFlag number name value inside : Group schema).fields =
      presentUint number.toNat (value.map Bool.toNat) := rfl

@[simp] theorem fields_presentText (maxLen : UInt32) (value : Option String) :
    (presentText number name maxLen value inside : Group schema).fields =
      presentBytes number.toNat (value.map utf8) := rfl

@[simp] theorem fields_packed (maxItems : UInt32) (values : List Nat) :
    (packed number name maxItems values inside : Group schema).fields =
      Wire.packed number.toNat values := rfl

@[simp] theorem fields_nested [Message α] [Limited schema α] (value : Option α) :
    (nested number name value inside : Group schema).fields = message number.toNat value := rfl

@[simp] theorem fields_list [Message α]
    [Limited schema α] (maxItems : UInt32) (values : List α) :
    (list number name maxItems values inside : Group schema).fields =
      repeated number.toNat values := rfl

end

/-! ## One of several fields -/

/-- A field of the table that is not written. -/
def absent (known : FieldSpec) : Group schema where
  known := known
  fields := []
  height := 0
  within := True
  numbered := by simp
  proper := by simp
  fieldOk := by simp [fieldOk_nil]

/-- The field of the table that is written, if it was chosen. -/
def choose (chosen : Option (Group schema)) (known : FieldSpec) : Group schema :=
  match chosen with
  | some group => if group.known = known then group else absent known
  | none => absent known

/-- Of the fields of a choice at most one is written. -/
def oneof (known : List FieldSpec) (chosen : Option (Group schema)) : List (Group schema) :=
  known.map (choose chosen)

@[simp] theorem choose_none (known : FieldSpec) :
    choose (none : Option (Group schema)) known = absent known := rfl

@[simp] theorem choose_known (group : Group schema) : choose (some group) group.known = group :=
  if_pos rfl

theorem choose_of_ne {group : Group schema} {known : FieldSpec}
    (other : group.known ≠ known) : choose (some group) known = absent known :=
  if_neg other

@[simp] theorem known_choose (chosen : Option (Group schema)) (known : FieldSpec) :
    (choose chosen known).known = known := by
  unfold choose
  split
  · split
    · assumption
    · rfl
  · rfl

@[simp] theorem map_known_oneof (known : List FieldSpec) (chosen : Option (Group schema)) :
    (oneof known chosen).map Group.known = known := by
  rw [oneof, List.map_map]
  conv_rhs => rw [← List.map_id known]
  exact List.map_congr_left fun one _ => known_choose chosen one

variable {chosen : Option (Group schema)}

theorem height_oneof {known : List FieldSpec} {height : Nat}
    (le : ∀ group ∈ chosen, group.height ≤ height) :
    (oneof known chosen).all (fun group => group.height ≤ height) = true := by
  simp only [List.all_eq_true, decide_eq_true_eq]
  refine List.forall_mem_map.2 fun one _ => ?_
  unfold choose
  split
  · split
    · exact le _ rfl
    · exact Nat.zero_le _
  · exact Nat.zero_le _

/-- The fields of the choice are those of the field that was chosen. -/
theorem fields_oneof {known : List FieldSpec}
    (distinct : known.Nodup) (members : ∀ group ∈ chosen, group.known ∈ known) :
    (oneof known chosen).flatMap fields = chosen.toList.flatMap fields := by
  rw [oneof, List.flatMap_map]
  cases chosen with
  | none => exact List.flatMap_eq_nil_iff.2 fun _ _ => rfl
  | some group =>
      have member := members group rfl
      clear members
      rw [Option.toList_some, List.flatMap_singleton]
      induction known with
      | nil => cases member
      | cons head tail inductionHypothesis =>
          obtain ⟨headNew, tailDistinct⟩ := List.nodup_cons.1 distinct
          rw [List.flatMap_cons]
          by_cases same : group.known = head
          · have rest : tail.flatMap (fun one => (choose (some group) one).fields) = [] := by
              refine List.flatMap_eq_nil_iff.2 fun one inTail => ?_
              rw [choose_of_ne fun equal => headNew (same ▸ equal ▸ inTail)]
              rfl
            rw [rest, List.append_nil, ← same, choose_known]
          · have inTail := (List.mem_cons.1 member).resolve_left same
            rw [choose_of_ne same, inductionHypothesis tailDistinct inTail]
            rfl

theorem within_oneof {known : List FieldSpec}
    (members : ∀ group ∈ chosen, group.known ∈ known) :
    (∀ group ∈ oneof known chosen, group.within) ↔ ∀ group ∈ chosen, group.within := by
  rw [oneof, List.forall_mem_map]
  cases chosen with
  | none => simp [absent]
  | some group =>
      simp only [Option.mem_some_iff, forall_eq']
      refine ⟨fun all => choose_known group ▸ all _ (members group rfl), fun within one _ => ?_⟩
      by_cases same : group.known = one
      · rwa [← same, choose_known]
      · rw [choose_of_ne same]
        trivial

end Group

/-! ## Decoding -/

/-- Decode the bytes of a message after the walk over them.  The decoder is another library's. -/
def decodeChecked
    (schema : Schema) (spec : MsgSpec) (decode : Bytes -> Option α) (origin : Origin)
    (bytes : Bytes) : Result α := do
  require (bytes.length ≤ maxFrame) .frameTooLarge
  (check schema origin spec bytes).get (check_isSome _ _)
  present (decode bytes) .malformed

section

variable [Message α] [Limited schema α]

theorem check_eq_ok_iff {spec : MsgSpec} {bytes : Bytes} :
    (check schema .client spec bytes).get (check_isSome _ _) = .ok () ↔
      Accepts schema .client 0 spec bytes := by
  rw [Accepts, ← check, Option.eq_some_iff_get_eq,
    exists_prop_of_true (check_isSome _ _)]

/-- A written message is decoded again exactly when its fields keep the limits. -/
theorem decodeChecked_encode {decode : Bytes -> Option α} {value : α}
    (deep : Limited.height α ≤ maxDepth)
    (short : (encode value).length ≤ maxFrame)
    (decoded : decode (encode value) = some value)
    {result : α} :
    decodeChecked schema (Limited.spec α) decode .client (encode value) = .ok result ↔
      Moderate value ∧ value = result := by
  have small : (encode value).length < 2 ^ 64 := Nat.lt_of_le_of_lt short (by decide)
  have walked : Accepts schema .client 0 (Limited.spec α) (encode value) ↔ Moderate value :=
    accepts_encode (by omega) small
  rw [← walked, ← check_eq_ok_iff]
  simp only [decodeChecked, bind_eq_ok, require_eq_ok, present_eq_ok, decide_eq_true_eq, short,
    decoded, true_and, exists_const, Option.some.injEq]
  constructor
  · rintro ⟨_, accepted⟩
    exact accepted
  · intro accepted
    exact ⟨(), accepted⟩

end

end Parvane.Codec
