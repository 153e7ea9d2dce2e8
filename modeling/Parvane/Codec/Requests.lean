import Parvane.Codec.Written
import Parvane.Foundation.Fields

/-!
# Padded requests

A request travels in a frame.  Where lengths must not tell what is sent, the frame is padded
to a multiple of some size by a field of the request.  That field costs its own tag and
length, and the request stands in the frame after its length, so some sizes cannot be hit;
then the next multiple is.
-/

namespace Parvane.Codec

open Wire Limits

/-- The version of the protocol. -/
def protoMajor : UInt32 := 2

structure Request where
  id : UInt64 := 0
  method : String := ""
  body : Bytes := []
  timeoutMs : UInt32 := 0
  padding : Bytes := []
  destDomain : String := ""
  deriving DecidableEq

instance : Message Request where
  fields request :=
    Wire.uint64 1 request.id ++ string 2 request.method ++ bytes 3 request.body ++
      Wire.uint32 4 request.timeoutMs ++ bytes 5 request.padding ++ string 6 request.destDomain
  fields_injective first second equal := by
    have each := select_each [1, 2, 3, 4, 5, 6] equal
    cases first
    cases second
    simpa using each

/-- A frame; of its kinds only requests. -/
structure Frame where
  protoMajor : UInt32 := 0
  request : Option Request := none
  deriving DecidableEq

instance : Message Frame where
  fields frame := Wire.uint32 1 frame.protoMajor ++ message 20 frame.request
  fields_injective first second equal := by
    have each := select_each [1, 20] equal
    cases first
    cases second
    simpa using each

/-- The frame of a request. -/
def encodeFrame (request : Request) : Bytes :=
  encode ({ protoMajor := protoMajor, request := some request } : Frame)

/-! ## Padding -/

/-- The limit of the padding of a request. -/
def maxRequestPadding : Nat := 8192

def Request.withPadding (request : Request) (count : Nat) : Request :=
  { request with padding := List.replicate count 0 }

/-- Take less and less padding until the frame has the wanted length.  When it cannot have it,
so much padding was tried last. -/
def fitPadding (request : Request) (wanted : Nat) : Nat -> Nat ⊕ Bytes
  | 0 => .inl 0
  | count + 1 =>
      let framed := encodeFrame (request.withPadding (count + 1))
      if framed.length = wanted then .inr framed
      else if wanted < framed.length then fitPadding request wanted count
      else .inl (count + 1)

/-- Try one length after another. -/
def padThrough (request : Request) (base : Bytes) : List Nat -> Bytes
  | [] => base
  | wanted :: others =>
      match fitPadding request wanted (wanted - (base.length + 2)) with
      | .inr framed => framed
      | .inl count => if maxRequestPadding < count then base else padThrough request base others

/-- The frame of a request, padded to a multiple of a length. -/
def encodeRequestPadded (request : Request) (padTo : Nat) : Bytes :=
  let request := request.withPadding 0
  let base := encodeFrame request
  if padTo = 0 ∨ base.length % padTo = 0 then base
  else
    let target := (base.length + padTo - 1) / padTo * padTo
    padThrough request base [target, target + padTo]

/-! ## Reading a frame again -/

def requestSpec : MsgSpec where
  name := "parvane.core.v2.Request"
  fields :=
    [{ number := 1, name := "id", ty := .varint },
      { number := 2, name := "method", ty := .str, maxLen := 96 },
      { number := 3, name := "body", ty := .bytes, maxLen := 4194304 },
      { number := 4, name := "timeout_ms", ty := .varint },
      { number := 5, name := "padding", ty := .bytes, maxLen := 8192 },
      { number := 6, name := "dest_domain", ty := .str, maxLen := 128 }]
  sorted := by decide

def frameSpec : MsgSpec where
  name := "parvane.core.v2.Frame"
  fields :=
    [{ number := 1, name := "proto_major", ty := .varint },
      { number := 20, name := "request", ty := .message 1 }]
  sorted := by decide

def frameSchema : Schema := [frameSpec, requestSpec]

/-- Take one more field of a request; a later one replaces an earlier one. -/
def Request.put (request : Request) (item : UInt32 × Element) : Request :=
  match item.1.toNat, item.2 with
  | 1, .number value => { request with id := UInt64.ofNat value }
  | 2, .text value => { request with method := value }
  | 3, .bytes value => { request with body := value }
  | 4, .number value => { request with timeoutMs := UInt32.ofNat value }
  | 5, .bytes value => { request with padding := value }
  | 6, .text value => { request with destDomain := value }
  | _, _ => request

def Frame.put (frame : Frame) (item : UInt32 × Element) : Frame :=
  match item.1.toNat, item.2 with
  | 1, .number value => { frame with protoMajor := UInt32.ofNat value }
  | 20, .message fields =>
      { frame with request := some (fields.foldl Request.put (frame.request.getD {})) }
  | _, _ => frame

/-- Read a frame by the rules of the wire format. -/
def Frame.decode (bytes : Bytes) : Option Frame :=
  (decodeValue frameSchema frameSpec bytes).map fun value => value.foldl Frame.put {}

section

variable {schema : Schema} {spec : MsgSpec}

/-- The written fields are read as these items, whatever follows them. -/
def ReadAs (schema : Schema) (spec : MsgSpec) (fields : List Field) (value : Value) : Prop :=
  ∀ steps rest others, (encodeFields fields ++ rest).length < steps ->
    (∀ left, rest.length < left -> decodeFrom schema left spec rest = some others) ->
    decodeFrom schema steps spec (encodeFields fields ++ rest) = some (value ++ others)

theorem readAs_nil : ReadAs schema spec [] [] := by
  intro steps rest others enough continues
  exact continues steps enough

theorem ReadAs.append {first second : List Field} {firstValue secondValue : Value}
    (firstRead : ReadAs schema spec first firstValue)
    (secondRead : ReadAs schema spec second secondValue) :
    ReadAs schema spec (first ++ second) (firstValue ++ secondValue) := by
  intro steps rest others enough continues
  rw [encodeFields_append, List.append_assoc] at enough ⊢
  rw [List.append_assoc]
  apply firstRead steps _ _ enough
  intro left leftEnough
  exact secondRead left rest others leftEnough continues

/-- A message that was written is read as its items. -/
theorem ReadAs.decodeValue {fields : List Field} {value : Value}
    (read : ReadAs schema spec fields value) :
    decodeValue schema spec (encodeFields fields) = some value := by
  have whole := read ((encodeFields fields).length + 1) [] []
  rw [List.append_nil, List.append_nil] at whole
  apply whole (Nat.lt_succ_self _)
  intro left enough
  obtain ⟨left, rfl⟩ : ∃ before, left = before + 1 := ⟨left - 1, by omega⟩
  rfl

theorem takeBytes_length_append (data rest : Bytes) :
    takeBytes data.length (data ++ rest) = some (data, rest) := by
  simp [takeBytes]

theorem delimited_written {data : Bytes}
    (small : data.length < 2 ^ 64) (rest : Bytes) :
    delimited (encodeVarint data.length ++ (data ++ rest)) = some (data, rest) := by
  rw [delimited, decodeVarint64_encodeVarint small]
  exact takeBytes_length_append data rest

/-- Which field stands next is read from its key. -/
theorem decodePart_encodeField {field : Field} {known : FieldSpec}
    (positive : 0 < field.number) (small : field.number < 2 ^ 29)
    (found : spec.field (UInt32.ofNat field.number) = some known)
    (rest : Bytes) :
    decodePart schema spec (encodeField field ++ rest) =
      decodeField schema known field.payload.wireType (field.payload.encode ++ rest) := by
  have wireType_lt : field.payload.wireType < 8 := by
    cases field.payload <;> simp [Payload.wireType]
  have number : (8 * field.number + field.payload.wireType) / 8 = field.number := by omega
  have wire : (8 * field.number + field.payload.wireType) % 8 = field.payload.wireType := by omega
  have inside : 8 * field.number + field.payload.wireType < 2 ^ 32 ∧ field.number ≠ 0 := by omega
  rw [encodeField, List.append_assoc, decodePart, decodeVarint64_encodeVarint (by omega)]
  simp only [Option.bind_eq_bind, Option.bind_some, number, wire, if_pos inside, found]

/-- One field that is read as some items. -/
theorem readAs_items {field : Field} {known : FieldSpec} {elements : List Element}
    (positive : 0 < field.number) (small : field.number < 2 ^ 29)
    (found : spec.field (UInt32.ofNat field.number) = some known)
    (decoded : ∀ rest, decodeField schema known field.payload.wireType
      (field.payload.encode ++ rest) = some (.elements known elements, rest)) :
    ReadAs schema spec [field] (elements.map (known.number, ·)) := by
  intro steps rest others enough continues
  obtain ⟨steps, rfl⟩ : ∃ before, steps = before + 1 := ⟨steps - 1, by omega⟩
  rw [encodeFields, List.flatMap_singleton] at enough ⊢
  obtain ⟨byte, tail, written⟩ := List.exists_cons_of_ne_nil
    (List.append_ne_nil_of_left_ne_nil (encodeField_ne_nil field) rest)
  have part := @decodePart_encodeField schema spec field known positive small found rest
  rw [decoded rest] at part
  have shorter : rest.length < steps := by
    have := List.length_pos_of_ne_nil (encodeField_ne_nil field)
    rw [List.length_append] at enough
    omega
  rw [written] at part ⊢
  rw [decodeFrom, part]
  simp only [Option.bind_eq_bind, Option.bind_some, continues steps shorter]
  rfl

/-- One field that holds a message. -/
theorem readAs_message
    {number index : Nat} {fields : List Field} {known : FieldSpec} {nested : MsgSpec}
    {value : Value} (positive : 0 < number) (small : number < 2 ^ 29)
    (found : spec.field (UInt32.ofNat number) = some known)
    (ty : known.ty = .message index)
    (entry : schema[index]? = some nested)
    (short : (encodeFields fields).length < 2 ^ 64)
    (read : ReadAs schema nested fields value) :
    ReadAs schema spec [⟨number, .delimited (encodeFields fields)⟩]
      [(known.number, .message value)] := by
  intro steps rest others enough continues
  obtain ⟨steps, rfl⟩ : ∃ before, steps = before + 1 := ⟨steps - 1, by omega⟩
  rw [encodeFields, List.flatMap_singleton] at enough ⊢
  have part := @decodePart_encodeField schema spec
    ⟨number, .delimited (encodeFields fields)⟩ known positive small found rest
  have decoded : decodeField schema known 2
      (encodeVarint (encodeFields fields).length ++ (encodeFields fields ++ rest)) =
        some (.message known nested (encodeFields fields), rest) := by
    simp [decodeField, ty, delimited_written short, entry]
  rw [Payload.wireType, Payload.encode, List.append_assoc, decoded] at part
  have inner := @length_lt_encodeField ⟨number, .delimited (encodeFields fields)⟩ _ rfl
  rw [List.length_append] at enough
  have innerRead : decodeFrom schema steps nested (encodeFields fields) = some value := by
    have whole := read steps [] []
    rw [List.append_nil, List.append_nil] at whole
    apply whole (by omega)
    intro left leftEnough
    obtain ⟨left, rfl⟩ : ∃ before, left = before + 1 := ⟨left - 1, by omega⟩
    rfl
  have later := continues steps (by omega)
  obtain ⟨byte, tail, written⟩ := List.exists_cons_of_ne_nil
    (List.append_ne_nil_of_left_ne_nil
      (encodeField_ne_nil ⟨number, .delimited (encodeFields fields)⟩) rest)
  rw [written] at part ⊢
  rw [decodeFrom, part]
  simp only [Option.bind_eq_bind, Option.bind_some, innerRead, later]
  rfl

/-! ## Fields that are left out when empty -/

def numberItems (number : UInt32) (value : Nat) : Value :=
  if value = 0 then [] else [(number, .number value)]

def bytesItems (number : UInt32) (value : Bytes) : Value :=
  if value = [] then [] else [(number, .bytes value)]

def textItems (number : UInt32) (value : String) : Value :=
  if utf8 value = [] then [] else [(number, .text value)]

variable (number : Nat)

/-- What the schema says about a number. -/
theorem known_of_ty {ty : FieldTy}
    (found : (spec.field (UInt32.ofNat number)).map FieldSpec.ty = some ty) :
    ∃ known, spec.field (UInt32.ofNat number) = some known ∧ known.ty = ty ∧
      known.number = UInt32.ofNat number := by
  obtain ⟨known, isKnown, sameTy⟩ := Option.map_eq_some_iff.1 found
  have same := List.find?_some isKnown
  exact ⟨known, isKnown, sameTy, beq_iff_eq.1 same⟩

theorem readAs_uint {value : Nat}
    (positive : 0 < number) (small : number < 2 ^ 29)
    (found : (spec.field (UInt32.ofNat number)).map FieldSpec.ty = some .varint)
    (fits : value < 2 ^ 64) :
    ReadAs schema spec (uint number value) (numberItems (UInt32.ofNat number) value) := by
  obtain ⟨known, isKnown, ty, same⟩ := known_of_ty number found
  unfold uint numberItems
  split
  · exact readAs_nil
  · rw [← same]
    apply @readAs_items schema spec ⟨number, .varint value⟩ known [.number value] positive small
      isKnown
    intro rest
    simp [decodeField, Payload.wireType, Payload.encode, ty, decodeVarint64_encodeVarint fits]

theorem readAs_bytes {value : Bytes}
    (positive : 0 < number) (small : number < 2 ^ 29)
    (found : (spec.field (UInt32.ofNat number)).map FieldSpec.ty = some .bytes)
    (fits : value.length < 2 ^ 64) :
    ReadAs schema spec (bytes number value) (bytesItems (UInt32.ofNat number) value) := by
  obtain ⟨known, isKnown, ty, same⟩ := known_of_ty number found
  unfold bytes bytesItems
  split
  · exact readAs_nil
  · rw [← same]
    apply @readAs_items schema spec ⟨number, .delimited value⟩ known [.bytes value] positive small
      isKnown
    intro rest
    simp [decodeField, Payload.wireType, Payload.encode, ty, delimited_written fits]

theorem fromUTF8?_utf8 (value : String) : String.fromUTF8? ⟨(utf8 value).toArray⟩ = some value := by
  have whole : (⟨(utf8 value).toArray⟩ : ByteArray) = value.toByteArray := rfl
  rw [whole, String.fromUTF8?, dif_pos value.isValidUTF8]
  rfl

theorem readAs_string {value : String}
    (positive : 0 < number) (small : number < 2 ^ 29)
    (found : (spec.field (UInt32.ofNat number)).map FieldSpec.ty = some .str)
    (fits : (utf8 value).length < 2 ^ 64) :
    ReadAs schema spec (string number value) (textItems (UInt32.ofNat number) value) := by
  obtain ⟨known, isKnown, ty, same⟩ := known_of_ty number found
  unfold string bytes textItems
  split
  · exact readAs_nil
  · rw [← same]
    apply @readAs_items schema spec ⟨number, .delimited (utf8 value)⟩ known [.text value] positive
      small isKnown
    intro rest
    simp [decodeField, Payload.wireType, Payload.encode, ty, delimited_written fits,
      fromUTF8?_utf8]

end

/-- The items of a request, in the order of its fields. -/
def Request.items (request : Request) : Value :=
  numberItems 1 request.id.toNat ++ textItems 2 request.method ++ bytesItems 3 request.body ++
    numberItems 4 request.timeoutMs.toNat ++ bytesItems 5 request.padding ++
    textItems 6 request.destDomain

theorem length_le_encodeFields_bytes (number : Nat) (value : Bytes) :
    value.length ≤ (encodeFields (bytes number value)).length := by
  unfold bytes
  split
  · next empty => simp [empty]
  · rw [encodeFields, List.flatMap_singleton]
    exact (@length_lt_encodeField ⟨number, .delimited value⟩ value rfl).le

theorem readAs_request {request : Request}
    (short : (encode request).length < 2 ^ 64) :
    ReadAs frameSchema requestSpec (Message.fields request) request.items := by
  have lengths : (encode request).length =
      (encodeFields (Wire.uint64 1 request.id)).length +
      (encodeFields (string 2 request.method)).length +
      (encodeFields (bytes 3 request.body)).length +
      (encodeFields (Wire.uint32 4 request.timeoutMs)).length +
      (encodeFields (bytes 5 request.padding)).length +
      (encodeFields (string 6 request.destDomain)).length := by
    simp only [encode, Message.fields, length_encodeFields_append]
  have method := length_le_encodeFields_bytes 2 (utf8 request.method)
  have body := length_le_encodeFields_bytes 3 request.body
  have padding := length_le_encodeFields_bytes 5 request.padding
  have destDomain := length_le_encodeFields_bytes 6 (utf8 request.destDomain)
  rw [← string] at method destDomain
  apply ReadAs.append
  · apply ReadAs.append
    · apply ReadAs.append
      · apply ReadAs.append
        · apply ReadAs.append
          · exact readAs_uint 1 (by decide) (by decide) rfl request.id.toNat_lt
          · exact readAs_string 2 (by decide) (by decide) rfl (by omega)
        · exact readAs_bytes 3 (by decide) (by decide) rfl (by omega)
      · exact readAs_uint 4 (by decide) (by decide) rfl
          (request.timeoutMs.toNat_lt.trans (by decide))
    · exact readAs_bytes 5 (by decide) (by decide) rfl (by omega)
  · exact readAs_string 6 (by decide) (by decide) rfl (by omega)

theorem eq_empty_of_utf8 {text : String} (empty : utf8 text = []) : text = "" :=
  (utf8_inj text "").1 empty

/-- The items of a request, put into a request one after another, give the request. -/
theorem foldl_put_items (request : Request) : request.items.foldl Request.put {} = request := by
  have id : (numberItems 1 request.id.toNat).foldl Request.put {} =
      { id := request.id } := by
    unfold numberItems
    split
    · next zero => rw [show request.id = 0 from UInt64.toNat_inj.1 zero]; rfl
    · simp [Request.put]
  have method : (textItems 2 request.method).foldl Request.put { id := request.id } =
      { id := request.id, method := request.method } := by
    unfold textItems
    split
    · next empty => rw [eq_empty_of_utf8 empty]; rfl
    · simp [Request.put]
  have body : (bytesItems 3 request.body).foldl Request.put
      { id := request.id, method := request.method } =
      { id := request.id, method := request.method, body := request.body } := by
    unfold bytesItems
    split
    · next empty => rw [empty]; rfl
    · simp [Request.put]
  have timeoutMs : (numberItems 4 request.timeoutMs.toNat).foldl Request.put
      { id := request.id, method := request.method, body := request.body } =
      { id := request.id, method := request.method, body := request.body,
        timeoutMs := request.timeoutMs } := by
    unfold numberItems
    split
    · next zero => rw [show request.timeoutMs = 0 from UInt32.toNat_inj.1 zero]; rfl
    · simp [Request.put]
  have padding : (bytesItems 5 request.padding).foldl Request.put
      { id := request.id, method := request.method, body := request.body,
        timeoutMs := request.timeoutMs } =
      { request with destDomain := "" } := by
    unfold bytesItems
    split
    · next empty => rw [empty]; rfl
    · simp [Request.put]
  have destDomain : (textItems 6 request.destDomain).foldl Request.put
      { request with destDomain := "" } = request := by
    unfold textItems
    split
    · next empty => rw [List.foldl_nil, ← eq_empty_of_utf8 empty]
    · simp [Request.put]
  rw [Request.items, List.foldl_append, List.foldl_append, List.foldl_append, List.foldl_append,
    List.foldl_append, id, method, body, timeoutMs, padding, destDomain]

/-- The frame of a request is read as that request. -/
theorem decode_encodeFrame {request : Request}
    (short : (encodeFrame request).length < 2 ^ 64) :
    Frame.decode (encodeFrame request) =
      some { protoMajor := protoMajor, request := some request } := by
  have inner : (encode request).length ≤ (encodeFrame request).length :=
    @length_le_encode Frame _ _ 20 (encode request) (by simp [Message.fields, message])
  have fields : ReadAs frameSchema frameSpec
      (uint 1 protoMajor.toNat ++ [⟨20, .delimited (encodeFields (Message.fields request))⟩])
      (numberItems 1 protoMajor.toNat ++ [(20, .message request.items)]) := by
    apply ReadAs.append
    · exact readAs_uint 1 (by decide) (by decide) rfl (by decide)
    · exact @readAs_message frameSchema frameSpec 20 1 _ _ _ _ (by decide) (by decide) rfl rfl rfl
        (Nat.lt_of_le_of_lt inner short)
        (readAs_request (Nat.lt_of_le_of_lt inner short))
  have read : decodeValue frameSchema frameSpec (encodeFrame request) =
      some (numberItems 1 protoMajor.toNat ++ [(20, .message request.items)]) :=
    fields.decodeValue
  have major : (numberItems 1 protoMajor.toNat).foldl Frame.put {} =
      { protoMajor := protoMajor } := rfl
  rw [Frame.decode, read, Option.map_some, List.foldl_append, major, List.foldl_cons,
    List.foldl_nil]
  simp [Frame.put, foldl_put_items]

/-! ## Lengths of frames -/

theorem length_encodeFrame (request : Request) :
    (encodeFrame request).length = 4 + delimitedLength (encode request).length := by
  have major : (encodeFields (Wire.uint32 1 protoMajor)).length = 2 := by decide
  have tag : (encodeVarint (8 * 20 + 2)).length = 2 := by decide
  rw [encodeFrame, encode, Message.fields]
  dsimp only [instMessageFrame]
  rw [length_encodeFields_append, major, message, Option.toList_some, List.map_singleton,
    encodeFields, List.flatMap_singleton, encodeField, Payload.wireType, Payload.encode,
    List.length_append, tag, List.length_append, delimitedLength]
  omega

/-- Padding lengthens a request by its tag, its length and its bytes. -/
theorem length_encode_withPadding
    (request : Request) {count : Nat} (positive : 1 ≤ count) :
    (encode (request.withPadding count)).length =
      (encode (request.withPadding 0)).length + (1 + delimitedLength count) := by
  have length : (List.replicate count (0 : UInt8)).length = count := List.length_replicate
  have grows := @length_encodeFields_between
    (Wire.uint64 1 request.id ++ string 2 request.method ++ bytes 3 request.body ++
      Wire.uint32 4 request.timeoutMs)
    (string 6 request.destDomain) 5 (by decide) (List.replicate count 0) (by omega)
  rw [length] at grows
  exact grows

/-- The more padding, the longer the frame. -/
theorem length_encodeFrame_lt
    (request : Request) {fewer more : Nat} (positive : 1 ≤ fewer) (less : fewer < more) :
    (encodeFrame (request.withPadding fewer)).length <
      (encodeFrame (request.withPadding more)).length := by
  have inside := delimitedLength_strictMono less
  have fewerLength := length_encode_withPadding request positive
  have moreLength := length_encode_withPadding request (positive.trans less.le)
  rw [length_encodeFrame, length_encodeFrame]
  apply Nat.add_lt_add_left
  apply delimitedLength_strictMono
  omega

/-! ## Hitting a length -/

/-- The search finds the only padding that gives the wanted length, if there is one. -/
theorem fitPadding_cases (request : Request) (wanted count : Nat) :
    (∃ found, 1 ≤ found ∧ found ≤ count ∧
      (encodeFrame (request.withPadding found)).length = wanted ∧
      fitPadding request wanted count = .inr (encodeFrame (request.withPadding found))) ∨
    (∃ last ≤ count, fitPadding request wanted count = .inl last ∧
      ∀ other, 1 ≤ other -> other ≤ count ->
        (encodeFrame (request.withPadding other)).length ≠ wanted) := by
  induction count with
  | zero => exact .inr ⟨0, Nat.le_refl 0, rfl, fun other positive none => by omega⟩
  | succ count inductionHypothesis =>
      rw [fitPadding]
      by_cases exactly : (encodeFrame (request.withPadding (count + 1))).length = wanted
      · rw [if_pos exactly]
        exact .inl ⟨count + 1, by omega, Nat.le_refl _, exactly, rfl⟩
      · rw [if_neg exactly]
        by_cases longer : wanted < (encodeFrame (request.withPadding (count + 1))).length
        · rw [if_pos longer]
          rcases inductionHypothesis with ⟨found, positive, le, hits, same⟩ | ⟨last, le, same, misses⟩
          · exact .inl ⟨found, positive, by omega, hits, same⟩
          · refine .inr ⟨last, by omega, same, fun other positive otherLe => ?_⟩
            rcases Nat.lt_or_eq_of_le otherLe with less | rfl
            · exact misses other positive (by omega)
            · exact exactly
        · rw [if_neg longer]
          refine .inr ⟨count + 1, Nat.le_refl _, rfl, fun other positive otherLe hits => ?_⟩
          rcases Nat.lt_or_eq_of_le otherLe with less | rfl
          · have := length_encodeFrame_lt request positive less
            omega
          · exact exactly hits

/-- Among the lengths of contents, those that make a frame of a multiple of 256 are not left
out. -/
theorem exists_content {wanted : Nat}
    (divides : 256 ∣ wanted) (positive : 0 < wanted)
    (fits : wanted < 2 ^ 64) : ∃ content, 4 + delimitedLength content = wanted := by
  rcases exists_delimitedLength (wanted - 5) with ⟨content, reached⟩ | ⟨power, skipped⟩
  · exact ⟨content, by omega⟩
  · exfalso
    cases power with
    | zero => omega
    | succ power =>
        have factor : 128 ^ (power + 1 + 1) = 256 * (64 * 128 ^ power) := by
          rw [pow_succ, pow_succ]
          omega
        have small : power < 8 := by
          by_contra large
          have grows : 128 ^ 10 ≤ 128 ^ (power + 1 + 1) :=
            Nat.pow_le_pow_right (by decide) (by omega)
          omega
        omega

/-- A multiple of 256 that is a little longer than the bare frame is hit by some padding, unless
the padding would have to take so few bytes, or just as many, as it cannot. -/
theorem hit_or_gap {request : Request} {wanted : Nat}
    (divides : 256 ∣ wanted) (fits : wanted < 2 ^ 64)
    (longer : (encodeFrame (request.withPadding 0)).length < wanted)
    (near : wanted ≤ (encodeFrame (request.withPadding 0)).length + 8192) :
    (∃ count, 1 ≤ count ∧ count + 2 + (encodeFrame (request.withPadding 0)).length ≤ wanted ∧
      (encodeFrame (request.withPadding count)).length = wanted) ∨
    (∃ room, 1 ≤ room ∧ room ≤ 130 ∧
      4 + delimitedLength ((encode (request.withPadding 0)).length + room) = wanted) := by
  obtain ⟨content, reached⟩ := exists_content divides (by omega) fits
  have bare := length_encodeFrame (request.withPadding 0)
  have less : (encode (request.withPadding 0)).length < content :=
    delimitedLength_strictMono.lt_iff_lt.1 (by omega)
  obtain ⟨room, rfl⟩ := Nat.exists_eq_add_of_le less.le
  have grows := delimitedLength_add_le (encode (request.withPadding 0)).length room
  by_cases gap : room = 1 ∨ room = 2 ∨ room = 130
  · exact .inr ⟨room, by omega, by omega, reached⟩
  · obtain ⟨count, positive, exactly⟩ :=
      @exists_fieldLength room (by omega) (by omega) (by omega) (by omega)
    have padded := length_encode_withPadding request positive
    have countLess := lt_delimitedLength count
    refine .inl ⟨count, positive, by omega, ?_⟩
    rw [length_encodeFrame, padded, ← exactly]
    exact reached

/-- A gap is so narrow that two of its lengths are not 256 apart. -/
theorem gap_narrow (size : Nat) {first second : Nat} (positive : 1 ≤ first)
    (small : second ≤ 130) :
    delimitedLength (size + second) < delimitedLength (size + first) + 256 := by
  have reached := @Nat.lt_pow_succ_log_self 128 (by decide) (size + first)
  have atLeast : 128 ^ 1 ≤ 128 ^ (Nat.log 128 (size + first) + 1) :=
    Nat.pow_le_pow_right (by decide) (by omega)
  have twice : 128 ^ (Nat.log 128 (size + first) + 1 + 1) =
      128 ^ (Nat.log 128 (size + first) + 1) * 128 := pow_succ _ _
  have logarithm : Nat.log 128 (size + second) < Nat.log 128 (size + first) + 1 + 1 := by
    apply Nat.log_lt_of_lt_pow' (by omega)
    rw [Nat.succ_eq_add_one] at reached
    omega
  rw [delimitedLength, delimitedLength, length_encodeVarint, length_encodeVarint]
  omega

/-- The padded frame has a length that is a multiple of the given one, and little padding. -/
theorem exists_encodeRequestPadded {request : Request} {padTo : Nat}
    (divides : 256 ∣ padTo) (positive : 0 < padTo) (atMost : padTo ≤ 4096)
    (fits : (encodeFrame (request.withPadding 0)).length < 2 ^ 63) :
    ∃ count ≤ maxRequestPadding,
      encodeRequestPadded request padTo = encodeFrame (request.withPadding count) ∧
      padTo ∣ (encodeFrame (request.withPadding count)).length := by
  have again (count : Nat) : (request.withPadding 0).withPadding count =
      request.withPadding count := rfl
  rw [encodeRequestPadded]
  dsimp only
  split
  · next already =>
      refine ⟨0, by decide, rfl, Nat.dvd_of_mod_eq_zero ?_⟩
      omega
  · next unaligned =>
      have limit : maxRequestPadding = 8192 := rfl
      have target : ∃ quotient,
          ((encodeFrame (request.withPadding 0)).length + padTo - 1) / padTo = quotient ∧
          (encodeFrame (request.withPadding 0)).length < quotient * padTo ∧
          quotient * padTo < (encodeFrame (request.withPadding 0)).length + padTo := by
        refine ⟨_, rfl, ?_, ?_⟩
        · have := @Nat.lt_div_mul_add ((encodeFrame (request.withPadding 0)).length + padTo - 1)
            padTo positive
          have notMultiple : ((encodeFrame (request.withPadding 0)).length + padTo - 1) / padTo *
              padTo ≠ (encodeFrame (request.withPadding 0)).length := by
            intro equal
            apply unaligned
            rw [← equal]
            exact .inr (Nat.mul_mod_left _ _)
          omega
        · have := Nat.div_mul_le_self
            ((encodeFrame (request.withPadding 0)).length + padTo - 1) padTo
          omega
      obtain ⟨quotient, same, longer, near⟩ := target
      rw [same]
      have firstDivides : padTo ∣ quotient * padTo := Nat.dvd_mul_left _ _
      have secondDivides : padTo ∣ quotient * padTo + padTo :=
        Nat.dvd_add firstDivides (Nat.dvd_refl _)
      rw [padThrough]
      rcases fitPadding_cases (request.withPadding 0) (quotient * padTo)
          (quotient * padTo - ((encodeFrame (request.withPadding 0)).length + 2)) with
        ⟨found, -, le, hits, fitted⟩ | ⟨last, le, fitted, misses⟩
      · rw [again] at hits
        rw [fitted]
        exact ⟨found, by omega, rfl, hits ▸ firstDivides⟩
      · rw [fitted]
        dsimp only
        rw [if_neg (by omega), padThrough]
        rcases fitPadding_cases (request.withPadding 0) (quotient * padTo + padTo)
            (quotient * padTo + padTo - ((encodeFrame (request.withPadding 0)).length + 2)) with
          ⟨found, -, le, hits, fitted⟩ | ⟨last, le, fitted, missesToo⟩
        · rw [again] at hits
          rw [fitted]
          exact ⟨found, by omega, rfl, hits ▸ secondDivides⟩
        · exfalso
          have firstGap := @hit_or_gap request _ (divides.trans firstDivides) (by omega) longer
            (by omega)
          have secondGap := @hit_or_gap request _ (divides.trans secondDivides) (by omega)
            (by omega) (by omega)
          rcases firstGap with ⟨count, least, room, hits⟩ | ⟨first, firstLeast, -, firstAt⟩
          · exact misses count least (by omega) hits
          · rcases secondGap with ⟨count, least, room, hits⟩ | ⟨second, -, secondMost, secondAt⟩
            · exact missesToo count least (by omega) hits
            · have narrow := gap_narrow (encode (request.withPadding 0)).length firstLeast secondMost
              have := Nat.le_of_dvd positive divides
              omega

theorem length_encodeFrame_withPadding_lt {request : Request} {count : Nat}
    (little : count ≤ maxRequestPadding)
    (fits : (encodeFrame (request.withPadding 0)).length < 2 ^ 63) :
    (encodeFrame (request.withPadding count)).length < 2 ^ 64 := by
  have limit : maxRequestPadding = 8192 := rfl
  rcases Nat.eq_zero_or_pos count with rfl | positive
  · omega
  · have inside := delimitedLength_add_ge 0 count
    have outside := delimitedLength_add_ge (encode (request.withPadding 0)).length
      (1 + delimitedLength count)
    have empty : delimitedLength 0 = 1 := rfl
    rw [Nat.zero_add] at inside
    rw [length_encodeFrame] at fits ⊢
    rw [length_encode_withPadding request positive]
    omega

/-- A padded frame has a length from few, takes little padding, and is read as the same
request. -/
theorem encodeRequestPadded_spec
    {request : Request}
    {exponent : Nat}
    (atLeast : 8 ≤ exponent)
    (atMost : exponent ≤ 12)
    (fits : (encodeFrame { request with padding := [] }).length < 2 ^ 63) :
    2 ^ exponent ∣ (encodeRequestPadded request (2 ^ exponent)).length ∧
      ∃ padding : Bytes, padding.length ≤ 8192 ∧
        Frame.decode (encodeRequestPadded request (2 ^ exponent)) =
          some { protoMajor := 2, request := some { request with padding := padding } } := by
  have divides : 256 ∣ 2 ^ exponent := Nat.pow_dvd_pow 2 atLeast
  have small : 2 ^ exponent ≤ 2 ^ 12 := Nat.pow_le_pow_right (by decide) atMost
  obtain ⟨count, little, padded, aligned⟩ :=
    @exists_encodeRequestPadded request _ divides (Nat.pow_pos (by decide)) small fits
  rw [padded]
  refine ⟨aligned, List.replicate count 0, ?_, ?_⟩
  · rw [List.length_replicate]
    exact little
  · apply decode_encodeFrame
    exact length_encodeFrame_withPadding_lt little fits

/-- A request whose bare frame cannot be brought to the next multiple. -/
theorem encodeRequestPadded_spec_sample :
    256 ∣ (encodeRequestPadded { id := 7, body := List.replicate 243 1 } (2 ^ 8)).length :=
  (encodeRequestPadded_spec (by decide) (by decide) (by decide +kernel)).1

end Parvane.Codec
