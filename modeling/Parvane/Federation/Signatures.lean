import Mathlib.Data.Set.Insert
import Parvane.Foundation.Fields
import Parvane.Engine.Signing

/-!
# What a signature is about

Every signed byte string begins with the context of its role.  Within a role, the signed
fields are fixed in length or follow their length, so a signature is about one operation or
about one frame between servers only.
-/

namespace Parvane.Federation

open Wire Sign

/-! ## Contexts -/

/-- The roles of signed and hashed bytes. -/
inductive Context
  | op
  | deviceCert
  | devicePossession
  | sessionProof
  | rootBackup
  | selfSigning
  | serverDescriptor
  | groupEnvelope
  | groupTyping
  | groupTypingV2
  | groupJoin
  | groupEntryHash
  | groupGenesis
  | deviceLogHash
  | otk
  | token
  | tokenKeys
  | domainOpAad
  | domainSnapshotAad
  | domainGrantHash
  | s2sFrame
  deriving DecidableEq

def s2sFrameContext : Bytes := utf8 "parvane/v2/s2s" ++ [0]

def Context.bytes : Context -> Bytes
  | op => opContext
  | deviceCert => deviceCertContext
  | devicePossession => devicePossessionContext
  | sessionProof => utf8 "parvane/v2/session-proof" ++ [0]
  | rootBackup => utf8 "parvane/v2/root-backup" ++ [0]
  | selfSigning => selfSigningContext
  | serverDescriptor => utf8 "parvane/v2/server-descriptor" ++ [0]
  | groupEnvelope => utf8 "parvane/v2/group-env" ++ [0]
  | groupTyping => utf8 "parvane/v2/group-typing" ++ [0]
  | groupTypingV2 => utf8 "parvane/v2/group-typing2" ++ [0]
  | groupJoin => groupJoinContext
  | groupEntryHash => groupEntryHashContext
  | groupGenesis => groupGenesisContext
  | deviceLogHash => deviceLogHashContext
  | otk => Engine.otkContext
  | token => utf8 "parvane/v2/token" ++ [0]
  | tokenKeys => utf8 "parvane/v2/token-keys" ++ [0]
  | domainOpAad => utf8 "parvane/v2/domain-op" ++ [0]
  | domainSnapshotAad => utf8 "parvane/v2/domain-snapshot" ++ [0]
  | domainGrantHash => domainGrantHashContext
  | s2sFrame => s2sFrameContext

/-- The bytes that are signed under a context. -/
def concat (context : Bytes) (parts : List Bytes) : Bytes :=
  context ++ parts.flatten

/-- A byte string is signed in a role: as an operation, or as parts after a context. -/
inductive Signs : Context -> Bytes -> Prop
  | op {domain opType : String} {body message : Bytes} :
      opSigningBytes domain opType body = .ok message -> Signs .op message
  | ctx (context : Context) (parts : List Bytes) : Signs context (concat context.bytes parts)

def Context.all : List Context :=
  [op, deviceCert, devicePossession, sessionProof, rootBackup, selfSigning, serverDescriptor,
    groupEnvelope, groupTyping, groupTypingV2, groupJoin, groupEntryHash, groupGenesis,
    deviceLogHash, otk, token, tokenKeys, domainOpAad, domainSnapshotAad, domainGrantHash,
    s2sFrame]

theorem Context.mem_all (context : Context) : context ∈ all := by
  cases context <;> decide

/-- No context is the beginning of another. -/
theorem Context.eq_of_prefix {first second : Context} (begins : first.bytes <+: second.bytes) :
    first = second := by
  have compared : ∀ first ∈ all, ∀ second ∈ all,
      first.bytes <+: second.bytes -> first = second := by
    decide +kernel
  exact compared first first.mem_all second second.mem_all begins

theorem Context.eq_of_append {first second : Context} {afterFirst afterSecond : Bytes}
    (same : first.bytes ++ afterFirst = second.bytes ++ afterSecond) : first = second := by
  obtain shorter | longer := List.prefix_or_prefix_of_prefix
    (List.prefix_append first.bytes afterFirst) (same ▸ List.prefix_append second.bytes afterSecond)
  · exact Context.eq_of_prefix shorter
  · exact (Context.eq_of_prefix longer).symm

/-! ## Operations -/

/-- The fields before the body. -/
def opFields (fields : String × String) : Bytes :=
  lengthPrefixed (utf8 fields.1) ++ lengthPrefixed (utf8 fields.2)

theorem delimited_opFields :
    Delimited (fun fields : String × String =>
      fields.1.utf8ByteSize < 256 ∧ fields.2.utf8ByteSize < 256) opFields :=
  delimited_text.append delimited_text

theorem lt_of_isValidName {name : String} (valid : isValidName name) : name.utf8ByteSize < 256 := by
  simp only [isValidName, Bool.and_eq_true, decide_eq_true_eq] at valid
  exact Nat.lt_of_le_of_lt valid.1.2 (by decide)

theorem lengthPrefixed_utf8 (text : String) :
    lengthPrefixed (utf8 text) = UInt8.ofNat text.utf8ByteSize :: utf8 text :=
  rfl

theorem opSigningBytes_eq_ok {domain opType : String} {body message : Bytes} :
    opSigningBytes domain opType body = .ok message ↔
      (isValidName domain ∧ isValidName opType) ∧
        message = opContext ++ (opFields (domain, opType) ++ body) := by
  have written : opContext ++ (opFields (domain, opType) ++ body) =
      opContext ++ [UInt8.ofNat domain.utf8ByteSize] ++ utf8 domain ++
        [UInt8.ofNat opType.utf8ByteSize] ++ utf8 opType ++ body := by
    simp [opFields, lengthPrefixed_utf8]
  rw [written]
  simp [opSigningBytes, pure, Except.pure, and_assoc, eq_comm (a := message)]

/-- The domain, the type and the body can be read off the bytes that are signed. -/
theorem opSigningBytes_inj {domain opType domain' opType' : String} {body body' message : Bytes}
    (first : opSigningBytes domain opType body = .ok message)
    (second : opSigningBytes domain' opType' body' = .ok message) :
    domain = domain' ∧ opType = opType' ∧ body = body' := by
  obtain ⟨valid, rfl⟩ := opSigningBytes_eq_ok.1 first
  obtain ⟨valid', same⟩ := opSigningBytes_eq_ok.1 second
  obtain ⟨names, bodies⟩ := delimited_opFields _ _
    ⟨lt_of_isValidName valid.1, lt_of_isValidName valid.2⟩
    ⟨lt_of_isValidName valid'.1, lt_of_isValidName valid'.2⟩ _ _ (List.append_cancel_left same)
  exact ⟨congrArg Prod.fst names, congrArg Prod.snd names, bodies⟩

/-! ## Frames between servers -/

def nonceLen : Nat := 16
def maxPayloadType : Nat := 128

/-- The fields of a frame that are signed. -/
structure FrameFields where
  originDomain : String
  destDomain : String
  issuedMs : Int64
  nonce : Bytes
  payloadType : String
  payload : Bytes
  deriving DecidableEq

def isValidPayloadType (payloadType : String) : Bool :=
  !payloadType.isEmpty && payloadType.utf8ByteSize ≤ maxPayloadType &&
    payloadType.toList.all fun c => c.isAlphanum || c == '_' || c == '.'

variable (sha256 : Bytes -> Hash)

/-- The fields of a frame in canonical form. -/
def frameFields (frame : FrameFields) : Result Bytes := do
  require (isValidDomain frame.originDomain && isValidDomain frame.destDomain) .badAddress
  require (frame.nonce.length == nonceLen) (.invalidField "nonce")
  require (isValidPayloadType frame.payloadType) (.invalidField "payload_type")
  return [UInt8.ofNat frame.originDomain.utf8ByteSize] ++ utf8 frame.originDomain ++
    [UInt8.ofNat frame.destDomain.utf8ByteSize] ++ utf8 frame.destDomain ++
    bigEndian64 frame.issuedMs.toUInt64 ++ frame.nonce ++
    [UInt8.ofNat frame.payloadType.utf8ByteSize] ++ utf8 frame.payloadType ++
    (sha256 frame.payload).bytes

def frameSigningBytes (frame : FrameFields) : Result Bytes := do
  return s2sFrameContext ++ (← frameFields sha256 frame)

/-- The bytes that are signed for a payload of which only the hash is known. -/
def frameSigningBytesDigest
    (originDomain destDomain : String) (issuedMs : Int64) (nonce : Bytes) (payloadType : String)
    (payloadSha256 : Bytes) : Result Bytes := do
  require (isValidDomain originDomain && isValidDomain destDomain) .badAddress
  require (nonce.length == nonceLen) (.invalidField "nonce")
  require (isValidPayloadType payloadType) (.invalidField "payload_type")
  require (payloadSha256.length == 32) (.invalidField "payload_sha256")
  return s2sFrameContext ++ [UInt8.ofNat originDomain.utf8ByteSize] ++ utf8 originDomain ++
    [UInt8.ofNat destDomain.utf8ByteSize] ++ utf8 destDomain ++
    bigEndian64 issuedMs.toUInt64 ++ nonce ++
    [UInt8.ofNat payloadType.utf8ByteSize] ++ utf8 payloadType ++ payloadSha256

/-- What a frame signs instead of its payload is the hash of it. -/
def frameLayout (fields : String × String × Int64 × Bytes × String × Hash) : Bytes :=
  lengthPrefixed (utf8 fields.1) ++ (lengthPrefixed (utf8 fields.2.1) ++
    (bigEndian64 fields.2.2.1.toUInt64 ++ (fields.2.2.2.1 ++
      (lengthPrefixed (utf8 fields.2.2.2.2.1) ++ fields.2.2.2.2.2.bytes))))

def FrameFields.signed (frame : FrameFields) : String × String × Int64 × Bytes × String × Hash :=
  (frame.originDomain, frame.destDomain, frame.issuedMs, frame.nonce, frame.payloadType,
    sha256 frame.payload)

theorem delimited_issuedMs :
    Delimited (fun _ : Int64 => True) fun issuedMs => bigEndian64 issuedMs.toUInt64 := by
  refine .of_length 8 (fun _ _ => bigEndian64_length _) fun first second same => ?_
  exact congrArg Int64.ofUInt64 (bigEndian64_injective same)

theorem delimited_frameLayout :
    Delimited (fun fields => fields.1.utf8ByteSize < 256 ∧ fields.2.1.utf8ByteSize < 256 ∧
      True ∧ fields.2.2.2.1.length = nonceLen ∧ fields.2.2.2.2.1.utf8ByteSize < 256 ∧ True)
      frameLayout := by
  have nonces : Delimited (fun nonce : Bytes => nonce.length = nonceLen) id :=
    .of_length nonceLen (fun _ length => length) Function.injective_id
  have digests : Delimited (fun _ : Hash => True) (·.bytes) :=
    .of_length 32 (fun digest _ => digest.length_eq) FixedBytes.bytes_injective
  exact delimited_text.append (delimited_text.append (delimited_issuedMs.append
    (nonces.append (delimited_text.append digests))))

theorem lt_of_isValidDomain {domain : String} (valid : isValidDomain domain) :
    domain.utf8ByteSize < 256 := by
  simp only [isValidDomain, validPart, Bool.and_eq_true, decide_eq_true_eq] at valid
  exact Nat.lt_of_le_of_lt valid.1.1.1.1.2 (by decide)

theorem lt_of_isValidPayloadType {payloadType : String} (valid : isValidPayloadType payloadType) :
    payloadType.utf8ByteSize < 256 := by
  simp only [isValidPayloadType, Bool.and_eq_true, decide_eq_true_eq] at valid
  exact Nat.lt_of_le_of_lt valid.1.2 (by decide)

/-- The checks of a frame. -/
structure FrameFields.Valid (frame : FrameFields) : Prop where
  originDomain : isValidDomain frame.originDomain
  destDomain : isValidDomain frame.destDomain
  nonce : frame.nonce.length = nonceLen
  payloadType : isValidPayloadType frame.payloadType

theorem frameSigningBytes_eq_ok {frame : FrameFields} {message : Bytes} :
    frameSigningBytes sha256 frame = .ok message ↔
      frame.Valid ∧ message = s2sFrameContext ++ frameLayout (frame.signed sha256) := by
  have written : frameLayout (frame.signed sha256) =
      [UInt8.ofNat frame.originDomain.utf8ByteSize] ++ utf8 frame.originDomain ++
        [UInt8.ofNat frame.destDomain.utf8ByteSize] ++ utf8 frame.destDomain ++
        bigEndian64 frame.issuedMs.toUInt64 ++ frame.nonce ++
        [UInt8.ofNat frame.payloadType.utf8ByteSize] ++ utf8 frame.payloadType ++
        (sha256 frame.payload).bytes := by
    simp [frameLayout, FrameFields.signed, lengthPrefixed_utf8]
  rw [written]
  constructor
  · intro signed
    simp only [frameSigningBytes, frameFields, bind_eq_ok, require_eq_ok, Bool.and_eq_true,
      beq_iff_eq] at signed
    obtain ⟨fields, ⟨-, domains, -, nonce, -, payloadType, made⟩, signed⟩ := signed
    cases made
    cases signed
    exact ⟨⟨domains.1, domains.2, nonce, payloadType⟩, rfl⟩
  · rintro ⟨valid, rfl⟩
    simp [frameSigningBytes, frameFields, require, valid.originDomain, valid.destDomain,
      valid.nonce, valid.payloadType, bind, Except.bind, pure, Except.pure]

variable {sha256}

/-- The fields of a frame can be read off the bytes that are signed, unless two payloads have
one hash. -/
theorem frameSigningBytes_inj {payloads : Set Bytes} (collisionFree : Set.InjOn sha256 payloads)
    {frame frame' : FrameFields} (member : frame.payload ∈ payloads)
    (member' : frame'.payload ∈ payloads) {message : Bytes}
    (first : frameSigningBytes sha256 frame = .ok message)
    (second : frameSigningBytes sha256 frame' = .ok message) : frame = frame' := by
  obtain ⟨valid, rfl⟩ := (frameSigningBytes_eq_ok sha256).1 first
  obtain ⟨valid', same⟩ := (frameSigningBytes_eq_ok sha256).1 second
  have short : ∀ frame : FrameFields, frame.Valid ->
      (frame.signed sha256).1.utf8ByteSize < 256 ∧ (frame.signed sha256).2.1.utf8ByteSize < 256 ∧
      True ∧ (frame.signed sha256).2.2.2.1.length = nonceLen ∧
      (frame.signed sha256).2.2.2.2.1.utf8ByteSize < 256 ∧ True := fun frame valid =>
    ⟨lt_of_isValidDomain valid.originDomain, lt_of_isValidDomain valid.destDomain, trivial,
      valid.nonce, lt_of_isValidPayloadType valid.payloadType, trivial⟩
  have fields := delimited_frameLayout.injective (short frame valid) (short frame' valid')
    (List.append_cancel_left same)
  obtain ⟨originDomain, destDomain, issuedMs, nonce, payloadType, payload⟩ := frame
  simp only [FrameFields.signed, Prod.mk.injEq] at fields
  obtain ⟨rfl, rfl, rfl, rfl, rfl, digests⟩ := fields
  obtain rfl := collisionFree member member' digests
  rfl

/-- A hash that was computed elsewhere is signed as if the payload were at hand. -/
theorem frameSigningBytesDigest_eq (frame : FrameFields) :
    frameSigningBytesDigest frame.originDomain frame.destDomain frame.issuedMs frame.nonce
        frame.payloadType (sha256 frame.payload).bytes = frameSigningBytes sha256 frame := by
  have known : ((sha256 frame.payload).bytes.length == 32) = true :=
    beq_iff_eq.2 (sha256 frame.payload).length_eq
  unfold frameSigningBytesDigest frameSigningBytes frameFields
  rw [known]
  rcases require (isValidDomain frame.originDomain && isValidDomain frame.destDomain) _
    with error | _
  · rfl
  rcases require (frame.nonce.length == nonceLen) _ with error | _
  · rfl
  rcases require (isValidPayloadType frame.payloadType) _ with error | _
  · rfl
  simp [require, bind, Except.bind, pure, Except.pure]

/-! ## Signatures -/

/-- A byte string is signed in one role only. -/
theorem Signs.unique {first second : Context} {message : Bytes}
    (signed : Signs first message) (signed' : Signs second message) : first = second := by
  have begins : ∀ {context : Context}, Signs context message ->
      ∃ rest, message = context.bytes ++ rest := by
    intro context signed
    cases signed with
    | op named => exact ⟨_, (opSigningBytes_eq_ok.1 named).2⟩
    | ctx context parts => exact ⟨_, rfl⟩
  obtain ⟨rest, equal⟩ := begins signed
  obtain ⟨rest', equal'⟩ := begins signed'
  exact Context.eq_of_append (equal.symm.trans equal')

/-- What is signed tells the operation, the frame and the role that it is signed for. -/
theorem signed_bytes_unambiguous :
    (∀ domain opType domain' opType' : String, ∀ body body' message : Bytes,
      opSigningBytes domain opType body = .ok message ->
      opSigningBytes domain' opType' body' = .ok message ->
      domain = domain' ∧ opType = opType' ∧ body = body') ∧
    (∀ (sha256 : Bytes -> Hash) (payloads : Set Bytes), Set.InjOn sha256 payloads ->
      ∀ frame frame' : FrameFields, frame.payload ∈ payloads -> frame'.payload ∈ payloads ->
      ∀ message, frameSigningBytes sha256 frame = .ok message ->
      frameSigningBytes sha256 frame' = .ok message -> frame = frame') ∧
    (∀ (sha256 : Bytes -> Hash) (frame : FrameFields),
      frameSigningBytesDigest frame.originDomain frame.destDomain frame.issuedMs frame.nonce
        frame.payloadType (sha256 frame.payload).bytes = frameSigningBytes sha256 frame) ∧
    ∀ (first second : Context) (message : Bytes),
      Signs first message -> Signs second message -> first = second := by
  refine ⟨?_, ?_, ?_, ?_⟩
  · intro domain opType domain' opType' body body' message signed signed'
    exact opSigningBytes_inj signed signed'
  · intro sha256 payloads collisionFree frame frame' member member' message signed signed'
    exact frameSigningBytes_inj collisionFree member member' signed signed'
  · intro sha256 frame
    exact frameSigningBytesDigest_eq frame
  · intro first second message signed signed'
    exact signed.unique signed'

/-- The hash of two payloads, of which the first is empty. -/
def sampleSha256 (payload : Bytes) : Hash :=
  if payload = [] then
    ⟨[227, 176, 196, 66, 152, 252, 28, 20, 154, 251, 244, 200, 153, 111, 185, 36, 39, 174, 65,
      228, 100, 155, 147, 76, 164, 149, 153, 27, 120, 82, 184, 85], rfl⟩
  else
    ⟨[186, 120, 22, 191, 143, 1, 207, 234, 65, 65, 64, 222, 93, 174, 34, 35, 176, 3, 97, 163,
      150, 23, 122, 156, 180, 16, 255, 97, 242, 0, 21, 173], rfl⟩

def sampleFrame : FrameFields :=
  ⟨"a.example", "b.example", 1700000000000, List.replicate 16 7, "parvane.core.v2.S2SRequest",
    utf8 "abc"⟩

/-- An operation, a frame with one of two payloads, and a role. -/
theorem signed_bytes_unambiguous_sample :
    (∀ domain opType : String, ∀ body : Bytes,
      opSigningBytes domain opType body = opSigningBytes "msg" "content" [1] ->
      (domain, opType, body) = ("msg", "content", [1])) ∧
    (∀ payload ∈ ({[], utf8 "abc"} : Set Bytes),
      frameSigningBytes sampleSha256 { sampleFrame with payload := payload } =
        frameSigningBytes sampleSha256 sampleFrame ->
      payload = utf8 "abc") ∧
    ∀ first : Context,
      Signs first (concat Context.token.bytes [[1], [2]]) -> first = .token := by
  have signed : ∃ message, opSigningBytes "msg" "content" [1] = .ok message :=
    ⟨_, opSigningBytes_eq_ok.2 ⟨by decide +kernel, rfl⟩⟩
  have framed : ∃ message, frameSigningBytes sampleSha256 sampleFrame = .ok message := by
    refine ⟨_, (frameSigningBytes_eq_ok sampleSha256).2 ⟨⟨?_, ?_, ?_, ?_⟩, rfl⟩⟩
    · decide +kernel
    · decide +kernel
    · decide +kernel
    · decide +kernel
  have collisionFree : Set.InjOn sampleSha256 {[], utf8 "abc"} := by
    have different : sampleSha256 [] ≠ sampleSha256 (utf8 "abc") := by decide +kernel
    rintro first (rfl | rfl) second (rfl | rfl) same
    · rfl
    · exact absurd same different
    · exact absurd same.symm different
    · rfl
  refine ⟨fun domain opType body same => ?_, fun payload member same => ?_, fun first other => ?_⟩
  · obtain ⟨message, made⟩ := signed
    obtain ⟨rfl, rfl, rfl⟩ :=
      signed_bytes_unambiguous.1 _ _ _ _ _ _ _ (same.trans made) made
    rfl
  · obtain ⟨message, made⟩ := framed
    have frames := signed_bytes_unambiguous.2.1 sampleSha256 _ collisionFree _ _ member
      (Set.mem_insert_of_mem _ (Set.mem_singleton _)) _ (same.trans made) made
    exact congrArg FrameFields.payload frames
  · exact signed_bytes_unambiguous.2.2.2 _ _ _ other (.ctx _ _)

end Parvane.Federation
