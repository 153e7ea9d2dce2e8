import Parvane.Core

/-!
# Signed operations

An operation is signed over the bytes in which it was sent.  After the signature the
bytes are decoded, and the header has to name the domain and the type that the signature
was checked for.  Hashing, signatures and decoding come from other libraries and are
parameters.
-/

namespace Parvane.Sign

open Wire

/-- Hashes and public keys. -/
abbrev Hash := FixedBytes 32

instance : Std.TransOrd Hash := inferInstance

theorem length_zeros : (List.replicate 32 (0 : UInt8)).length = 32 := rfl

structure SignedOp where
  body : Bytes
  signature : Bytes
  signerKey : Bytes
  deriving DecidableEq

/-- What a signed operation says about itself.  Fields that no check reads are left
out. -/
structure OpHeader where
  domain : String
  opType : String
  opId : Bytes
  target : Option Ref
  audience : List DeviceRef
  tsMs : Int64
  deriving DecidableEq

structure OpBody where
  header : Option OpHeader
  payload : Bytes
  deriving DecidableEq

/-- What is taken from other libraries. -/
structure Library where
  sha256 : Bytes -> Hash
  isVerifyingKey : Hash -> Bool
  verifyStrict : Hash -> Bytes -> FixedBytes 64 -> Bool
  decodeOpBody : Bytes -> Result OpBody

def opContext : Bytes := utf8 "parvane/v2/op"
def deviceCertContext : Bytes := utf8 "parvane/v2/device-cert" ++ [0]
def devicePossessionContext : Bytes := utf8 "parvane/v2/device-pop" ++ [0]
def selfSigningContext : Bytes := utf8 "parvane/v2/self-signing" ++ [0]
def deviceLogHashContext : Bytes := utf8 "parvane/v2/device-log" ++ [0]
def groupJoinContext : Bytes := utf8 "parvane/v2/group-join" ++ [0]
def groupEntryHashContext : Bytes := utf8 "parvane/v2/group-entry" ++ [0]
def groupGenesisContext : Bytes := utf8 "parvane/v2/group-genesis" ++ [0]
def domainGrantHashContext : Bytes := utf8 "parvane/v2/domain-grant" ++ [0]

def maxName : Nat := 32

def isValidName (name : String) : Bool :=
  !name.isEmpty && name.utf8ByteSize ≤ maxName &&
    name.toList.all fun c => c.isLower || c.isDigit || c == '_' || c == '.'

/-- The bytes that are signed. -/
def opSigningBytes (domain opType : String) (body : Bytes) : Result Bytes := do
  require (isValidName domain) (.invalidField "domain")
  require (isValidName opType) (.invalidField "op_type")
  return opContext ++ [UInt8.ofNat domain.utf8ByteSize] ++ utf8 domain ++
    [UInt8.ofNat opType.utf8ByteSize] ++ utf8 opType ++ body

/-- Sixteen bytes that form a UUID of version 7. -/
def isValidOpId (id : Bytes) : Bool :=
  id.length == 16 && (id.getD 6 0).toNat / 16 == 7

structure VerifiedOp where
  header : OpHeader
  payload : Bytes
  signer : Hash

/-- The operation is about the given object. -/
def VerifiedOp.requireTarget (verified : VerifiedOp) (expected : Ref) : Result Unit :=
  require (verified.header.target == some expected) .contextMismatch

section

variable (library : Library)

def verifyingKey (bytes : Bytes) : Result Hash := do
  let key ← present (FixedBytes.ofBytes? 32 bytes) .badSignature
  require (library.isVerifyingKey key) .badSignature
  return key

def signature (bytes : Bytes) : Result (FixedBytes 64) :=
  present (FixedBytes.ofBytes? 64 bytes) .badSignature

/-- Check the signature over the bytes that were sent, then decode them. -/
def verifyOp (op : SignedOp) (expectedDomain expectedOpType : String)
    (expectedSigner : Option Hash) : Result VerifiedOp := do
  let key ← verifyingKey library op.signerKey
  require (expectedSigner.all fun expected => key == expected) .badSignature
  let signed ← signature op.signature
  let message ← opSigningBytes expectedDomain expectedOpType op.body
  require (library.verifyStrict key message signed) .badSignature
  let body ← library.decodeOpBody op.body
  let header ← present body.header (.invalidField "header")
  require (header.domain == expectedDomain && header.opType == expectedOpType) .contextMismatch
  require (isValidOpId header.opId) (.invalidField "op_id")
  match header.target with
  | some target => checkRef target
  | none => pure ()
  header.audience.forM checkDevice
  return ⟨header, body.payload, key⟩

/-- Check a signature over a context and some parts. -/
def verifyCtx (key signed context : Bytes) (parts : List Bytes) : Result Unit := do
  let key ← verifyingKey library key
  let signed ← signature signed
  require (library.verifyStrict key (context ++ parts.flatten) signed) .badSignature

end

/-- The payload of a checked operation is that of its body. -/
theorem verifyOp_payload
    {sign : Library} {op : SignedOp} {domain opType : String} {expected : Option Hash}
    {verified : VerifiedOp} (ran : verifyOp sign op domain opType expected = .ok verified) :
    ∃ body, sign.decodeOpBody op.body = .ok body ∧ verified.payload = body.payload := by
  simp only [verifyOp, bind_eq_ok] at ran
  obtain ⟨_, -, _, -, _, -, _, -, _, -, body, decoded, header, -, _, -, _, -, ran⟩ := ran
  refine ⟨body, decoded, ?_⟩
  cases target : header.target <;>
    simp only [target, bind_eq_ok, pure, Except.pure, Except.ok.injEq] at ran
  · obtain ⟨_, -, rfl⟩ := ran
    rfl
  · obtain ⟨_, -, _, -, rfl⟩ := ran
    rfl

end Parvane.Sign
