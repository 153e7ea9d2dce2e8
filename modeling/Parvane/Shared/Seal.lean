import Parvane.Domain.Access

/-!
# Operations of a shared container

An operation is encrypted with the key of its epoch and signed by the device that wrote
it.  A client checks the signature against the grants it knows, and the Lamport times
against the greatest that it has seen.  The keys of the epochs come from administrators.
-/

namespace Parvane.Shared

open Wire Sign Domain

def opOp : String := "op"
def keyLen : Nat := 32
def nonceLen : Nat := 12
def tagLen : Nat := 16
def lamportMaxJump : Nat := 2 ^ 20
def domainOpAad : Bytes := utf8 "parvane/v2/domain-op" ++ [0]

abbrev Key := FixedBytes keyLen

/-- The keys of the epochs that a client has. -/
abbrev KeyRing := Std.ExtTreeMap UInt64 Key

structure SealDigest where
  keyEpoch : UInt64
  ciphertextSha256 : Bytes
  uptoSeq : UInt64
  deriving DecidableEq

/-- An operation as it stands in the log of the server. -/
structure ContainerOp where
  container : Option Ref
  keyEpoch : UInt64
  aeadCiphertext : Bytes
  author : Option SignedOp
  seq : UInt64
  deriving DecidableEq

structure ContainerKeyShare where
  container : Option Ref
  domain : String
  keyEpoch : UInt64
  key : Bytes
  grantVersion : UInt64
  grantHeadHash : Bytes
  deriving DecidableEq

/-- Decoding and decryption, besides what grants need. -/
structure Library extends toDomain : Domain.Library where
  decodeSealDigest : Bytes -> Result SealDigest
  aeadDecrypt : Key -> (nonce aad ciphertext : Bytes) -> Result Bytes

section

variable (library : Library)

/-- Check the signature over an encrypted text. -/
def verifySealInner (author : Option SignedOp) (opType : String) (container : Option Ref)
    (epoch : UInt64) (ciphertext : Bytes) (upto : UInt64) :
    Result ContainerAccess.VerifiedSeal := do
  let author ← present author (.invalidField "author")
  let container ← present container (.invalidField "container")
  checkRef container
  require (epoch != 0) (.invalidField "key_epoch")
  require (nonceLen + tagLen ≤ ciphertext.length) (.invalidField "aead_ciphertext")
  let verified ← verifyOp library.toLibrary author signatureDomain opType none
  verified.requireTarget container
  let digest ← library.decodeSealDigest verified.payload
  require (digest.keyEpoch == epoch && digest.uptoSeq == upto) .contextMismatch
  require (digest.ciphertextSha256 == (library.sha256 ciphertext).bytes) .contextMismatch
  return ⟨verified.signer, verified.header.opId, verified.header.tsMs⟩

def verifyOpSeal (op : ContainerOp) : Result ContainerAccess.VerifiedSeal :=
  verifySealInner library op.author opOp op.container op.keyEpoch op.aeadCiphertext 0

/-- What the encryption is bound to. -/
def sealAad (context : Bytes) (container : Ref) (domain : String) (epoch : UInt64)
    (upto : Option UInt64) (opId : Bytes) : Bytes :=
  context ++ [UInt8.ofNat container.domain.utf8ByteSize] ++ utf8 container.domain ++
    container.id ++ [UInt8.ofNat domain.utf8ByteSize] ++ utf8 domain ++ bigEndian64 epoch ++
    (upto.elim [] bigEndian64) ++ opId

def aeadOpen (key : Key) (aad data : Bytes) : Result Bytes := do
  require (nonceLen + tagLen ≤ data.length) .crypto
  library.aeadDecrypt key (data.take nonceLen) aad (data.drop nonceLen)

/-- Decrypt an operation. -/
def openOp (op : ContainerOp) (container : Domain.Container) (key : Key) : Result Bytes := do
  let verified ← verifyOpSeal library op
  let ref ← containerRef container
  require (op.container == some ref) .contextMismatch
  aeadOpen library key
    (sealAad domainOpAad ref container.domain op.keyEpoch none verified.opId) op.aeadCiphertext

/-- The key epoch in the description of a container plays no part in decryption. -/
theorem openOp_congr {first second : Domain.Container}
    (op : ContainerOp) (key : Key) (sameRef : first.ref = second.ref)
    (sameDomain : first.domain = second.domain) :
    openOp library op first key = openOp library op second key := by
  simp only [openOp, containerRef, sameRef, sameDomain]

/-- The author of an operation, checked with the grants that are known. -/
def checkOpAuthor (access : ContainerAccess) (op : ContainerOp) (resolve : KeyResolver)
    (groups : Membership) : Result Author := do
  let ref ← containerRef access.container
  require (op.container == some ref) .contextMismatch
  let verified ← verifyOpSeal library op
  access.authorAt verified op.keyEpoch op.seq resolve groups

end

/-! ## Keys -/

/-- Take the key of an epoch from a user, who has to be an administrator.  The head that
the user saw has to be in the known log. -/
def acceptKeyShare (access : ContainerAccess) (share : ContainerKeyShare) (sender : String)
    (groups : Membership) : Result (UInt64 × Key) := do
  let ref ← containerRef access.container
  require (share.container == some ref && share.domain == access.container.domain)
    .contextMismatch
  require (access.canAdmin sender groups) .forbidden
  require (share.grantVersion.toNat ≤ access.version) .expired
  let known ← present access.hashes[share.grantVersion.toNat]? .brokenChain
  require (share.grantHeadHash == known.bytes) .brokenChain
  require (share.keyEpoch != 0 && share.keyEpoch ≤ access.epoch) (.invalidField "key_epoch")
  let key ← present (FixedBytes.ofBytes? keyLen share.key) (.invalidField "key")
  return (share.keyEpoch, key)

/-- The same for a user with several addresses: the first that is accepted, else the last
error that is no lack of rights. -/
def acceptKeyShareAny (access : ContainerAccess) (share : ContainerKeyShare)
    (groups : Membership) : List String -> ProtoError -> Result (UInt64 × Key)
  | [], last => .error last
  | sender :: senders, last =>
      match acceptKeyShare access share sender groups with
      | .ok accepted => .ok accepted
      | .error .forbidden => acceptKeyShareAny access share groups senders last
      | .error error => acceptKeyShareAny access share groups senders error

/-! ## Lamport times -/

/-- The greatest Lamport time that was seen. -/
@[ext] structure LamportGuard where
  maxSeen : UInt64 := 0
  deriving DecidableEq

def saturatingAdd (first : UInt64) (second : Nat) : UInt64 :=
  UInt64.ofNat (min (first.toNat + second) (UInt64.size - 1))

namespace LamportGuard

/-- A stamp must not jump ahead by too much. -/
def check (stamp : Stamp) : Update LamportGuard Unit := do
  let guard ← get
  require (!(stamp.lamport == 0 || saturatingAdd guard.maxSeen lamportMaxJump < stamp.lamport))
    (.invalidField "lamport")
  set ({ maxSeen := max guard.maxSeen stamp.lamport } : LamportGuard)

/-- The stamps of an operation one after the other. -/
def checkAll (stamps : List Stamp) : Update LamportGuard Unit :=
  stamps.forM check

end LamportGuard

end Parvane.Shared
