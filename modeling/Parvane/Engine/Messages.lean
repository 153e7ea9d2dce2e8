import Parvane.Group.Floors
import Parvane.Shared.Seal

/-!
# Envelopes and contents

A message to a user travels in a sealed envelope, one for each device; a message to a
group in one envelope for all its members.  Inside is an operation that the author
signed.  Decoding, decryption and the encoding of sessions come from other libraries.
-/

namespace Parvane.Engine

open Wire Sign Identity Parvane.Group

def msgDomain : String := "msg"
def contentOp : String := "content"
def callDomain : String := "call"
def callSignalOp : String := "signal"
def callIdLen : Nat := 16

/-- An account and the sessions with other devices, as they are stored. -/
abbrev Account := Bytes
abbrev OlmSession := Bytes
abbrev MegolmSession := Bytes

/-- The secret half of a signing key. -/
abbrev SigningKey := Hash

/-! ## Errors -/

/-- What the host has to fetch before it tries again. -/
inductive Need
  | peerLog (user : String) (after : Nat)
  | bundle (user : String)
  | token (user : String)
  | rootChanged (user : String)
  | groupLog (group : Bytes) (after : Nat)
  | groupKeys (group : Bytes) (epoch : Nat)
  | forbidden
  deriving DecidableEq

inductive ClientError
  | need (need : Need)
  | proto (error : ProtoError)
  deriving DecidableEq

/-! ## Contents -/

structure DeliveryKeyShare where
  deliveryKey : Bytes
  generation : UInt64
  deriving DecidableEq

structure StateKeyShare where
  user : Option UserRef
  stateKey : Bytes
  keyVersion : UInt32
  deriving DecidableEq

/-- The state of a group that its author saw. -/
structure GroupContext where
  group : Option Ref
  epoch : UInt64
  stateVersion : UInt64
  stateHeadHash : Bytes
  deriving DecidableEq

/-- The keys of a group.  The secrets of invitations are left out. -/
structure GroupKeyShare where
  context : Option GroupContext
  envelopeKey : Bytes
  megolmSessionKey : Bytes
  sendPrivateKey : Bytes
  megolmExported : Bytes
  megolmOwner : String
  deriving DecidableEq

/-- The kinds of contents, each with what the engine reads of it. -/
inductive ContentKind
  | text (hasPreview : Bool)
  | media (isAnimation : Bool)
  | sticker
  | poll
  | pin
  | article (hasMedia : Bool)
  | edit (hasPreview : Bool)
  | receipt
  | chatMode (l2 : Bool)
  | deliveryKey (share : DeliveryKeyShare)
  | stateKey (share : StateKeyShare)
  | containerKey (share : Shared.ContainerKeyShare)
  | groupKey (share : GroupKeyShare)
  | other
  deriving DecidableEq

structure Content where
  kind : Option ContentKind
  deriving DecidableEq

structure CallSignal where
  callId : Bytes
  isHangup : Bool
  deriving DecidableEq

/-! ## Envelopes -/

structure AnonToken where
  keyId : Bytes
  nonce : Bytes
  signature : Bytes
  msgRandomizer : Bytes
  deriving DecidableEq

/-- The right to deliver to a user. -/
inductive Access
  | deliveryKey (key : Bytes)
  | anonToken (token : AnonToken)
  deriving DecidableEq

structure SealedEnvelope where
  recipient : Option DeviceRef
  access : Option Access
  hpkeEnc : Bytes
  ciphertext : Bytes
  deriving DecidableEq

structure SealedInner where
  sender : Option SignedDeviceCertificate
  olmMessage : Bytes
  olmType : UInt32
  padding : Bytes
  deriving DecidableEq

structure GroupEnvelope where
  group : Option Ref
  epoch : UInt64
  epochAeadCiphertext : Bytes
  envelopeNonce : Bytes
  epochSignature : Bytes
  deriving DecidableEq

structure GroupEnvelopeInner where
  megolmSessionId : Bytes
  megolmMessage : Bytes
  padding : Bytes
  publicSession : Bytes
  deriving DecidableEq

structure GroupPlaintext where
  sender : Option SignedDeviceCertificate
  op : Option SignedOp
  deriving DecidableEq

/-- To whom a message was written. -/
inductive Conversation
  | directPeer (user : UserRef)
  | group (context : GroupContext)
  deriving DecidableEq

/-- The fields of a header that only messages have. -/
structure MsgHeader where
  conversation : Option Conversation
  criticalFields : List UInt32
  authorLogVersion : UInt64
  deriving DecidableEq

/-- What is taken from other libraries to open messages: encryption to a device, the
sessions between devices and in groups, and the decoders.  The content guard, which cleans
a content before it is shown, is left open too. -/
structure Library extends toGroup : Group.Library where
  hpkeKeys : (secret : Hash) -> (enc : Bytes) -> Result Unit
  hpkeOpen : (secret : Hash) -> (info enc ciphertext : Bytes) -> Result Bytes
  aeadOpen : (key : Hash) -> (nonce aad ciphertext : Bytes) -> Result Bytes
  hkdf : (secret : Hash) -> (info : Bytes) -> Hash
  publicKey : SigningKey -> Hash
  prekeySenderIdentity : Bytes -> Result Hash
  matchesPrekey : OlmSession -> Bytes -> Bool
  olmDecrypt : OlmSession -> UInt32 -> Bytes -> Result Bytes × OlmSession
  olmInbound : Account -> Hash -> Bytes -> Result (OlmSession × Bytes) × Account
  megolmOfKey : Bytes -> Result MegolmSession
  megolmImport : Bytes -> Result MegolmSession
  megolmId : MegolmSession -> Bytes
  megolmDecrypt : MegolmSession -> Bytes -> Result (Bytes × UInt32) × MegolmSession
  decodeSealedInner : Bytes -> Result SealedInner
  decodeSignedOp : Bytes -> Result SignedOp
  decodeMsgHeader : Bytes -> MsgHeader
  decodeContent : Bytes -> Result Content
  decodeCallSignal : Bytes -> Result CallSignal
  decodeGroupEnvelopeInner : Bytes -> Result GroupEnvelopeInner
  decodeGroupPlaintext : Bytes -> Result GroupPlaintext
  sanitizeContent : Content -> Content
  contentFieldKnown : UInt32 -> Bool
  /-- The readings of the clock, one after the other. -/
  clock : Nat -> Int64

/-- What signatures need. -/
abbrev Library.sign (library : Library) : Sign.Library :=
  library.toGroup.toIdentity.toLibrary

/-- Decide if bytes are a text. -/
def isText (bytes : Bytes) : Bool :=
  (ByteArray.mk bytes.toArray).validateUTF8

/-! ## Keys of maps -/

instance : LinearOrder DeviceRef :=
  LinearOrder.lift' (fun device => toLex (device.address, device.deviceId))
    fun first second equal => by
      cases first
      cases second
      simpa using equal

instance : Std.LawfulEqOrd DeviceRef where
  eq_of_compare := compare_eq_iff_eq.1

instance : Std.TransOrd DeviceRef := inferInstance

/-- An epoch of a group. -/
structure EpochRef where
  group : Bytes
  epoch : Nat
  deriving DecidableEq

instance : LinearOrder EpochRef :=
  LinearOrder.lift' (fun epoch => toLex (epoch.group, epoch.epoch))
    fun first second equal => by
      cases first
      cases second
      simpa using equal

instance : Std.LawfulEqOrd EpochRef where
  eq_of_compare := compare_eq_iff_eq.1

instance : Std.TransOrd EpochRef := inferInstance

/-- The session of an epoch was given to a member. -/
structure SharedMark where
  group : Bytes
  epoch : Nat
  user : String
  deriving DecidableEq

instance : LinearOrder SharedMark :=
  LinearOrder.lift' (fun mark => toLex (mark.group, toLex (mark.epoch, mark.user)))
    fun first second equal => by
      cases first
      cases second
      simpa using equal

instance : Std.LawfulEqOrd SharedMark where
  eq_of_compare := compare_eq_iff_eq.1

instance : Std.TransOrd SharedMark := inferInstance

end Parvane.Engine
