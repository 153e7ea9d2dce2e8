import Parvane.Engine.DeviceLogs
import Parvane.Engine.Envelopes

/-!
# Signing

A device signs with the key of its account, and for the log of the user with the
self-signing key.  What encoders, signatures and the random source give is taken from
other libraries; every random value comes from a reading of its own.
-/

namespace Parvane.Engine

open Wire Sign Identity Parvane.Group Fallible

/-- What is taken from other libraries to send, besides what is needed to open. -/
structure SendingLibrary extends toOpening : Library where
  sign : SigningKey -> Bytes -> FixedBytes 64
  accountKey : Account -> Hash
  accountCurve : Account -> Hash
  accountSign : Account -> Bytes -> FixedBytes 64
  oneTimeKeys : Account -> Nat -> List (Bytes × Hash) × Account
  fallbackKey : Account -> Option Hash × Account
  /-- The values of the random source. -/
  drawOpId : Nat -> Bytes
  drawKey : Nat -> Hash
  drawBytes : Nat -> (length : Nat) -> Bytes
  encodeOpBody : OpHeader -> MsgHeader -> (payload : Bytes) -> Bytes
  encodeDeviceCertificate : DeviceCertificate -> (createdMs : Int64) -> Bytes
  encodeDeviceLogEntry : UserDeviceLogEntry -> Bytes
  encodeStateChange : GroupStateChange -> Bytes
  encodeContent : Content -> Bytes
  encodeSignedOp : SignedOp -> Bytes
  encodeSealedInner : SealedInner -> Bytes
  olmEncrypt : OlmSession -> Bytes -> Result (UInt32 × Bytes) × OlmSession
  hpkeSeal : (reading : Nat) -> (key : Hash) -> (info plain : Bytes) -> Result (Bytes × Bytes)
  aeadSeal : (key : Hash) -> (nonce aad plain : Bytes) -> Result Bytes

/-- A prekey with the signature of the device. -/
structure OneTimeKey where
  keyId : Bytes
  curve25519 : Bytes
  signature : Bytes
  deriving DecidableEq

/-- A request that the host has to send, with its method. -/
inductive OutRequest
  | logAppend (entry : SignedOp)
  | publishCertificate (entry : Option SignedOp) (oneTimeKeys : List OneTimeKey)
      (fallbackKey : Option OneTimeKey)
  | setDeliveryKey (key : Bytes)
  | group (method : String) (entry : GroupStateEntry)
  | deliverSealed (envelopes : List SealedEnvelope)
  | container (request : Bytes)
  deriving DecidableEq

/-- A key that signs, with its public half. -/
structure Signer where
  key : Hash
  sign : Bytes -> FixedBytes 64

def otkContext : Bytes := utf8 "parvane/v2/otk" ++ [0]

/-- The header of an operation that is no message. -/
def plainHeader : MsgHeader := ⟨none, [], 0⟩

section

variable (library : SendingLibrary)

def keySigner (key : SigningKey) : Signer := ⟨library.publicKey key, library.sign key⟩

def accountSigner (acc : Account) : Signer := ⟨library.accountKey acc, library.accountSign acc⟩

/-- Sign an operation. -/
def signOp (signer : Signer) (header : OpHeader) (msg : MsgHeader) (payload : Bytes) :
    Result SignedOp := do
  let body := library.encodeOpBody header msg payload
  let message ← opSigningBytes header.domain header.opType body
  return ⟨body, (signer.sign message).bytes, signer.key.bytes⟩

def signCtx (signer : Signer) (context : Bytes) (parts : List Bytes) : Bytes :=
  (signer.sign (context ++ parts.flatten)).bytes

def newOpId : Act Bytes := return library.drawOpId (← nextReading)

/-! ## Entries of device logs -/

/-- The next entry of the own log. -/
def deviceLogEntry (client : Client) (change : Identity.Change) : UserDeviceLogEntry where
  user := some ⟨client.user⟩
  version := UInt64.ofNat (client.ownLog.version + 1)
  prevHash := client.ownLog.headHash.bytes
  change := some change
  rootKey := []
  signOut := false
  renamedFrom := ""

def signDeviceLogEntry (signer : Signer) (entry : UserDeviceLogEntry) : Act SignedOp := do
  let opId ← newOpId library
  let now ← nowMs library.toOpening
  liftProto <|
    signOp library signer
      { domain := deviceLogDomain, opType := deviceLogOp, opId := opId, target := none
        audience := [], tsMs := now }
      plainHeader (library.encodeDeviceLogEntry entry)

/-- What the certificate of this device says. -/
def certificateBody (client : Client) : DeviceCertificate where
  user := some ⟨client.user⟩
  deviceId := client.deviceId
  olmCurve25519 := (library.accountCurve client.acc).bytes
  olmEd25519 := (library.accountKey client.acc).bytes
  hpkeX25519 := client.hpkePk.bytes
  features := []
  serial := client.certSerial
  possessionSignature := []

/-- The certificate with the next serial number, and the time at which it is made. -/
def myCertificateBody : Act (DeviceCertificate × Int64) := do
  modify fun client => { client with certSerial := client.certSerial + 1 }
  let now ← nowMs library.toOpening
  return (certificateBody library (← get), now)

/-- Sign a certificate to prove that its keys are those of the device. -/
def provePossession (signer : Signer) (cert : DeviceCertificate) (root : Hash) :
    Result DeviceCertificate := do
  require (signer.key.bytes == cert.olmEd25519) .badCertificate
  let parts ← possessionParts cert root
  return { cert with possessionSignature := signCtx signer devicePossessionContext [parts] }

/-- The signature of the root key over the self-signing key, from the last entries of the
own log to the first. -/
def findRootSignature (ssk : Hash) : List SignedOp -> Option Bytes
  | [] => none
  | op :: rest => do
      let entry ← peekLogEntry library.toOpening op
      match entry.change with
      | some (.rotateSelfSigningKey rotate) =>
          if rotate.selfSigningKey = ssk.bytes then some rotate.rootSignature
          else findRootSignature ssk rest
      | _ => findRootSignature ssk rest

def rootSignatureOverSsk (ssk : SigningKey) (entries : List SignedOp) : Option Bytes :=
  findRootSignature library (library.publicKey ssk) entries.reverse

/-- Prekeys, each with a signature. -/
def signedOtks (count : Nat) : Act (List OneTimeKey × Option OneTimeKey) :=
  modifyGet fun client =>
    let signed (keyId : Bytes) (key : Hash) : OneTimeKey :=
      ⟨keyId, key.bytes,
        signCtx (accountSigner library client.acc) otkContext [keyId, key.bytes]⟩
    let (keys, acc) := library.oneTimeKeys client.acc count
    let (fallback, acc) := library.fallbackKey acc
    ((keys.map fun key => signed key.1 key.2, fallback.map (signed (utf8 "fallback"))),
      { client with acc := acc })

/-- Put this device into the own log, with the self-signing key that it holds. -/
def certifySelfRequests (count : Nat) (genesis : Option SignedOp) : Act (List OutRequest) := do
  let ssk ← liftProto (present (← get).ssk .forbidden)
  let (body, now) ← myCertificateBody library
  let client ← get
  let cert ←
    liftProto (provePossession (accountSigner library client.acc) body client.ownLog.rootKey)
  let bytes := library.encodeDeviceCertificate cert now
  let rootSig ←
    liftProto (present (rootSignatureOverSsk library ssk client.ownEntries) .badCertificate)
  let signed : SignedDeviceCertificate :=
    { certificate := bytes
      selfSigningSignature := signCtx (keySigner library ssk) deviceCertContext [bytes]
      selfSigningKey := (library.publicKey ssk).bytes
      rootSignatureOverSelfSigning := rootSig
      rootKey := client.ownLog.rootKey.bytes }
  let op ←
    signDeviceLogEntry library (keySigner library ssk) (deviceLogEntry client (.addDevice signed))
  applyOwnEntry library.toOpening op
  modify fun client => { client with myCert := some signed }
  let (otks, fallback) ← signedOtks library count
  return (genesis.map OutRequest.logAppend).toList ++
    [.publishCertificate (some op) otks fallback, .setDeliveryKey (← get).dk.key.bytes]

end

end Parvane.Engine
