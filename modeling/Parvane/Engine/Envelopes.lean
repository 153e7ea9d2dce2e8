import Parvane.Engine.Client

/-!
# Opening envelopes

The checks that a message passes before it is taken in, each function as it computes.  An
operation is marked as seen in the middle of them.
-/

namespace Parvane.Engine

open Wire Sign Identity Parvane.Group

def sealedInfoContext : Bytes := utf8 "parvane/v2/sealed" ++ [0]
def maxOldSessions : Nat := 4

/-- The user of a certificate. -/
def userOfDevice (device : VerifiedDevice) : String :=
  (device.cert.user.map UserRef.address).getD ""

/-- How a content is shown. -/
inductive Disposition
  | show
  | stub
  deriving DecidableEq

/-- A message that passed the checks. -/
structure Opened where
  sender : VerifiedDevice
  header : OpHeader
  msg : MsgHeader
  content : Content
  disposition : Disposition

structure OpenedCall where
  sender : VerifiedDevice
  header : OpHeader
  signal : CallSignal

inductive OpenedSealed
  | message (opened : Opened)
  | call (opened : OpenedCall)

section

variable (library : Library)

/-! ## The outer layer -/

def sealedInfo (recipient : DeviceRef) : Result Bytes := do
  checkDevice recipient
  return sealedInfoContext ++ utf8 recipient.address ++ [0] ++ utf8 recipient.deviceId

/-- Open the outer layer, which has to be for this device. -/
def openSeal (env : SealedEnvelope) (me : DeviceRef) (secret : Hash) : Result SealedInner := do
  require (env.recipient == some me) .contextMismatch
  library.hpkeKeys secret env.hpkeEnc
  let info ← sealedInfo me
  let plain ← mapError (library.hpkeOpen secret info env.hpkeEnc env.ciphertext) .crypto
  library.decodeSealedInner plain

/-! ## Sessions with devices -/

/-- Decrypt with the session in use, if the message may belong to it. -/
def decryptCurrent (device : DeviceRef) (type : UInt32) (bytes : Bytes) (client : Client) :
    Option Bytes × Client :=
  match (client.sessions[device]? : Option OlmSession) with
  | none => (none, client)
  | some session =>
      if type == 1 || library.matchesPrekey session bytes then
        let decrypted := library.olmDecrypt session type bytes
        (decrypted.1.toOption,
          { client with sessions := client.sessions.insert device decrypted.2 })
      else (none, client)

/-- The first of several sessions that decrypts the message, and the sessions without it. -/
def trySessions (type : UInt32) (bytes : Bytes) :
    List OlmSession -> List OlmSession -> Option (Bytes × OlmSession) × List OlmSession
  | tried, [] => (none, tried)
  | tried, session :: rest =>
      if type != 1 && !library.matchesPrekey session bytes then
        trySessions type bytes (tried ++ [session]) rest
      else
        match library.olmDecrypt session type bytes with
        | (.ok plain, used) => (some (plain, used), tried ++ rest)
        | (.error _, used) => trySessions type bytes (tried ++ [used]) rest

/-- Decrypt with a session that was superseded; it comes into use again. -/
def decryptOld (device : DeviceRef) (type : UInt32) (bytes : Bytes) (client : Client) :
    Option Bytes × Client :=
  match (client.oldSessions[device]? : Option (List OlmSession)) with
  | none => (none, client)
  | some olds =>
      match trySessions library type bytes [] olds with
      | (none, tried) =>
          (none, { client with oldSessions := client.oldSessions.insert device tried })
      | (some (plain, session), rest) =>
          let kept := rest ++ (client.sessions[device]? : Option OlmSession).toList
          (some plain,
            { client with
              sessions := client.sessions.insert device session
              oldSessions := client.oldSessions.insert device kept })

/-- Start a session from a first message; the one in use is superseded. -/
def decryptInbound (device : DeviceRef) (identity : Hash) (type : UInt32) (bytes : Bytes)
    (client : Client) : Result Bytes × Client :=
  if type != 0 then (.error .crypto, client)
  else
    match library.olmInbound client.acc identity bytes with
    | (.error error, acc) => (.error error, { client with acc := acc })
    | (.ok (session, plain), acc) =>
        let oldSessions :=
          match (client.sessions[device]? : Option OlmSession) with
          | none => client.oldSessions
          | some previous =>
              let olds := (client.oldSessions[device]?.getD [] : List OlmSession) ++ [previous]
              client.oldSessions.insert device
                (if olds.length > maxOldSessions then olds.drop 1 else olds)
        (.ok plain,
          { client with
            acc := acc
            sessions := client.sessions.insert device session
            oldSessions := oldSessions })

/-- Decrypt a message of a device with any of the sessions. -/
def decrypt (device : DeviceRef) (identity : Hash) (type : UInt32) (bytes : Bytes)
    (client : Client) : Result Bytes × Client :=
  match decryptCurrent library device type bytes client with
  | (some plain, later) => (.ok plain, later)
  | (none, later) =>
      match decryptOld library device type bytes later with
      | (some plain, last) => (.ok plain, last)
      | (none, last) => decryptInbound library device identity type bytes last

/-! ## The operation inside -/

/-- An operation of a sealed envelope that is about to be marked: a message, or the signal
of a call. -/
structure Unsealed where
  sender : VerifiedDevice
  verified : VerifiedOp
  msg : MsgHeader
  signal : Option CallSignal

/-- The key under which an operation of a device is marked. -/
def opKey (sender : VerifiedDevice) (opId : Bytes) : Bytes :=
  seenKey [utf8 (userOfDevice sender), utf8 sender.cert.deviceId, opId]

def requireAudience (header : OpHeader) (me : DeviceRef) : Result Unit :=
  require (header.audience.any fun device => device == me) .contextMismatch

/-- A first message names the device that it comes from. -/
def checkIdentity (inner : SealedInner) (identity : Hash) : Result Unit :=
  if inner.olmType == 0 then do
    let named ← library.prekeySenderIdentity inner.olmMessage
    require (named == identity) .badCertificate
  else .ok ()

/-- The signal of a call: it is for this device, and about the call that it names. -/
def readCall (sender : VerifiedDevice) (op : SignedOp) (signer : Hash) (me : DeviceRef)
    (notMessage : ProtoError) : Result Unsealed := do
  let verified ←
    mapError (verifyOp library.sign op callDomain callSignalOp (some signer)) notMessage
  requireAudience verified.header me
  let signal ← library.decodeCallSignal verified.payload
  require
    (verified.header.target.any fun target =>
      target.id.length == callIdLen && target.id == signal.callId)
    .contextMismatch
  return ⟨sender, verified, library.decodeMsgHeader op.body, some signal⟩

/-- A message to this user, or a copy of one that another device of the user sent. -/
def readMessage (sender : VerifiedDevice) (op : SignedOp) (verified : VerifiedOp)
    (me : DeviceRef) (callOnly : Bool) : Result Unsealed := do
  require (!callOnly) .contextMismatch
  let msg := library.decodeMsgHeader op.body
  require
    (match msg.conversation with
      | some (.directPeer peer) =>
          userOfDevice sender == me.address || peer.address == me.address
      | _ => false)
    .contextMismatch
  requireAudience verified.header me
  return ⟨sender, verified, msg, none⟩

/-- The operation in the decrypted text. -/
def readOp (sender : VerifiedDevice) (plain : Bytes) (me : DeviceRef) (callOnly : Bool) :
    Result Unsealed := do
  let op ← library.decodeSignedOp plain
  let signer ← key32 sender.cert.olmEd25519
  match verifyOp library.sign op msgDomain contentOp (some signer) with
  | .ok verified => readMessage library sender op verified me callOnly
  | .error notMessage => readCall library sender op signer me notMessage

/-- All checks before the operation is marked. -/
def checkSealed (inner : SealedInner) (me : DeviceRef) (device : DeviceRef) (callOnly : Bool) :
    Act Unsealed := do
  let cert ← liftProto (present inner.sender (.invalidField "sender"))
  let sender ← liftProto (verifyCertificate library.toIdentity cert none)
  let identity ← liftProto (key32 sender.cert.olmCurve25519)
  liftProto (checkIdentity library inner identity)
  let plain ← modifyGet fun client =>
    decrypt library device identity inner.olmType inner.olmMessage client
  let plain ← liftProto plain
  liftProto (readOp library sender plain me callOnly)

/-- Decode and clean the content. -/
def finish (sender : VerifiedDevice) (verified : VerifiedOp) (msg : MsgHeader) :
    Result Opened := do
  let content ← library.decodeContent verified.payload
  let disposition :=
    if content.kind.isNone || msg.criticalFields.any (fun field => !library.contentFieldKnown field)
    then .stub else .show
  return ⟨sender, verified.header, msg, library.sanitizeContent content, disposition⟩

def finishSealed (unsealed : Unsealed) : Result OpenedSealed :=
  match unsealed.signal with
  | some signal => .ok (.call ⟨unsealed.sender, unsealed.verified.header, signal⟩)
  | none => do
      let opened ← finish library unsealed.sender unsealed.verified unsealed.msg
      return .message opened

/-! ## Marks -/

def nowMs : Act Int64 := do
  let reading ← nextReading
  return library.clock reading

/-- Mark an operation as seen; it must not have been seen before. -/
def insertOnce (key : Bytes) : Act Unit := do
  let client ← get
  let hash := seenHash library.sign key
  let seen ← liftProto (client.seen.checkAndInsert hash)
  let now ← nowMs library
  modify fun client =>
    { client with seen := seen, seenList := keepLast seenCap (client.seenList ++ [(hash, now)]) }

/-- Open the inner layer of a sealed envelope. -/
def openSealedOpMode (inner : SealedInner) (me : DeviceRef) (device : DeviceRef)
    (callOnly : Bool) : Act OpenedSealed := do
  let unsealed ← checkSealed library inner me device callOnly
  insertOnce library (opKey unsealed.sender unsealed.verified.header.opId)
  liftProto (finishSealed library unsealed)

end

/-! ## Group envelopes -/

inductive ContextVerdict
  | ok
  | behind
  | fork
  | wrongGroup
  deriving DecidableEq

/-- Compare the state that an author saw with the own one. -/
def checkContext (state : GroupState) (context : GroupContext) : ContextVerdict :=
  if context.group ≠ some state.group then .wrongGroup
  else if state.version < context.stateVersion.toNat then .behind
  else if context.stateVersion = 0 then .fork
  else
    match state.hashes[context.stateVersion.toNat - 1]? with
    | some hash => if hash.bytes = context.stateHeadHash then .ok else .fork
    | none => .fork

/-- The content is one that the member may send. -/
def contentAllowed (state : GroupState) (user : String) (content : Content) (now : Int64) :
    Bool :=
  let permissions := state.defaultPermissions
  state.canWrite user now && (state.isAdmin user ||
    match content.kind with
    | some (.media isAnimation) =>
        if isAnimation then permissions.sendStickersGifs else permissions.sendMedia
    | some .sticker => permissions.sendStickersGifs
    | some .poll => permissions.sendPolls
    | some (.text hasPreview) => permissions.embedLinks || !hasPreview
    | some .pin => permissions.pinMessages
    | some (.article hasMedia) => permissions.sendMedia || !hasMedia
    | some (.edit hasPreview) => permissions.embedLinks || !hasPreview
    | _ => true)

/-- A decrypted group message with its place in the session. -/
structure GroupIncoming where
  envelopeEpoch : UInt64
  plaintext : Bytes
  sessionId : Bytes
  index : UInt32

section

variable (library : Library)

def envelopeAad (group : Ref) (epoch : UInt64) (nonce : Bytes) : Bytes :=
  utf8 group.domain ++ [0] ++ group.id ++ bigEndian64 epoch ++ nonce

/-- Open the outer layer of a group envelope. -/
def openEnvelope (env : GroupEnvelope) (envelopeKey : Hash) : Result GroupEnvelopeInner := do
  let group ← present env.group (.invalidField "group")
  require (env.envelopeNonce.length == 16) (.invalidField "envelope_nonce")
  let plain ←
    mapError
      (library.aeadOpen envelopeKey (env.envelopeNonce.take 12)
        (envelopeAad group env.epoch env.envelopeNonce) env.epochAeadCiphertext)
      .crypto
  library.decodeGroupEnvelopeInner plain

/-- The key that a public group derives for the bundle of an epoch. -/
def bundleKey (secret : Hash) (group : Ref) (epoch : Nat) : Hash :=
  library.hkdf secret
    (utf8 "parvane/v2/public-epoch" ++ [0] ++ group.id ++ bigEndian64 (UInt64.ofNat epoch))

/-- The keys of an epoch that a public group publishes. -/
def openPublicBundle (secret : Hash) (group : Ref) (epoch : Nat) (bundle : Bytes) :
    Result (Hash × SigningKey) := do
  require (12 ≤ bundle.length) .crypto
  let plain ←
    mapError
      (library.aeadOpen (bundleKey library secret group epoch) (bundle.take 12) group.id
        (bundle.drop 12))
      .crypto
  require (plain.length == 64) .crypto
  let envelopeKey ← present (FixedBytes.ofBytes? 32 (plain.take 32)) .crypto
  let sendSk ← present (FixedBytes.ofBytes? 32 (plain.drop 32)) .crypto
  return (envelopeKey, sendSk)

/-- The state that the author saw must be one of the group, and not a later one. -/
def checkConversation (state : GroupState) (msg : MsgHeader) (envelopeEpoch : UInt64) :
    Result Unit :=
  match msg.conversation with
  | some (.group context) => do
      require (context.epoch == envelopeEpoch) .contextMismatch
      match checkContext state context with
      | .ok => .ok ()
      | .behind => .error .brokenChain
      | .fork | .wrongGroup => .error .contextMismatch
  | _ => .error .contextMismatch

/-- All checks of a group message before it is marked. -/
def checkGroup (state : GroupState) (incoming : GroupIncoming)
    (deviceActive : VerifiedDevice -> Bool) (now : Int64) : Result Opened := do
  let plaintext ← library.decodeGroupPlaintext incoming.plaintext
  let cert ← present plaintext.sender (.invalidField "sender")
  let sender ← verifyCertificate library.toIdentity cert none
  require (deviceActive sender) .forbidden
  let op ← present plaintext.op (.invalidField "op")
  let signer ← key32 sender.cert.olmEd25519
  let verified ← verifyOp library.sign op msgDomain contentOp (some signer)
  let msg := library.decodeMsgHeader op.body
  checkConversation state msg incoming.envelopeEpoch
  verified.requireTarget state.group
  let opened ← finish library sender verified msg
  require (contentAllowed state (userOfDevice opened.sender) opened.content now) .forbidden
  return opened

/-- The key under which a place in a group session is marked. -/
def megolmKey (sessionId : Bytes) (index : UInt32) : Bytes :=
  seenKey [utf8 "megolm", sessionId, bigEndian32 index.toNat]

/-- The version of the group log to which a message refers. -/
def groupContextVersion (plain : Bytes) : Option UInt64 := do
  let plaintext ← (library.decodeGroupPlaintext plain).toOption
  let op ← plaintext.op
  let body ← (library.decodeOpBody op.body).toOption
  let _ ← body.header
  match (library.decodeMsgHeader op.body).conversation with
  | some (.group context) => some context.stateVersion
  | _ => none

/-- The author that a decrypted message names. -/
def groupPlaintextAuthor (plain : Bytes) : Option String := do
  let plaintext ← (library.decodeGroupPlaintext plain).toOption
  let cert ← plaintext.sender
  let sender ← (verifyCertificate library.toIdentity cert none).toOption
  return userOfDevice sender

end

end Parvane.Engine
