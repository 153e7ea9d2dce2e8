import Parvane.Engine.Envelopes

/-!
# Taking messages in

The client opens an envelope, marks the operation as seen and acts on its content.  A
group envelope whose keys are missing waits for them.
-/

namespace Parvane.Engine

open Wire Sign Identity Parvane.Group

/-- What the host is told. -/
inductive Event
  | direct (seq : UInt64) (chat «from» device : String) (opId : Bytes) (tsMs : Int64)
      (content : Content) (disposition : Disposition)
  | group (seq : UInt64) (group : Ref) («from» device : String) (opId : Bytes) (tsMs : Int64)
      (content : Content) (disposition : Disposition)
  | groupChanged (seq : UInt64) (group : Ref) (version : Nat)
  | call («from» device : String) (callId : Bytes) (tsMs : Int64) (signal : CallSignal)
  | stateKeyRotated (seq : UInt64) (keyVersion : UInt32)
  /-- The key of a container, for the part of the client that has the containers. -/
  | containerKey (seq : UInt64) («from» : String) (share : Shared.ContainerKeyShare)
  | internal (seq : UInt64)
  | skipped (seq : UInt64)

/-! ## Notes about other logs -/

/-- A member refers to a later version of the group log. -/
def markBehind (id : Bytes) (claimed : Nat) (client : Client) : Client :=
  match (client.groups[id]? : Option GroupLocal) with
  | none => client
  | some group =>
      if (group.state.map GroupState.version).getD 0 < claimed then
        { client with
          groups := client.groups.insert id
            { group with behind := some (group.behind.elim claimed (max claimed)) } }
      else client

/-- The author of a message refers to a version of the own device log. -/
def noteAuthorLog (user : String) (version : UInt64) (client : Client) : Client :=
  if client.logVersion user < version.toNat then
    { client with
      logBehind := client.logBehind.insert user
        (max ((client.logBehind[user]? : Option Nat).getD 0) version.toNat) }
  else { client with logBehind := client.logBehind.erase user }

section

variable (library : Library)

/-! ## Keys of groups -/

/-- The secret sending key of a share; it has to fit the public one in the group log. -/
def sendSecret (share : GroupKeyShare) (state : GroupState) : Result (Option SigningKey) :=
  if share.sendPrivateKey.length = 32 then do
    let key ← present (FixedBytes.ofBytes? 32 share.sendPrivateKey) .crypto
    require (some (library.publicKey key) == state.sendPublicKey) .badSignature
    return some key
  else .ok none

/-- The keys of the epoch come from an administrator or another device of the user.  A known
key is only replaced by a share that also holds the sending key. -/
def acceptEpochKeys (sender : String) (share : GroupKeyShare) (id : Bytes) (epoch : UInt64)
    (state : GroupState) : Act Unit :=
  if share.envelopeKey.isEmpty then pure ()
  else do
    let client ← get
    let admin := state.owner == sender ||
      (state.members[sender]? : Option Member).any fun member => member.role == .admin
    liftProto
      (require ((admin || sender == client.user) && epoch.toNat == state.epoch) .forbidden)
    let key ←
      liftProto (present (FixedBytes.ofBytes? 32 share.envelopeKey) (.invalidField "envelope_key"))
    let sendSk ← liftProto (sendSecret library share state)
    let known : Option EpochKeys := client.epochKeys[(⟨id, epoch.toNat⟩ : EpochRef)]?
    liftProto
      (require (sendSk.isSome || known.all fun known => known.envelopeKey == key) .forbidden)
    modify fun client =>
      { client with epochKeys := client.epochKeys.insert ⟨id, epoch.toNat⟩ ⟨key, sendSk⟩ }

/-- The session in which the sender writes. -/
def acceptSession (sender : String) (share : GroupKeyShare) (id : Bytes) (epoch : UInt64) :
    Act Unit :=
  if share.megolmSessionKey.isEmpty then pure ()
  else do
    let client ← get
    let session ← liftProto (library.megolmOfKey share.megolmSessionKey)
    let known : Option Inbound := client.megolmIn[library.megolmId session]?
    liftProto (require (known.all fun known => known.sender == sender) .forbidden)
    modify fun client =>
      { client with
        megolmIn := client.megolmIn.insert (library.megolmId session)
          ⟨id, epoch.toNat, sender, session⟩ }

/-- The session of another member, passed on by another device of the user. -/
def acceptExported (sender : String) (share : GroupKeyShare) (id : Bytes) (epoch : UInt64) :
    Act Unit :=
  if share.megolmExported.isEmpty then pure ()
  else do
    let client ← get
    liftProto (require (sender == client.user && share.megolmOwner != "") .forbidden)
    let session ← liftProto (library.megolmImport share.megolmExported)
    modify fun client =>
      { client with
        megolmIn := client.megolmIn.insertIfNew (library.megolmId session)
          ⟨id, epoch.toNat, share.megolmOwner, session⟩ }

/-- The sender has to be a member, and the state to which the share refers to be known. -/
def checkShare (sender : String) (context : GroupContext) (id : Bytes) (state : GroupState) :
    Act Unit :=
  if !state.members.contains sender then
    if checkContext state context = .behind then throw (.need (.groupLog id state.version))
    else throw (.proto .forbidden)
  else
    match checkContext state context with
    | .ok => pure ()
    | .behind => do
        modify (markBehind id context.stateVersion.toNat)
        throw (.need (.groupLog id state.version))
    | .fork | .wrongGroup => throw (.proto .contextMismatch)

/-- Take in the keys of a group. -/
def acceptGroupKey (sender : String) (share : GroupKeyShare) : Act Unit := do
  let context ← liftProto (present share.context (.invalidField "context"))
  let group ← liftProto (present context.group (.invalidField "group"))
  let client ← get
  let state ← liftM (fetched (client.groupState group.id) (.groupLog group.id 0))
  checkShare sender context group.id state
  acceptEpochKeys library sender share group.id context.epoch state
  acceptSession library sender share group.id context.epoch
  acceptExported library sender share group.id context.epoch

def pendingKeysPerGroup : Nat := 4
def pendingKeysTotal : Nat := 256

/-- The group that a share is about. -/
def shareGroup (share : GroupKeyShare) : Bytes :=
  ((share.context.bind GroupContext.group).map Ref.id).getD []

/-- Keep a share until the group log is known. -/
def pushPendingKey (sender : String) (share : GroupKeyShare) (client : Client) : Client :=
  let same := client.pendingKeys.countP fun pending => shareGroup pending.2 == shareGroup share
  if pendingKeysTotal ≤ client.pendingKeys.length || pendingKeysPerGroup ≤ same then client
  else { client with pendingKeys := client.pendingKeys ++ [(sender, share)] }

/-! ## Group messages -/

/-- Take the keys of an epoch from what a public group publishes. -/
def takePublicEpochKeys (state : GroupState) (epoch : UInt64) (client : Client) : Client :=
  let ref : EpochRef := ⟨state.group.id, epoch.toNat⟩
  if client.epochKeys.contains ref then client
  else
    match state.isPublic, (state.publicBundles[epoch.toNat]? : Option Bytes) with
    | some info, some bundle =>
        match openPublicBundle library info.secret state.group epoch.toNat bundle with
        | .ok (envelopeKey, sendSk) =>
            { client with
              epochKeys := client.epochKeys.insert ref ⟨envelopeKey, some sendSk⟩ }
        | .error _ => client
    | _, _ => client

/-- A decrypted group message: its text, its place in the session and the owner of the
session. -/
structure Decrypted where
  plain : Bytes
  index : UInt32
  expectedSender : String

/-- Decrypt a message of a public group with the session that it carries. -/
def openPublicSession (inner : GroupEnvelopeInner) : Result Decrypted := do
  let session ← library.megolmOfKey inner.publicSession
  require (library.megolmId session == inner.megolmSessionId) .contextMismatch
  let decrypted ← (library.megolmDecrypt session inner.megolmMessage).1
  let author ← present (groupPlaintextAuthor library decrypted.1) .badCertificate
  return ⟨decrypted.1, decrypted.2, author⟩

/-- Decrypt with a session that is known. -/
def decryptKnown (group : Bytes) (epoch : UInt64) (inner : GroupEnvelopeInner)
    (inbound : Inbound) : Act Decrypted := do
  liftProto (require (inbound.group == group && inbound.epoch == epoch.toNat) .contextMismatch)
  let decrypted := library.megolmDecrypt inbound.session inner.megolmMessage
  modify fun client =>
    { client with
      megolmIn := client.megolmIn.insert inner.megolmSessionId
        { inbound with session := decrypted.2 } }
  match decrypted.1 with
  | .ok (plain, index) => pure ⟨plain, index, inbound.sender⟩
  | .error error =>
      if inner.publicSession.isEmpty then throw (.proto error)
      else liftProto (openPublicSession library inner)

/-- Decrypt with the session that the message of a public group carries, and keep it. -/
def decryptPublic (group : Bytes) (epoch : UInt64) (inner : GroupEnvelopeInner) :
    Act Decrypted := do
  let opened ← liftProto (openPublicSession library inner)
  match library.megolmOfKey inner.publicSession with
  | .error _ => pure opened
  | .ok session => do
      modify fun client =>
        { client with
          megolmIn := client.megolmIn.insert inner.megolmSessionId
            ⟨group, epoch.toNat, opened.expectedSender, session⟩ }
      return opened

/-- Decrypt a group message. -/
def decryptGroup (group : Bytes) (epoch : UInt64) (inner : GroupEnvelopeInner) :
    Act Decrypted := do
  let client ← get
  match (client.megolmIn[inner.megolmSessionId]? : Option Inbound) with
  | some inbound => decryptKnown library group epoch inner inbound
  | none =>
      if inner.publicSession.isEmpty then throw (.need (.groupKeys group epoch.toNat))
      else decryptPublic library group epoch inner

/-- The log by which the device of an author is judged. -/
def resolveLog (client : Client) (user : String) : Option DeviceLog :=
  ((client.peers[user]? : Option Peer).bind Peer.log).or
    (if user = client.user then some client.ownLog else none)

/-- The device is active in the log of its user. -/
def deviceActive (client : Client) (device : VerifiedDevice) : Bool :=
  ((resolveLog client (userOfDevice device)).bind fun log =>
    log.active device.cert.deviceId).any fun known => known.cert == device.cert

/-- A group message before it is marked. -/
structure GroupRead where
  group : Ref
  sessionId : Bytes
  index : UInt32
  expectedSender : String
  opened : Opened

/-- The author refers to a later state: the log has to be fetched. -/
def checkGroupMessage (group : Ref) (state : GroupState) (env : GroupEnvelope)
    (sessionId : Bytes) (decrypted : Decrypted) : Act GroupRead := do
  let client ← get
  let now ← nowMs library
  match checkGroup library state
      ⟨env.epoch, decrypted.plain, sessionId, decrypted.index⟩ (deviceActive client) now with
  | .ok opened => pure ⟨group, sessionId, decrypted.index, decrypted.expectedSender, opened⟩
  | .error .brokenChain => do
      let claimed := ((groupContextVersion library decrypted.plain).map UInt64.toNat).getD
        (state.version + 1)
      modify (markBehind group.id claimed)
      throw (.need (.groupLog group.id state.version))
  | .error error => throw (.proto error)

/-- All checks of a group envelope before the message is marked. -/
def readGroup (env : GroupEnvelope) : Act GroupRead := do
  let group ← liftProto (present env.group (.invalidField "group"))
  let client ← get
  let state ← liftM (fetched (client.groupState group.id) (.groupLog group.id 0))
  liftM (demand (env.epoch.toNat ≤ state.epoch) (.groupLog group.id state.version))
  modify (takePublicEpochKeys library state env.epoch)
  let client ← get
  let known : Option EpochKeys := client.epochKeys[(⟨group.id, env.epoch.toNat⟩ : EpochRef)]?
  let keys ← liftM (fetched known (.groupKeys group.id env.epoch.toNat))
  let inner ← liftProto (openEnvelope library env keys.envelopeKey)
  liftProto (require (isText inner.megolmSessionId) (.invalidField "session"))
  let decrypted ← decryptGroup library group.id env.epoch inner
  let client ← get
  liftM
    (demand
      (decrypted.expectedSender == client.user ||
        ((client.peers[decrypted.expectedSender]? : Option Peer).bind Peer.log).isSome)
      (.peerLog decrypted.expectedSender 0))
  checkGroupMessage library group state env inner.megolmSessionId decrypted

/-- The author of a message owns the session in which it came. -/
def authorOwnsSession (client : Client) (read : GroupRead) : Bool :=
  let author := userOfDevice read.opened.sender
  author == read.expectedSender || (client.aliasesOf read.expectedSender).contains author

/-- Mark a group message, by its place in the session and by its operation. -/
def markGroup (read : GroupRead) : Act Unit := do
  insertOnce library (megolmKey read.sessionId read.index)
  insertOnce library (opKey read.opened.sender read.opened.header.opId)

/-- Act on a group message. -/
def takeGroup (seq : UInt64) (read : GroupRead) : Act (List Event) := do
  modify (noteAuthorLog read.expectedSender read.opened.msg.authorLogVersion)
  match read.opened.content.kind with
  | some (.chatMode _) => pure [.internal seq]
  | _ =>
      pure [.group seq read.group (userOfDevice read.opened.sender)
        read.opened.sender.cert.deviceId read.opened.header.opId read.opened.header.tsMs
        read.opened.content read.opened.disposition]

/-- Open a group envelope. -/
def openGroup (seq : UInt64) (env : GroupEnvelope) : Act (List Event) := do
  let read ← readGroup library env
  markGroup library read
  let client ← get
  liftProto (require (authorOwnsSession client read) .badCertificate)
  takeGroup seq read

/-- Try one of the envelopes that wait for keys. -/
def retryPendingGroup (pending : PendingEnvelope) : Act (List Event) := do
  let result ← (openGroup library pending.1 pending.2).attempt
  match result with
  | .ok events => pure events
  | .error (.need _) => do
      modify fun client => { client with pendingGroup := client.pendingGroup ++ [pending] }
      return []
  | .error (.proto _) => pure [.skipped pending.1]

/-- Try the envelopes that wait for keys. -/
def retryPendingGroups : Act (List Event) := do
  let client ← get
  modify fun client => { client with pendingGroup := [] }
  let events ← client.pendingGroup.mapM (retryPendingGroup library)
  return events.flatten

end

/-! ## Sealed messages -/

section

variable (library : Library)

def l2ApplyDirect (chat user : String) (enabled : Bool) (tsMs : Int64) (client : Client) :
    Client :=
  let state := (client.l2Direct[chat]? : Option DirectL2).getD .new
  { client with l2Direct := client.l2Direct.insert chat (state.setPref user ⟨enabled, tsMs⟩) }

/-- The delivery key of another user. -/
def takePeerKey (sender : String) (share : DeliveryKeyShare) (client : Client) : Client :=
  if share.deliveryKey.length = 32 then
    let peer := (client.peers[sender]? : Option Peer).getD {}
    let known := (peer.deliveryKey.map Prod.snd).getD 0
    { client with
      peers := client.peers.insert sender
        (if generationStepOk known share.generation then
          { peer with deliveryKey := some (share.deliveryKey, share.generation) }
        else peer) }
  else client

/-- A state key from another device of the user. -/
def takeStateKey (seq : UInt64) (key : Hash) (version : UInt32) : Act (List Event) := do
  let client ← get
  modify fun client => { client with stateKeys := client.stateKeys.accept key version }
  return [if client.stateKeys.isNewer version then .stateKeyRotated seq version
    else .internal seq]

/-- The share of a state key; from others it does not count. -/
def takeStateKeyShare (seq : UInt64) (sender : String) (share : StateKeyShare) :
    Act (List Event) := do
  let client ← get
  if sender ≠ client.user then pure [.skipped seq]
  else do
    let key ← liftProto (StateKeys.fromShare share client.user)
    takeStateKey seq key.1 key.2

/-- Keys of a group: without its log they wait for it. -/
def takeGroupKey (seq : UInt64) (sender : String) (share : GroupKeyShare) : Act (List Event) := do
  let result ← (acceptGroupKey library sender share).attempt
  let client ← get
  match result with
  | .ok () => do
      let events ← retryPendingGroups library
      return .internal seq :: events
  | .error (.need (.groupLog group _)) => do
      modify (pushPendingKey sender share)
      let domain :=
        ((share.context.bind GroupContext.group).map Ref.domain).getD client.domain
      return [.groupChanged seq ⟨domain, group⟩ 0]
  | .error (.need _) => pure [.internal seq]
  | .error (.proto error) => do
      modify fun client => { client with lastError := some error }
      return [.skipped seq]

/-- The chat to which a message belongs. -/
def chatOf (user sender : String) (msg : MsgHeader) : String :=
  match msg.conversation with
  | some (.directPeer peer) => if sender = user then peer.address else sender
  | _ => sender

/-- Act on a message. -/
def takeMessage (seq : UInt64) (sender device : String) (opened : Opened) : Act (List Event) := do
  modify (noteAuthorLog sender opened.msg.authorLogVersion)
  let client ← get
  let chat := chatOf client.user sender opened.msg
  let shown : Event := .direct seq chat sender device opened.header.opId opened.header.tsMs
    opened.content opened.disposition
  match opened.content.kind with
  | some (.deliveryKey share) => do
      modify fun client =>
        if sender = client.user then
          { client with dk := client.dk.adopt share.deliveryKey share.generation }
        else takePeerKey sender share client
      return [.internal seq]
  | some (.stateKey share) => takeStateKeyShare seq sender share
  | some (.chatMode l2) => do
      modify (l2ApplyDirect chat sender l2 opened.header.tsMs)
      return [shown]
  | some (.containerKey share) => pure [.containerKey seq sender share]
  | some (.groupKey share) => takeGroupKey library seq sender share
  | _ => pure [shown]

/-- Two domains, compared without regard to case. -/
def sameDomain (first second : String) : Bool :=
  first.toList.map Char.toLower == second.toList.map Char.toLower

/-- The call lives at the caller.  From another device of the user only its end counts. -/
def callAllowed (client : Client) (sender device : String) (call : OpenedCall) : Bool :=
  (sender != client.user || (device != client.deviceId && call.signal.isHangup)) &&
    call.header.target.any fun target =>
      sameDomain target.domain ((addressDomain sender).getD "")

/-- Act on the signal of a call. -/
def takeCall (sender device : String) (call : OpenedCall) : Act (List Event) := do
  let client ← get
  liftProto (require (callAllowed client sender device call) .contextMismatch)
  return [.call sender device call.signal.callId call.header.tsMs call.signal]

/-- An envelope may still be for a former address of this device. -/
def recipientOf (client : Client) (env : SealedEnvelope) : DeviceRef :=
  match env.recipient with
  | some recipient =>
      if recipient.deviceId = client.deviceId ∧ recipient.address ≠ client.user ∧
          client.isOwnAddress recipient.address then recipient
      else client.myDevice
  | none => client.myDevice

/-- The log of the sender has to be known. -/
def senderLog (client : Client) (sender : String) : Except ClientError DeviceLog :=
  if sender = client.user then .ok client.ownLog
  else
    match (client.peers[sender]? : Option Peer) with
    | some peer =>
        if peer.pendingRoot.isSome then .error (.need (.rootChanged sender))
        else fetched peer.log (.peerLog sender 0)
    | none => .error (.need (.peerLog sender 0))

/-- The device of the sender is active. -/
def checkActive (sender : String) (log : DeviceLog) (device : VerifiedDevice) :
    Except ClientError Unit :=
  if (log.active device.cert.deviceId).any fun known => known.cert == device.cert then .ok ()
  else if log.revoked.contains device.cert.deviceId then .error (.proto .forbidden)
  else .error (.need (.peerLog sender log.version))

/-- The sender of a sealed envelope, as far as the outer layers tell. -/
structure SealedRead where
  inner : SealedInner
  me : DeviceRef
  sender : String
  device : VerifiedDevice

/-- The checks of the outer layers. -/
def readSealed (env : SealedEnvelope) (client : Client) : Result SealedRead := do
  let me := recipientOf client env
  let inner ← openSeal library env me client.hpkeSk
  let cert ← present inner.sender (.invalidField "sender")
  let device ← verifyCertificate library.toIdentity cert none
  let sender := userOfDevice device
  require (sender == client.user || !client.isOwnAddress sender) .forbidden
  return ⟨inner, me, sender, device⟩

/-- Act on what was in a sealed envelope. -/
def takeSealed (seq : UInt64) (sender device : String) (opened : OpenedSealed) :
    Act (List Event) :=
  match opened with
  | .message message => takeMessage library seq sender device message
  | .call call => takeCall sender device call

/-- Open a sealed envelope.  What this device sent to itself is only a cover. -/
def openSealedMode (seq : UInt64) (env : SealedEnvelope) (callOnly : Bool) : Act (List Event) := do
  let client ← get
  let read ← liftProto (readSealed library env client)
  let log ← liftM (senderLog client read.sender)
  let device := read.device.cert.deviceId
  if read.sender = client.user ∧ device = client.deviceId then pure [.internal seq]
  else do
    liftM (checkActive read.sender log read.device)
    let opened ← openSealedOpMode library read.inner read.me ⟨read.sender, device⟩ callOnly
    takeSealed library seq read.sender device opened

end

end Parvane.Engine
