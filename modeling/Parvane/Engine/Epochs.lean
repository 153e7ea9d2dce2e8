import Parvane.Engine.Sending

/-!
# Entries of groups, and new epochs

A change of a group is an entry that this device builds, checks against the state of the
group and applies at once.  A new epoch brings new keys; they are given to every member, or
published in the entry if the group is public.
-/

namespace Parvane.Engine

open Wire Sign Identity Parvane.Group Fallible

def maxFloors : Nat := 16

namespace Client

variable (client : Client)

/-- The device logs by which the signers of entries are found. -/
def logs : Logs where
  user := client.user
  ownLog := client.ownLog
  formerOwn := client.formerOwn.map Prod.snd
  peers := client.peers.filterMap fun _ peer => peer.log

/-- The version of the own log to which an entry refers. -/
def ownSignerVersion (state : GroupState) : UInt64 :=
  max (UInt64.ofNat client.ownLog.version)
    ((state.signerVersions[client.user]? : Option UInt64).getD 0)

/-- The address by which the signer is found, if the user had another one. -/
def ownSignerHint : String :=
  if client.formerOwn.isEmpty then "" else client.user

/-- The members who lost a device since the group was told of it. -/
def revocationFloors (state : GroupState) : List RevokedFloor :=
  let floors := (state.members.keys.filter fun user => user != client.user).filterMap fun user =>
    let floor := UInt64.ofNat (((client.peerLog user).map DeviceLog.revocationFloor).getD 0)
    if ((state.signerVersions[user]? : Option UInt64).getD 0) < floor then some ⟨user, floor⟩
    else none
  floors.take maxFloors

end Client

/-- What a group asks for when its messages are padded. -/
def groupL2State (client : Client) (id : Bytes) (state : GroupState) : L2State :=
  let group := (L2State.new .group).setGroupPolicy ⟨state.l2, 1⟩
  match (client.l2GroupPref[id]? : Option L2Pref) with
  | some pref => group.setPref client.user pref
  | none => group

/-- Who may write in a group. -/
def writersOf (state : GroupState) (now : Int64) : List String :=
  state.members.keys.filter fun user => state.canWrite user now

/-- The place in the log of a group. -/
def contextOf (state : GroupState) : GroupContext :=
  ⟨some state.group, UInt64.ofNat state.epoch, UInt64.ofNat state.version, state.headHash.bytes⟩

section

variable (library : SendingLibrary)

/-- Build an entry of a group and sign it. -/
def buildEntry (client : Client) (state : GroupState) (change : Group.Change) (tsMs : Int64)
    (opId : Bytes) : Result GroupStateEntry := do
  require (isValidDomain client.domain) .badAddress
  let version := UInt64.ofNat (state.version + 1)
  let previous := state.headHash.bytes
  let stateChange : GroupStateChange :=
    { group := some state.group
      version := version
      prevHash := previous
      change := some change
      signerLogVersion := client.ownSignerVersion state
      signerAddress := client.ownSignerHint
      floors := client.revocationFloors state }
  let op ←
    signOp library (accountSigner library client.acc)
      { domain := groupDomain, opType := groupOp, opId := opId, target := some state.group
        audience := [], tsMs := tsMs }
      plainHeader (library.encodeStateChange stateChange)
  return ⟨some state.group, version, previous, some op⟩

/-- Write an entry at the end of a group log. -/
def appendEntry (id : Bytes) (entry : GroupStateEntry) (next : GroupState) (client : Client) :
    Client :=
  { client with
    groups := client.groups.modify id fun group =>
      { group with entries := group.entries ++ [entry], state := some next } }

/-- Build an entry, check it and apply it. -/
def groupEntry (id : Bytes) (change : Group.Change) : Act GroupStateEntry := do
  let client ← get
  let state ← liftProto (present (client.groupState id) .notFound)
  let now ← nowMs library.toOpening
  let opId ← newOpId library
  let entry ← liftProto (buildEntry library client state change now opId)
  let next ←
    liftProto
      (applyWith library.toOpening.toGroup (some state) entry client.logs.signerResolver
        (some client.logs.lookup))
  modify (appendEntry id entry next)
  return entry

/-- The request by which an entry is sent. -/
def methodOf : Group.Change -> String
  | .inviteKey _ => "group.invite.create"
  | .inviteKeyRevoke _ => "group.invite.revoke"
  | .joinByInvite _ => "group.join"
  | .newEpoch _ => "group.epoch.publish_send_key"
  | _ => "group.state.append"

def groupChange (id : Bytes) (change : Group.Change) : Act OutRequest := do
  return .group (methodOf change) (← groupEntry library id change)

/-- The group log is not behind what a member referred to. -/
def groupSendReady (client : Client) (id : Bytes) (state : GroupState) :
    Except ClientError Unit :=
  demand ((client.groups[id]? : Option GroupLocal).bind GroupLocal.behind).isNone
    (.groupLog id state.version)

/-- Encrypt the keys of an epoch so that the secret of a public group opens them. -/
def sealPublicBundle (secret : Hash) (group : Ref) (epoch : Nat) (envelopeKey : Hash)
    (send : SigningKey) : Act Bytes := do
  let nonce := library.drawBytes (← nextReading) 12
  let text ←
    liftProto
      (library.aeadSeal (bundleKey library.toOpening secret group epoch) nonce group.id
        (envelopeKey.bytes ++ send.bytes))
  return nonce ++ text

/-- The keys of a new epoch. -/
structure FreshEpoch where
  epoch : Nat
  send : SigningKey
  envelopeKey : Hash

def drawKey : Act Hash := return library.drawKey (← nextReading)

def publicBundle (state : GroupState) (fresh : FreshEpoch) : Act Bytes :=
  match state.isPublic with
  | some info =>
      sealPublicBundle library info.secret state.group fresh.epoch fresh.envelopeKey fresh.send
  | none => pure []

/-- The change that starts an epoch. -/
def newEpochOf (fresh : FreshEpoch) (bundle : Bytes) : Group.Change :=
  .newEpoch ⟨UInt64.ofNat fresh.epoch, (library.publicKey fresh.send).bytes, bundle⟩

/-- The content that gives the keys of an epoch to a member. -/
def epochShare (next : GroupState) (fresh : FreshEpoch) (writers : List String) (member : String) :
    Content :=
  ⟨some (.groupKey
    { context := some (contextOf next)
      envelopeKey := fresh.envelopeKey.bytes
      megolmSessionKey := []
      sendPrivateKey := if writers.contains member then fresh.send.bytes else []
      megolmExported := []
      megolmOwner := "" })⟩

/-- An epoch that this device has started. -/
structure StartedEpoch where
  request : OutRequest
  members : List String
  isPublic : Bool
  next : GroupState
  fresh : FreshEpoch
  writers : List String

/-- Start an epoch: write its entry, and remember its keys. -/
def startEpoch (id : Bytes) : Act StartedEpoch := do
  let client ← get
  let state ← liftProto (present (client.groupState id) .notFound)
  groupSendReady client id state
  let members := state.members.keys
  members.forM fun member => liftM (checkPeer client member)
  let send ← drawKey library
  let envelopeKey ← drawKey library
  let fresh : FreshEpoch := ⟨state.epoch + 1, send, envelopeKey⟩
  let bundle ← publicBundle library state fresh
  let request ← groupChange library id (newEpochOf library fresh bundle)
  let next ← liftProto (present ((← get).groupState id) .notFound)
  let writers := writersOf next (← nowMs library.toOpening)
  let keys : EpochKeys :=
    ⟨envelopeKey, if writers.contains client.user then some send else none⟩
  modify fun client =>
    { client with epochKeys := client.epochKeys.insert ⟨id, fresh.epoch⟩ keys }
  return ⟨request, members, !bundle.isEmpty, next, fresh, writers⟩

/-- Start an epoch and give its keys to the members. -/
def groupRotateEpoch (id : Bytes) : Act (List OutRequest) := do
  let started ← startEpoch library id
  if started.isPublic then return [started.request]
  else
    let client ← get
    let pad := (groupL2State client id started.next).mustPad client.user []
    let shares ← started.members.mapM fun member =>
      shareGroupKey library member
        (epochShare started.next started.fresh started.writers member) pad
    return started.request :: shares.flatten

end

end Parvane.Engine
