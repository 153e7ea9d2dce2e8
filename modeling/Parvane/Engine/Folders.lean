import Parvane.Engine.Forks
import Parvane.Shared.Replica

/-!
# Sharing the folders of the cloud

The owner of a folder gives others access to it by entries of the grant log, and hands them
the keys in messages.  The folders are a part of the client of their own: messages are made
by the rest of the client.
-/

namespace Parvane

/-- A grantee as it is sent. -/
def Domain.Grantee.toPb : Domain.Grantee -> Domain.GranteePb
  | .user address => .user ⟨address⟩
  | .group domain id => .group ⟨domain, id⟩

/-- The title of a folder. -/
def Cloud.CloudState.name (state : Cloud.CloudState) : String :=
  (state.title.map fun title => (ofLex title).2).getD ""

namespace Engine

open Wire Sign Identity Domain Fallible

/-- An invitation to a folder. -/
structure CloudInvite where
  container : Option Ref
  name : String
  role : Int32
  text : String
  deriving DecidableEq

/-- What is taken from other libraries besides what is needed to send. -/
structure FolderLibrary extends toSending : SendingLibrary where
  decodeContainer : Bytes -> Result Container
  decodeGrant : Bytes -> Result Grant
  encodeGrant : Grant -> Bytes
  encodeInvite : CloudInvite -> Bytes

namespace FolderLibrary

variable (library : FolderLibrary)

def toDomain : Domain.Library :=
  ⟨library.toSending.toOpening.toGroup.toIdentity.toLibrary, library.decodeContainer,
    library.decodeGrant⟩

/-- Sending reads nothing of an invitation, so that it is one of the other contents. -/
def inviting (invite : CloudInvite) : SendingLibrary :=
  { library.toSending with
    encodeContent := fun content =>
      if content = ⟨some .other⟩ then library.encodeInvite invite
      else library.encodeContent content }

end FolderLibrary

/-- A folder as the client has it. -/
abbrev CloudLocal := Shared.Local Cloud.CloudState

/-- The client with its folders, and the devices whose keys it has seen. -/
structure CloudClient where
  client : Client
  cloudAuthors : Std.ExtTreeMap Hash (String × String)
  cloud : Std.ExtTreeMap Bytes CloudLocal

/-- A request about a folder, or a message. -/
inductive CloudRequest
  | grantSet (grant : SignedOp)
  | keyRotate (rotate : SignedOp)
  | message (request : OutRequest)
  deriving DecidableEq

/-- An action of the client on its folders. -/
abbrev CloudAct := Fallible ClientError CloudClient

/-- An action of the rest of the client. -/
def onClient (action : Act α) : CloudAct α :=
  within CloudClient.client (fun client state => { state with client }) action

/-- Change a folder. -/
def onFolder (id : Bytes) (change : CloudLocal -> CloudLocal) (state : CloudClient) :
    CloudClient :=
  { state with cloud := state.cloud.modify id change }

def folderOf (id : Bytes) (state : CloudClient) : Except ClientError CloudLocal :=
  liftProto (present (state.cloud[id]? : Option CloudLocal) .notFound)

/-! ## Names and authors -/

/-- The name under which the user has access to a folder. -/
def Client.myNameIn (client : Client) (access : ContainerAccess) : String :=
  ((client.user :: client.aliasesOf client.user).find? fun user =>
    access.owner == user || access.grants.contains (.user user)).getD client.user

/-- The device keys of a log: those of devices that left by themselves, and of the devices
that are there. -/
def deviceKeys (user : String) (log : DeviceLog) : List (Hash × String × String) :=
  ((log.eras.filter fun era => !era.revoked).map fun era => (era.key, user, era.deviceId)) ++
    log.devices.toList.filterMap fun (id, device) =>
      (key32 device.cert.olmEd25519).toOption.map fun key => (key, user, id)

def freshAuthors (client : Client) : List (Hash × String × String) :=
  deviceKeys client.user client.ownLog ++
    client.peers.toList.flatMap fun (user, peer) =>
      (peer.log.map (deviceKeys user)).getD []

/-- The authors that device keys belong to.  Keys of revoked devices stay known. -/
def cloudAuthorMap : CloudAct KeyResolver := do
  modify fun state =>
    { state with
      cloudAuthors := (freshAuthors state.client).foldl
        (fun authors (key, device) => authors.insert key device) state.cloudAuthors }
  let state ← get
  return fun key => (state.cloudAuthors[key]? : Option (String × String)).map
    fun (user, device) => ⟨user, device, state.client.aliasesOf user⟩

/-! ## Entries of the grant log -/

section

variable (library : FolderLibrary)

/-- The header of an entry about a container. -/
def grantHeader (kind : GrantOp) (target : Ref) (opId : Bytes) (tsMs : Int64) : OpHeader where
  domain := signatureDomain
  opType := kind.name
  opId := opId
  target := some target
  audience := []
  tsMs := tsMs

/-- What the next entry of a grant log says. -/
def nextGrant (access : ContainerAccess) (ref : Ref) (grantee : Option Grantee)
    (level : GrantLevel) (keyEpoch : UInt64) (boundary : Option UInt64) : Grant where
  container := some ref
  grantee := grantee.map Grantee.toPb
  level := level.number
  keyEpoch := keyEpoch
  version := UInt64.ofNat (access.version + 1)
  prevHash := access.headHash.bytes
  epochBoundarySeq := boundary

def signGrantEntry (access : ContainerAccess) (kind : GrantOp) (grantee : Option Grantee)
    (level : GrantLevel) (keyEpoch : UInt64) (tsMs : Int64) (boundary : Option UInt64) :
    Act SignedOp := do
  let ref ← liftProto (containerRef access.container)
  let opId ← newOpId library.toSending
  let client ← get
  liftProto <|
    signOp library.toSending (accountSigner library.toSending client.acc)
      (grantHeader kind ref opId tsMs) plainHeader
      (library.encodeGrant (nextGrant access ref grantee level keyEpoch boundary))

def signGrant (access : ContainerAccess) (grantee : Grantee) (level : GrantLevel) (tsMs : Int64) :
    Act SignedOp := do
  liftProto (require (level != .unspecified) (.invalidField "level"))
  signGrantEntry library access .grant (some grantee) level access.epoch tsMs none

def signRotateAt (access : ContainerAccess) (tsMs : Int64) (boundary : Option UInt64) :
    Act SignedOp := do
  let next ← liftProto (present (checkedSucc access.epoch) (.invalidField "key_epoch"))
  signGrantEntry library access .rotate none .unspecified next tsMs boundary

/-- Apply an entry to the access of a folder. -/
def applyTo (id : Bytes) (entry : SignedOp) (resolve : KeyResolver) (folder : CloudLocal) :
    CloudAct GrantEvent := do
  let ran := (ContainerAccess.apply library.toDomain entry resolve Shared.noGroups).exec
    folder.access
  modify (onFolder id fun folder => { folder with access := ran.2 })
  liftProto ran.1

/-- The entry is in the log that the client keeps. -/
def pushEntry (id : Bytes) (entry : SignedOp) : CloudAct PUnit :=
  modify (onFolder id fun folder => { folder with grants := folder.grants ++ [entry] })

end

/-! ## Keys of a folder -/

/-- The keys of a folder as contents: those of all known epochs, or only the present one. -/
def cloudKeyContents (state : CloudClient) (id : Bytes) (allEpochs : Bool) : List Content :=
  match (state.cloud[id]? : Option CloudLocal) with
  | none => []
  | some folder =>
      let first := if allEpochs then firstEpoch else folder.access.epoch
      let epochs := List.range' first.toNat (folder.access.epoch.toNat + 1 - first.toNat)
      let shares := epochs.filterMap fun epoch => do
        let key ← folder.keys[UInt64.ofNat epoch]?
        (Shared.keyShare folder.access (.ofNat epoch) key).toOption
      shares.map fun share => ⟨some (.containerKey share)⟩

/-- The users with a grant. -/
def grantedUsers (access : ContainerAccess) : List String :=
  access.grants.keys.filterMap fun grantee =>
    match grantee with
    | .user address => some address
    | .group _ _ => none

section

variable (library : FolderLibrary)

def cloudShareWithOwnDevices (id : Bytes) : CloudAct (List OutRequest) := do
  let contents := cloudKeyContents (← get) id false
  let sent ← contents.mapM fun content => onClient (sealToOwnDevices library.toSending content)
  return sent.flatten

def cloudShareWithUser (id : Bytes) (user : String) (allEpochs : Bool) :
    CloudAct (List OutRequest) := do
  let contents := cloudKeyContents (← get) id allEpochs
  let sent ← contents.mapM fun content =>
    onClient (prepareDirect library.toSending user content)
  return sent.flatten

/-- Hand the present key to the own devices and to all users with a grant; those to whom no
message can be made are passed over. -/
def cloudShareCurrent (id : Bytes) : CloudAct (List OutRequest) := do
  let own ← (cloudShareWithOwnDevices library id).attempt
  let users := (((← get).cloud[id]? : Option CloudLocal).map fun folder =>
    grantedUsers folder.access).getD []
  let sent ← users.mapM fun user => do
    let sent ← (cloudShareWithUser library id user false).attempt
    return sent.toOption.getD []
  return own.toOption.getD [] ++ sent.flatten

/-! ## Grants -/

/-- The user administers the folder and has its present key. -/
def administers (client : Client) (folder : CloudLocal) : Bool :=
  folder.access.canAdmin (client.myNameIn folder.access) Shared.noGroups &&
    folder.keys.contains folder.access.epoch

/-- A new key for the folder, for everybody who has access. -/
def cloudRotate (id : Bytes) (tsMs : Int64) : CloudAct (List CloudRequest) := do
  let resolve ← cloudAuthorMap
  let state ← get
  let folder ← folderOf id state
  liftProto (require (administers state.client folder) .forbidden)
  let rotate ← onClient (signRotateAt library folder.access tsMs (some folder.headSeq))
  let _ ← applyTo library id rotate resolve folder
  pushEntry id rotate
  let key ← onClient (drawKey library.toSending)
  modify (onFolder id fun folder =>
    { folder with keys := folder.keys.insert folder.access.epoch key })
  let sent ← cloudShareCurrent library id
  return .keyRotate rotate :: sent.map .message

/-- The messages that belong to a grant: a new key for everybody when an editor becomes a
reader, and otherwise all keys for the user, with an invitation at the first grant. -/
def cloudGrantMessages (id : Bytes) (user : String) (write : Bool) (before : Option GrantLevel)
    (container : Ref) (name inviteText : String) (tsMs : Int64) : CloudAct (List CloudRequest) := do
  if (before.any fun level => GrantLevel.write ≤ level) && !write then
    cloudRotate library id tsMs
  else
    let keys ← cloudShareWithUser library id user true
    let invitation ←
      if before.isNone then
        onClient (prepareDirect
          (library.inviting ⟨some container, name, if write then 2 else 1, inviteText⟩) user
          ⟨some .other⟩)
      else pure []
    return (keys ++ invitation).map .message

/-- Give access to a user, or change the level. -/
def cloudGrant (id : Bytes) (user : String) (write : Bool) (inviteText : String) (tsMs : Int64) :
    CloudAct (List CloudRequest) := do
  let client := (← get).client
  liftProto (require (isValidAddress user && user != client.user) .badAddress)
  checkPeer client user
  let resolve ← cloudAuthorMap
  let state ← get
  let folder ← folderOf id state
  liftProto (require (administers state.client folder) .forbidden)
  let before := (folder.access.grants[Grantee.user user]? : Option GrantLevel)
  let level := if write then GrantLevel.write else .read
  if before = some level then return []
  else
    let grant ← onClient (signGrant library folder.access (.user user) level tsMs)
    let _ ← applyTo library id grant resolve folder
    pushEntry id grant
    let granted ← folderOf id (← get)
    let container ← liftProto (containerRef granted.access.container)
    let messages ←
      (cloudGrantMessages library id user write before container granted.core.state.name
        inviteText tsMs).attempt
    match messages with
    | .ok messages => return .grantSet grant :: messages
    | .error error =>
        modify (onFolder id fun changed =>
          { changed with
            access := folder.access
            grants := changed.grants.take folder.grants.length })
        throw error

end

end Engine
end Parvane
