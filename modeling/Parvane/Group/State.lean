import Parvane.Group.Messages

/-!
# The state of a group

The state follows from the log alone.  Whether an entry is accepted depends on the state
before it and on the device logs, from which the signer of the entry is found.
-/

namespace Parvane.Group

open Wire Sign

/-- At least this much time is between two epochs. -/
def epochMinIntervalMs : Int := 10000

def maxMembers : Nat := 1000
def maxPublicBundles : Nat := 256
def maxRevokedLinks : Nat := 200
def maxLinkJoins : Nat := 1000

def zeroHash : Hash := Identity.zeroKey

/-- Who signed an entry. -/
structure SignerInfo where
  user : String
  rootKey : Hash
  deriving DecidableEq

structure Member where
  role : Role
  rights : AdminRights
  mutedUntilMs : Int64
  deriving DecidableEq

/-- A member who just joined. -/
def newMember : Member := ⟨.member, {}, 0⟩

structure InviteLink where
  announce : GroupInviteKeyAnnounce
  creator : String
  uses : UInt32
  createdMs : Int64
  joins : List (String × Int64)
  deriving DecidableEq

/-- Count a join; only the last ones are kept. -/
def InviteLink.noteJoin (link : InviteLink) (user : String) (ts : Int64) : InviteLink :=
  { link with
    uses := link.uses + 1
    joins := (if link.joins.length ≥ maxLinkJoins then link.joins.drop 1 else link.joins) ++
      [(user, ts)] }

structure PublicInfo where
  name : String
  secret : Hash
  preview : Bool
  history : Bool
  linkPublicKey : Hash
  deriving DecidableEq

/-- The state of a group.  The version counts the entries, the epoch the epochs. -/
structure GroupState where
  group : Ref
  version : Nat
  hashes : List Hash
  kind : GroupKind
  name : String
  about : String
  avatarFileId : String
  avatarKey : Bytes
  migratedFrom : String
  defaultPermissions : Permissions
  owner : String
  members : Std.ExtTreeMap String Member
  banned : Std.ExtTreeSet String
  epoch : Nat
  sendPublicKey : Option Hash
  lastEpochMs : Int64
  epochStale : Bool
  inviteLinks : Std.ExtTreeMap Hash InviteLink
  revokedLinks : Std.ExtTreeMap Hash InviteLink
  deleted : Bool
  l2 : Bool
  l2By : String
  isPublic : Option PublicInfo
  publicBundles : Std.ExtTreeMap Nat Bytes
  signerVersions : Std.ExtTreeMap String UInt64

namespace GroupState

variable (state : GroupState)

def headHash : Hash := state.hashes.getLast?.getD zeroHash

def isOwner (user : String) : Bool :=
  state.owner == user && state.members.contains user

/-- The user is the owner, or an administrator with the given right. -/
def adminCan (user : String) (right : AdminRights -> Bool) : Bool :=
  state.isOwner user ||
    state.members[user]?.any fun member => member.role == .admin && right member.rights

def isAdmin (user : String) : Bool :=
  state.isOwner user || state.members[user]?.any fun member => member.role == .admin

/-- The user is a member of a group that gives the right to all its members. -/
def memberCan (user : String) (right : Permissions -> Bool) : Bool :=
  state.members.contains user && state.kind == .group && right state.defaultPermissions

/-- The user may write, and so holds the sending key of the epoch. -/
def canWrite (user : String) (now : Int64) : Bool :=
  match state.members[user]? with
  | none => false
  | some member =>
      if state.banned.contains user || member.mutedUntilMs > now || state.deleted then false
      else if state.isAdmin user then true
      else state.kind == .group && state.defaultPermissions.sendMessages

end GroupState

/-! ## Names, hashes and users -/

/-- The text without white space around it. -/
def trim (text : List Char) : List Char :=
  ((text.dropWhile isWhiteSpace).reverse.dropWhile isWhiteSpace).reverse

def publicNameMin : Nat := 5
def publicNameMax : Nat := 32

/-- The name of a public group: it starts with a letter and is kept in lower case. -/
def normalizePublicName (name : String) : Option String :=
  let lower := ((trim name.toList).dropWhile (· == '@')).map Char.toLower
  let size := (String.ofList lower).utf8ByteSize
  if publicNameMin ≤ size && size ≤ publicNameMax && (lower.head?.any Char.isLower) &&
      lower.all fun c => c.isLower || c.isDigit || c == '_' then
    some (String.ofList lower)
  else none

def userOf (user : Option UserRef) : Result String := do
  let user ← present user (.invalidField "member")
  require (isValidAddress user.address) .badAddress
  return user.address

/-- Eight bytes, the most significant one first. -/
def toBeBytes (number : UInt64) : Bytes :=
  (List.range 8).map fun index => UInt8.ofNat (number.toNat / 256 ^ (7 - index))

/-- The bytes that the key of a link signs for a user who joins. -/
def joinSigningParts (group : Ref) (version : UInt64) (prevHash joinerRoot : Bytes) : Bytes :=
  utf8 group.domain ++ [0] ++ group.id ++ toBeBytes version ++ prevHash ++ joinerRoot

/-- The difference of two times, as far as it fits into 64 bits. -/
def saturatingSub (first second : Int64) : Int :=
  max (-2 ^ 63) (min (2 ^ 63 - 1) (first.toInt - second.toInt))

/-- The bundles of the last epochs. -/
def lastBundles (bundles : Std.ExtTreeMap Nat Bytes) : Std.ExtTreeMap Nat Bytes :=
  .ofList (bundles.toList.drop (bundles.size - maxPublicBundles))

abbrev Resolve := Hash -> UInt64 -> Option SignerInfo

/-- What is known of the device logs, for entries after a change of address. -/
structure Lookup where
  signerAs : Hash -> UInt64 -> String -> Option SignerInfo
  rootOf : String -> Option Hash

section

variable (library : Library)

def entryHash (op : SignedOp) : Hash :=
  library.sha256 (groupEntryHashContext ++ op.body ++ op.signature)

def genesisGroupId (body : Bytes) : Bytes :=
  (library.sha256 (groupGenesisContext ++ body)).bytes.take 16

def linkId (linkPublicKey : Bytes) : Hash :=
  library.sha256 linkPublicKey

/-! ## Reading an entry -/

/-- An entry whose signature was checked and whose signer is known. -/
structure Signed where
  group : Ref
  op : SignedOp
  verified : VerifiedOp
  stateChange : GroupStateChange
  signer : SignerInfo
  change : Change

/-- Check the signature of an entry and find the signer. -/
def readEntry
    (state : Option GroupState) (entry : GroupStateEntry) (resolve : Resolve)
    (lookup : Option Lookup) : Result Signed := do
  let group ← present entry.group (.invalidField "group")
  checkRef group
  let op ← present entry.change (.invalidField "change")
  let hint ← verifyingKey library.toIdentity.toLibrary op.signerKey
  let verified ← verifyOp library.toIdentity.toLibrary op groupDomain groupOp (some hint)
  let stateChange ← library.decodeStateChange verified.payload
  let signer ← present
    (match lookup with
      | some known =>
          if stateChange.signerAddress ≠ "" then
            known.signerAs hint stateChange.signerLogVersion stateChange.signerAddress
          else resolve hint stateChange.signerLogVersion
      | none => resolve hint stateChange.signerLogVersion)
    .forbidden
  require
    (stateChange.signerAddress == "" || lookup.isNone || signer.user == stateChange.signerAddress)
    .forbidden
  require (stateChange.version == entry.version && stateChange.prevHash == entry.prevHash)
    .contextMismatch
  require
    ((state.bind fun state => state.signerVersions[signer.user]?).all fun known =>
      known ≤ stateChange.signerLogVersion)
    .forbidden
  let change ← present stateChange.change (.invalidField "change")
  return ⟨group, op, verified, stateChange, signer, change⟩

/-! ## The first entry -/

/-- A member that the first entry names. -/
def addInitial (members : Std.ExtTreeMap String Member) (user : UserRef) :
    Result (Std.ExtTreeMap String Member) := do
  let address ← userOf (some user)
  return if members.contains address then members else members.insert address newMember

/-- The owner and the members that the first entry names. -/
def initialMembers (owner : String) (users : List UserRef) :
    Result (Std.ExtTreeMap String Member) :=
  users.foldlM addInitial
    ((∅ : Std.ExtTreeMap String Member).insert owner ⟨.owner, fullRights, 0⟩)

def applyGenesis (entry : GroupStateEntry) (signed : Signed) : Result GroupState := do
  match signed.change with
  | .create create =>
      require (entry.version == 1 && entry.prevHash == zeroHash.bytes) .brokenChain
      let inner ← present signed.stateChange.group (.invalidField "group")
      require
        (inner.id.isEmpty && inner.domain == signed.group.domain &&
          signed.verified.header.target.isNone)
        .contextMismatch
      require (signed.group.id == genesisGroupId library signed.op.body) .contextMismatch
      require (GroupKind.ofCode create.kind != .unspecified) (.invalidField "kind")
      let members ← initialMembers signed.signer.user create.members
      require (members.size ≤ maxMembers) (.fieldLimit "members")
      return {
        group := signed.group
        version := 1
        hashes := [entryHash library signed.op]
        kind := GroupKind.ofCode create.kind
        name := create.name
        about := create.about
        avatarFileId := ""
        avatarKey := []
        migratedFrom := create.migratedFrom
        defaultPermissions := create.defaultPermissions.getD {}
        owner := signed.signer.user
        members := members
        banned := ∅
        epoch := 0
        sendPublicKey := none
        lastEpochMs := 0
        epochStale := true
        inviteLinks := ∅
        revokedLinks := ∅
        deleted := false
        l2 := false
        l2By := ""
        isPublic := none
        publicBundles := ∅
        signerVersions :=
          if signed.stateChange.signerLogVersion > 0 then
            (∅ : Std.ExtTreeMap String UInt64).insert signed.signer.user
              signed.stateChange.signerLogVersion
          else ∅ }
  | _ => .error .brokenChain

/-! ## Changes

Each change is checked against the state before it; the actor is the signer. -/

section

variable (state : GroupState) (actor : String) (now : Int64)

def hash32 (bytes : Bytes) (field : String) : Result Hash :=
  present (FixedBytes.ofBytes? 32 bytes) (.invalidField field)

/-- A join by request counts in the link, if the link is still there. -/
def countRequest (member : String) (adminInvites : Bool) (viaLinkId : Bytes) :
    Result (Std.ExtTreeMap Hash InviteLink) := do
  if viaLinkId.isEmpty then
    return state.inviteLinks
  else
    let id ← hash32 viaLinkId "via_link_id"
    return state.inviteLinks.modify id fun link =>
      if link.announce.requiresApproval && adminInvites then link.noteJoin member now else link

def addMember (change : AddMember) : Result GroupState := do
  let member ← userOf change.member
  let adminInvites := state.adminCan actor AdminRights.inviteUsers
  require
    ((adminInvites || state.memberCan actor Permissions.inviteUsers) &&
      !state.members.contains member && !state.banned.contains member)
    .forbidden
  require (state.members.size < maxMembers) (.fieldLimit "members")
  let inviteLinks ← countRequest state now member adminInvites change.viaLinkId
  return { state with
    inviteLinks := inviteLinks
    members := state.members.insert member newMember
    epochStale := true }

/-- The actor may act against the user: the owner against everyone, an administrator with
the right to ban against ordinary members. -/
def mayRestrict (target : Option Member) : Bool :=
  state.isOwner actor ||
    (state.adminCan actor AdminRights.banUsers && target.all fun member => member.role == .member)

def removeMember (user : Option UserRef) : Result GroupState := do
  let member ← userOf user
  let target ← present state.members[member]? .forbidden
  require (mayRestrict state actor (some target) && member != state.owner) .forbidden
  return { state with members := state.members.erase member, epochStale := true }

/-- The group gets another owner; the one before becomes an administrator. -/
def setOwner (member : String) : Result GroupState := do
  require (state.isOwner actor && member != actor) .forbidden
  return { state with
    members :=
      (state.members.modify actor fun previous =>
          { previous with role := .admin, rights := fullRights }).modify
        member fun target => { target with role := .owner, rights := fullRights }
    owner := member }

/-- A member becomes an administrator or an ordinary member. -/
def setRank (member : String) (target : Member) (role : Role) (rights : AdminRights) :
    Result GroupState := do
  require (member != state.owner) .forbidden
  let own := (state.members[actor]?.map Member.rights).getD {}
  require
    (state.isOwner actor ||
      (state.adminCan actor AdminRights.addAdmins && target.role == .member && role == .admin &&
        rightsSubset rights own))
    .forbidden
  return { state with
    members := state.members.modify member fun target =>
      { target with role := role, rights := if role = .admin then rights else {} }
    epochStale := state.epochStale || (target.role == .admin && role == .member) }

def setRole (change : SetRole) : Result GroupState := do
  let member ← userOf change.member
  let target ← present state.members[member]? .forbidden
  let rights := change.rights.getD {}
  match Role.ofCode change.role with
  | .owner => setOwner state actor member
  | .admin => setRank state actor member target .admin rights
  | .member => setRank state actor member target .member rights
  | .unspecified => .error (.invalidField "role")

def ban (user : Option UserRef) : Result GroupState := do
  let member ← userOf user
  require (mayRestrict state actor state.members[member]? && member != state.owner) .forbidden
  return { state with
    members := state.members.erase member
    banned := state.banned.insert member
    epochStale := true }

def unban (user : Option UserRef) : Result GroupState := do
  let member ← userOf user
  require (state.adminCan actor AdminRights.banUsers) .forbidden
  return { state with banned := state.banned.erase member }

def mute (change : Mute) : Result GroupState := do
  let member ← userOf change.member
  let target ← present state.members[member]? .forbidden
  require (mayRestrict state actor (some target) && member != state.owner) .forbidden
  return { state with
    members := state.members.modify member fun target =>
      { target with mutedUntilMs := max change.untilMs 0 }
    epochStale := true }

/-- The actor may change what the group says about itself. -/
def mayDescribe : Bool :=
  state.adminCan actor AdminRights.changeInfo || state.memberCan actor Permissions.changeInfo

def setInfo (change : SetInfo) : Result GroupState := do
  require (mayDescribe state actor) .forbidden
  require
    (change.avatarKey.isEmpty ||
      (change.avatarKey.length == 32 && !change.avatarFileId.isEmpty))
    (.invalidField "avatar_key")
  return { state with
    name := change.name
    about := change.about
    avatarFileId := change.avatarFileId
    avatarKey := change.avatarKey }

def setPrivacyMode (l2 : Bool) : Result GroupState := do
  require (mayDescribe state actor) .forbidden
  return { state with l2 := l2, l2By := actor }

/-- A new secret needs a new epoch; so does a group that becomes private again. -/
def setPublic (change : SetPublic) : Result GroupState := do
  require (state.adminCan actor AdminRights.changeInfo) .forbidden
  if change.isPublic then
    let name ← present (normalizePublicName change.name) (.invalidField "name")
    let secret ← hash32 change.secret "secret"
    let sameSecret := state.isPublic.any fun before => before.secret == secret
    return { state with
      epochStale := state.epochStale || !sameSecret
      isPublic := some
        ⟨name, secret, change.preview, change.history, library.publicLinkKey secret⟩ }
  else
    require state.isPublic.isSome (.invalidField "public")
    return { state with isPublic := none, epochStale := true }

def setPermissions (defaultPermissions : Option Permissions) : Result GroupState := do
  require (state.adminCan actor AdminRights.banUsers) .forbidden
  return { state with defaultPermissions := defaultPermissions.getD {}, epochStale := true }

def newEpoch (change : NewEpoch) : Result GroupState := do
  require (state.isAdmin actor) .forbidden
  require (change.epoch.toNat == state.epoch + 1) .brokenChain
  require
    (!(0 < state.epoch && state.lastEpochMs ≤ now &&
      saturatingSub now state.lastEpochMs < epochMinIntervalMs))
    .rateLimited
  let key ← hash32 change.sendPublicKey "send_public_key"
  return { state with
    epoch := change.epoch.toNat
    sendPublicKey := some key
    publicBundles :=
      if state.isPublic.isSome && !change.publicBundle.isEmpty then
        lastBundles (state.publicBundles.insert change.epoch.toNat change.publicBundle)
      else state.publicBundles
    lastEpochMs := now
    epochStale := false }

/-- A link whose identifier is known, in force or revoked, is not taken again. -/
def inviteKey (announce : GroupInviteKeyAnnounce) : Result GroupState := do
  require
    ((state.adminCan actor AdminRights.inviteUsers ||
        state.memberCan actor Permissions.inviteUsers) &&
      announce.linkPublicKey.length == 32)
    .forbidden
  let id := linkId library announce.linkPublicKey
  require (!state.inviteLinks.contains id && !state.revokedLinks.contains id) .forbidden
  return { state with inviteLinks := state.inviteLinks.insert id ⟨announce, actor, 0, now, []⟩ }

/-- The actor may change a link. -/
def mayManage (link : InviteLink) : Bool :=
  state.adminCan actor AdminRights.inviteUsers || link.creator == actor

def inviteKeyRevoke (bytes : Bytes) : Result GroupState := do
  let id ← hash32 bytes "link_id"
  let link ← present state.inviteLinks[id]? .forbidden
  require (mayManage state actor link) .forbidden
  return { state with
    inviteLinks := state.inviteLinks.erase id
    revokedLinks :=
      if state.revokedLinks.size < maxRevokedLinks then state.revokedLinks.insert id link
      else state.revokedLinks }

/-- The actor is a member who changed the address; the entry of the device log by which
this was done is the proof. -/
def renameMember (signer : SignerInfo) (lookup : Option Lookup) (rename : Option SignedOp) :
    Result GroupState := do
  let op ← present rename (.invalidField "rename")
  let (old, root) ← Identity.verifyRenameOp library.toIdentity op signer.user
  let oldRoot ← present (lookup.bind fun known => known.rootOf old) .forbidden
  require (root == signer.rootKey && root == oldRoot) .badSignature
  require (!state.members.contains signer.user && !state.banned.contains signer.user) .forbidden
  let member ← present state.members[old]? .forbidden
  return { state with
    members := (state.members.erase old).insert signer.user member
    owner := if state.owner = old then signer.user else state.owner
    inviteLinks := state.inviteLinks.map fun _ link =>
      if link.creator = old then { link with creator := signer.user } else link }

def inviteEdit (change : InviteEdit) : Result GroupState := do
  let id ← hash32 change.linkId "link_id"
  let link ← present state.inviteLinks[id]? .forbidden
  require (mayManage state actor link) .forbidden
  require (0 ≤ change.expiresMs) (.invalidField "expires_ms")
  return { state with
    inviteLinks := state.inviteLinks.modify id fun link =>
      { link with
        announce :=
          { link.announce with
            title := change.title
            expiresMs := change.expiresMs
            usageLimit := change.usageLimit } } }

/-- The checks of a user who joins, apart from those of the link. -/
def checkJoin (entry : GroupStateEntry) (signer : SignerInfo) (change : JoinByInvite) :
    Result Unit := do
  require
    (change.joinerRootKey == signer.rootKey.bytes && !state.members.contains signer.user &&
      !state.banned.contains signer.user)
    .forbidden
  require (state.members.size < maxMembers) (.fieldLimit "members")
  verifyCtx library.toIdentity.toLibrary change.linkPublicKey change.linkSignature
    groupJoinContext
    [joinSigningParts state.group entry.version entry.prevHash change.joinerRootKey]

/-- The link is the one of the public group. -/
def isPublicLink (linkPublicKey : Bytes) : Bool :=
  state.isPublic.any fun known => known.linkPublicKey.bytes == linkPublicKey

/-- By the public link anyone may join; the keys of the epoch are open anyway, so that no
new epoch is needed. -/
def joinByInvite (entry : GroupStateEntry) (signer : SignerInfo) (change : JoinByInvite) :
    Result GroupState := do
  if isPublicLink state change.linkPublicKey then
    checkJoin library state entry signer change
    return { state with members := state.members.insert signer.user newMember }
  else
    let id := linkId library change.linkPublicKey
    let link ← present state.inviteLinks[id]? .forbidden
    require
      (!(link.announce.requiresApproval ||
        (0 < link.announce.expiresMs && link.announce.expiresMs < now) ||
        (0 < link.announce.usageLimit && link.announce.usageLimit ≤ link.uses)))
      .forbidden
    checkJoin library state entry signer change
    return { state with
      inviteLinks := state.inviteLinks.modify id fun link => link.noteJoin signer.user now
      members := state.members.insert signer.user newMember
      epochStale := true }

def leave : Result GroupState := do
  require (state.members.contains actor && actor != state.owner) .forbidden
  return { state with members := state.members.erase actor, epochStale := true }

def deleteGroup : Result GroupState := do
  require (state.isOwner actor) .forbidden
  return { state with deleted := true }

end

/-- The change of an entry after the first one. -/
def applyChange
    (state : GroupState) (entry : GroupStateEntry) (signed : Signed)
    (lookup : Option Lookup) : Result GroupState :=
  let actor := signed.signer.user
  let now := signed.verified.header.tsMs
  match signed.change with
  | .create _ => .error .brokenChain
  | .addMember change => addMember state actor now change
  | .removeMember user => removeMember state actor user
  | .setRole change => setRole state actor change
  | .ban user => ban state actor user
  | .unban user => unban state actor user
  | .mute change => mute state actor change
  | .setInfo change => setInfo state actor change
  | .setPrivacyMode l2 => setPrivacyMode state actor l2
  | .setPublic change => setPublic library state actor change
  | .setPermissions permissions => setPermissions state actor permissions
  | .newEpoch change => newEpoch state actor now change
  | .inviteKey announce => inviteKey library state actor now announce
  | .inviteKeyRevoke id => inviteKeyRevoke state actor id
  | .renameMember rename => renameMember library state signed.signer lookup rename
  | .inviteEdit change => inviteEdit state actor change
  | .joinByInvite change => joinByInvite library state now entry signed.signer change
  | .leave => leave state actor
  | .deleteGroup => deleteGroup state actor

/-! ## Entries -/

/-- Raise what is known of the device log of a user. -/
def raiseVersion (versions : Std.ExtTreeMap String UInt64) (user : String) (version : UInt64) :
    Std.ExtTreeMap String UInt64 :=
  versions.insert user (max (versions[user]?.getD 0) version)

/-- The floors of an entry count from the user and from administrators. -/
def raiseFloors
    (before after : GroupState) (signed : Signed) : Std.ExtTreeMap String UInt64 :=
  let byAdmin := before.isOwner signed.signer.user ||
    before.adminCan signed.signer.user AdminRights.banUsers
  let raised := signed.stateChange.floors.foldl
    (fun versions floor =>
      if floor.minLogVersion > 0 && (floor.user == signed.signer.user || byAdmin) &&
          after.members.contains floor.user then
        raiseVersion versions floor.user floor.minLogVersion
      else versions)
    after.signerVersions
  if signed.stateChange.signerLogVersion > 0 then
    raiseVersion raised signed.signer.user signed.stateChange.signerLogVersion
  else raised

/-- The place of an entry after the first one. -/
def checkPlace (state : GroupState) (entry : GroupStateEntry) (signed : Signed) : Result Unit := do
  require (!state.deleted) .forbidden
  require
    (entry.version.toNat == state.version + 1 && entry.prevHash == state.headHash.bytes)
    .brokenChain
  require (signed.group == state.group && signed.stateChange.group == some state.group)
    .contextMismatch
  signed.verified.requireTarget state.group

/-- Apply an entry; without a state it is the first one. -/
def applyWith
    (state : Option GroupState) (entry : GroupStateEntry) (resolve : Resolve)
    (lookup : Option Lookup) : Result GroupState := do
  let signed ← readEntry library state entry resolve lookup
  match state with
  | none => applyGenesis library entry signed
  | some state =>
      checkPlace state entry signed
      let changed ← applyChange library state entry signed lookup
      return { changed with
        version := entry.version.toNat
        hashes := changed.hashes ++ [entryHash library signed.op]
        signerVersions := raiseFloors state changed signed }

end

end Parvane.Group
