import Parvane.Identity.DeviceLog

/-!
# Entries of a group log

The log of a group is a chain of signed entries.  Each entry names its place in the
chain, outside and inside of the signature, and one change of the group.
-/

namespace Parvane.Group

open Wire Sign

def groupDomain : String := "group"
def groupOp : String := "state"

inductive GroupKind
  | unspecified
  | group
  | channel
  deriving DecidableEq

def GroupKind.ofCode (code : Int32) : GroupKind :=
  if code = 1 then .group else if code = 2 then .channel else .unspecified

inductive Role
  | unspecified
  | member
  | admin
  | owner
  deriving DecidableEq

def Role.ofCode (code : Int32) : Role :=
  if code = 1 then .member else if code = 2 then .admin else if code = 3 then .owner
  else .unspecified

/-- What members may do by default. -/
structure Permissions where
  sendMessages : Bool := false
  sendMedia : Bool := false
  sendStickersGifs : Bool := false
  sendPolls : Bool := false
  embedLinks : Bool := false
  inviteUsers : Bool := false
  pinMessages : Bool := false
  changeInfo : Bool := false
  deriving DecidableEq

/-- What an administrator may do. -/
structure AdminRights where
  changeInfo : Bool := false
  deleteMessages : Bool := false
  banUsers : Bool := false
  inviteUsers : Bool := false
  pinMessages : Bool := false
  addAdmins : Bool := false
  deriving DecidableEq

def fullRights : AdminRights := ⟨true, true, true, true, true, true⟩

def rightsSubset (rights of : AdminRights) : Bool :=
  (!rights.changeInfo || of.changeInfo)
    && (!rights.deleteMessages || of.deleteMessages)
    && (!rights.banUsers || of.banUsers)
    && (!rights.inviteUsers || of.inviteUsers)
    && (!rights.pinMessages || of.pinMessages)
    && (!rights.addAdmins || of.addAdmins)

structure Create where
  kind : Int32
  name : String
  about : String
  defaultPermissions : Option Permissions
  members : List UserRef
  migratedFrom : String
  deriving DecidableEq

structure AddMember where
  member : Option UserRef
  viaLinkId : Bytes
  deriving DecidableEq

structure SetRole where
  member : Option UserRef
  role : Int32
  rights : Option AdminRights
  deriving DecidableEq

structure Mute where
  member : Option UserRef
  untilMs : Int64
  deriving DecidableEq

/-- The domain of the picture is left out: the group state does not hold it. -/
structure SetInfo where
  name : String
  about : String
  avatarFileId : String
  avatarKey : Bytes
  deriving DecidableEq

structure SetPublic where
  isPublic : Bool
  name : String
  secret : Bytes
  preview : Bool
  history : Bool
  deriving DecidableEq

structure NewEpoch where
  epoch : UInt64
  sendPublicKey : Bytes
  publicBundle : Bytes
  deriving DecidableEq

structure GroupInviteKeyAnnounce where
  linkPublicKey : Bytes
  expiresMs : Int64
  usageLimit : UInt32
  requiresApproval : Bool
  title : String
  deriving DecidableEq

structure InviteEdit where
  linkId : Bytes
  title : String
  expiresMs : Int64
  usageLimit : UInt32
  deriving DecidableEq

structure JoinByInvite where
  linkPublicKey : Bytes
  joinerRootKey : Bytes
  linkSignature : Bytes
  deriving DecidableEq

inductive Change
  | create (create : Create)
  | addMember (addMember : AddMember)
  | removeMember (member : Option UserRef)
  | setRole (setRole : SetRole)
  | ban (member : Option UserRef)
  | unban (member : Option UserRef)
  | mute (mute : Mute)
  | setInfo (setInfo : SetInfo)
  | setPrivacyMode (l2 : Bool)
  | setPublic (setPublic : SetPublic)
  | setPermissions (defaultPermissions : Option Permissions)
  | newEpoch (newEpoch : NewEpoch)
  | inviteKey (announce : GroupInviteKeyAnnounce)
  | inviteKeyRevoke (linkId : Bytes)
  | renameMember (rename : Option SignedOp)
  | inviteEdit (inviteEdit : InviteEdit)
  | joinByInvite (joinByInvite : JoinByInvite)
  | leave
  | deleteGroup
  deriving DecidableEq

/-- Entries of the user after this one refer to this version of the device log at
least. -/
structure RevokedFloor where
  user : String
  minLogVersion : UInt64
  deriving DecidableEq

structure GroupStateChange where
  group : Option Ref
  version : UInt64
  prevHash : Bytes
  change : Option Change
  signerLogVersion : UInt64
  signerAddress : String
  floors : List RevokedFloor
  deriving DecidableEq

structure GroupStateEntry where
  group : Option Ref
  version : UInt64
  prevHash : Bytes
  change : Option SignedOp
  deriving DecidableEq

/-- What is taken from other libraries, besides what device logs need: the decoder of
payloads and the public key of the link that a public group derives from its secret. -/
structure Library extends toIdentity : Identity.Library where
  decodeStateChange : Bytes -> Result GroupStateChange
  publicLinkKey : Hash -> Hash

end Parvane.Group
