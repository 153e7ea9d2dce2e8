import Parvane.State.Messages
import Mathlib.Data.Prod.Lex
import Std.Data.ExtTreeMap.Lemmas
import Std.Data.ExtTreeSet.Lemmas

/-!
# Merging the personal state

Every object of the personal state is a last-writer-wins register or a map of
such registers.  A deletion is a tombstone with a stamp of its own.  Two parts
need no stamps: the set of scheduled messages that were sent only grows, and the
time up to which a chat was cleared only moves forward.
-/

namespace Parvane.State

open Wire

abbrev opIdLen : Nat := 16
abbrev linkIdLen : Nat := 32
abbrev maxPackSetId : Nat := 128

/-- The largest accepted Lamport time. -/
def acceptLamportCeiling : UInt64 := 1099511627776

/-- Folder identifiers with a fixed meaning: all chats, and the archive. -/
def reservedFolderIds : List UInt32 := [0, 1]

abbrev OpId := FixedBytes opIdLen

instance : Std.TransOrd OpId := inferInstance

instance : Std.TransOrd (String ×ₗ Bytes) := inferInstance

abbrev Digest := FixedBytes 32

/-- The order of writers. -/
@[ext] structure Stamp where
  lamport : UInt64
  deviceId : String
  opId : OpId
  digest : Digest
  deriving DecidableEq

namespace Stamp

/-- The fields in the order in which they are compared. -/
def key (stamp : Stamp) : Nat ×ₗ String ×ₗ OpId ×ₗ Digest :=
  toLex (stamp.lamport.toNat,
    toLex (stamp.deviceId, toLex (stamp.opId, stamp.digest)))

theorem key_injective : Function.Injective key := by
  intro first second equal
  simp only [key, EmbeddingLike.apply_eq_iff_eq, Prod.mk.injEq,
    UInt64.toNat_inj] at equal
  exact Stamp.ext equal.1 equal.2.1 equal.2.2.1 equal.2.2.2

instance : LinearOrder Stamp :=
  LinearOrder.lift' key key_injective

end Stamp

/-- A stamped value; no value is a tombstone. -/
structure Lww (ν : Type) where
  stamp : Stamp
  value : Option ν
  deriving DecidableEq

/-- Write a stamped value into a map unless a later one is there. -/
def put [Ord κ] [Std.TransOrd κ]
    (map : Std.ExtTreeMap κ (Lww ν))
    (key : κ) (stamp : Stamp) (value : Option ν) : Std.ExtTreeMap κ (Lww ν) :=
  match map[key]? with
  | some current =>
      if stamp ≤ current.stamp then map else map.insert key ⟨stamp, value⟩
  | none => map.insert key ⟨stamp, value⟩

/-- Write a stamped value into a register unless a later one is there. -/
def putReg
    (register : Option (Lww ν))
    (stamp : Stamp) (value : ν) : Option (Lww ν) :=
  match register with
  | some current =>
      if stamp ≤ current.stamp then register else some ⟨stamp, some value⟩
  | none => some ⟨stamp, some value⟩

/-- The merged personal state. -/
@[ext] structure PersonalState where
  folders : Std.ExtTreeMap UInt32 (Lww Folder)
  folderOrder : Option (Lww FolderOrder)
  blocked : Std.ExtTreeMap String (Lww BlockEntry)
  notify : Std.ExtTreeMap String (Lww PeerNotify)
  notifyDefaults : Option (Lww NotifyDefaults)
  drafts : Std.ExtTreeMap String (Lww Draft)
  scheduled : Std.ExtTreeMap OpId (Lww ScheduledMessage)
  scheduledSent : Std.ExtTreeSet OpId
  archived : Std.ExtTreeMap String (Lww Peer)
  pinned : Std.ExtTreeMap Int32 (Lww PinnedOrder)
  calls : Std.ExtTreeMap OpId (Lww CallRecord)
  cleared : Std.ExtTreeMap String ChatCleared
  invites : Std.ExtTreeMap Bytes (Lww GroupInvite)
  plannerContainer : Option (Lww PlannerContainer)
  cloudContainers : Std.ExtTreeMap (String ×ₗ Bytes) (Lww CloudContainer)
  unreadMarks : Std.ExtTreeMap String (Lww Peer)
  quickReaction : Option (Lww QuickReaction)
  stickerPacks : Std.ExtTreeMap String (Lww StickerPack)
  maxLamport : UInt64

namespace PersonalState

def new : PersonalState where
  folders := ∅
  folderOrder := none
  blocked := ∅
  notify := ∅
  notifyDefaults := none
  drafts := ∅
  scheduled := ∅
  scheduledSent := ∅
  archived := ∅
  pinned := ∅
  calls := ∅
  cleared := ∅
  invites := ∅
  plannerContainer := none
  cloudContainers := ∅
  unreadMarks := ∅
  quickReaction := none
  stickerPacks := ∅
  maxLamport := 0

end PersonalState

/-! ## Checks -/

def linkId32 (bytes : Bytes) : Result Bytes := do
  require (bytes.length == linkIdLen) (.invalidField "link_id")
  return bytes

def opId16 (bytes : Bytes) (field : String) : Result OpId :=
  present (FixedBytes.ofBytes? opIdLen bytes) (.invalidField field)

def checkHeader (op : StateOp) : Result Unit := do
  let _ ← opId16 op.opId "op_id"
  require (op.lamport != 0 && op.lamport ≤ acceptLamportCeiling)
    (.invalidField "lamport")
  require (isValidDeviceId op.deviceId) (.invalidField "device_id")

/-- One lower-case hexadecimal digit. -/
def hexDigit (value : Nat) : Char :=
  "0123456789abcdef".toList.getD value '0'

/-- Two hexadecimal digits for each byte. -/
def hex (bytes : Bytes) : List Char :=
  bytes.flatMap fun byte => [hexDigit (byte.toNat / 16), hexDigit (byte.toNat % 16)]

/-- The canonical key of a peer: `u:<address>` or `g:<domain>:<hex id>`. -/
def peerKey (peer : Peer) : Result String :=
  match peer.kind with
  | some (.user user) => do
      checkUser user
      return "u:" ++ user.address
  | some (.group ref) => do
      checkRef ref
      return "g:" ++ ref.domain ++ ":" ++ String.ofList (hex ref.id)
  | none => .error (.invalidField "peer")

def optPeerKey (peer : Option Peer) : Result String := do
  peerKey (← present peer (.invalidField "peer"))

def checkPeers : List Peer -> Result Unit
  | [] => .ok ()
  | peer :: peers => do
      let _ ← peerKey peer
      checkPeers peers

def checkFolderId (id : UInt32) : Result Unit :=
  require (!reservedFolderIds.contains id) (.invalidField "folder.id")

def checkFolder (folder : Folder) : Result Unit := do
  checkFolderId folder.id
  checkPeers folder.includePeers
  checkPeers folder.excludePeers
  checkPeers folder.pinnedPeers

def packKey (setId : String) : Result String := do
  require (!setId.isEmpty && setId.utf8ByteSize ≤ maxPackSetId)
    (.invalidField "sticker_pack")
  return setId

def checkStickerPack (pack : StickerPack) : Result String := do
  let key ← packKey pack.setId
  match pack.ref with
  | some archive =>
      if archive.fileId.isEmpty then .error (.invalidField "sticker_pack")
      else return key
  | none => .error (.invalidField "sticker_pack")

def checkQuickReaction (reaction : QuickReaction) : Result Unit :=
  let isCustomValid :=
    reaction.customEmojiId.isEmpty || reaction.customEmojiId.toList.all Char.isDigit
  require (isCustomValid && (reaction.emoji.isEmpty || reaction.customEmojiId.isEmpty))
    (.invalidField "quick_reaction")

/-- The two lists with pinned chats: the main one and the archive. -/
def pinList (list : Int32) : Result Int32 := do
  require (list == 1 || list == 2) (.invalidField "pinned.list")
  return list

/-- Known container roles other than the unspecified one. -/
def isCloudContainerRole (role : Int32) : Bool :=
  role == 1 || role == 2 || role == 3

/-! ## Applying an operation -/

/-- The part of `apply` that depends on the kind of the operation. -/
def applyKind (stamp : Stamp) : Op -> Update PersonalState Unit
  | .folderSet folder => do
      checkFolder folder
      modify fun state =>
        { state with folders := put state.folders folder.id stamp (some folder) }
  | .folderRemove ref => do
      checkFolderId ref.id
      modify fun state =>
        { state with folders := put state.folders ref.id stamp none }
  | .folderOrder order => do
      modify fun state =>
        { state with folderOrder := putReg state.folderOrder stamp order }
  | .blockSet entry => do
      let key ← optPeerKey entry.peer
      modify fun state =>
        { state with blocked := put state.blocked key stamp (some entry) }
  | .blockRemove peerKey => do
      let key ← optPeerKey peerKey.peer
      modify fun state =>
        { state with blocked := put state.blocked key stamp none }
  | .notifySet notify => do
      let key ← optPeerKey notify.peer
      let filled :=
        { notify with settings := some (notify.settings.getD .default) }
      modify fun state =>
        { state with notify := put state.notify key stamp (some filled) }
  | .notifyRemove peerKey => do
      let key ← optPeerKey peerKey.peer
      modify fun state =>
        { state with notify := put state.notify key stamp none }
  | .notifyDefaults defaults => do
      modify fun state =>
        { state with notifyDefaults := putReg state.notifyDefaults stamp defaults }
  | .draftSet draft => do
      let key ← optPeerKey draft.peer
      require (draft.replyToOpId.isEmpty || draft.replyToOpId.length == opIdLen)
        (.invalidField "reply_to_op_id")
      modify fun state =>
        { state with drafts := put state.drafts key stamp (some draft) }
  | .draftRemove peerKey => do
      let key ← optPeerKey peerKey.peer
      modify fun state =>
        { state with drafts := put state.drafts key stamp none }
  | .scheduledSet scheduled => do
      let id ← opId16 scheduled.opId "scheduled.op_id"
      let _ ← optPeerKey scheduled.peer
      require (0 < scheduled.sendAtMs) (.invalidField "send_at_ms")
      require (!scheduled.content.isEmpty) (.invalidField "content")
      modify fun state =>
        { state with scheduled := put state.scheduled id stamp (some scheduled) }
  | .scheduledRemove ref => do
      let id ← opId16 ref.opId "scheduled.op_id"
      modify fun state =>
        { state with scheduled := put state.scheduled id stamp none }
  | .scheduledSent ref => do
      let id ← opId16 ref.opId "scheduled.op_id"
      modify fun state =>
        { state with scheduledSent := state.scheduledSent.insert id }
  | .archiveSet peerKeyMessage => do
      let peer ← present peerKeyMessage.peer (.invalidField "peer")
      let key ← peerKey peer
      modify fun state =>
        { state with archived := put state.archived key stamp (some peer) }
  | .archiveRemove peerKey => do
      let key ← optPeerKey peerKey.peer
      modify fun state =>
        { state with archived := put state.archived key stamp none }
  | .pinnedOrder order => do
      let list ← pinList order.list
      checkPeers order.peers
      modify fun state =>
        { state with pinned := put state.pinned list stamp (some order) }
  | .callSet record => do
      let id ← opId16 record.callId "call_id"
      let _ ← optPeerKey record.peer
      modify fun state =>
        { state with calls := put state.calls id stamp (some record) }
  | .callRemove ref => do
      let id ← opId16 ref.callId "call_id"
      modify fun state =>
        { state with calls := put state.calls id stamp none }
  | .groupInviteSet invite => do
      require (!invite.groupId.isEmpty && !invite.url.isEmpty)
        (.invalidField "group_invite")
      let id ← linkId32 invite.linkId
      modify fun state =>
        { state with invites := put state.invites id stamp (some invite) }
  | .groupInviteRemove ref => do
      let id ← linkId32 ref.linkId
      modify fun state =>
        { state with invites := put state.invites id stamp none }
  | .plannerContainerSet container => do
      let ref ← present container.ref (.invalidField "planner_container")
      checkRef ref
      modify fun state =>
        { state with plannerContainer := putReg state.plannerContainer stamp container }
  | .cloudContainerSet container => do
      let ref ← present container.ref (.invalidField "cloud_container")
      checkRef ref
      require (isCloudContainerRole container.role) (.invalidField "cloud_container")
      modify fun state =>
        { state with
          cloudContainers :=
            put state.cloudContainers (toLex (ref.domain, ref.id)) stamp (some container) }
  | .unreadMarkSet peerKeyMessage => do
      let peer ← present peerKeyMessage.peer (.invalidField "peer")
      let key ← peerKey peer
      modify fun state =>
        { state with unreadMarks := put state.unreadMarks key stamp (some peer) }
  | .unreadMarkRemove peerKey => do
      let key ← optPeerKey peerKey.peer
      modify fun state =>
        { state with unreadMarks := put state.unreadMarks key stamp none }
  | .quickReaction reaction => do
      checkQuickReaction reaction
      modify fun state =>
        { state with quickReaction := putReg state.quickReaction stamp reaction }
  | .stickerPackSet pack => do
      let key ← checkStickerPack pack
      modify fun state =>
        { state with stickerPacks := put state.stickerPacks key stamp (some pack) }
  | .stickerPackRemove packKeyMessage => do
      let key ← packKey packKeyMessage.setId
      modify fun state =>
        { state with stickerPacks := put state.stickerPacks key stamp none }
  | .chatCleared cleared => do
      let key ← optPeerKey cleared.peer
      require (0 < cleared.clearedUntilMs) (.invalidField "cleared_until_ms")
      modify fun state =>
        match state.cleared[key]? with
        | some current =>
            if cleared.clearedUntilMs ≤ current.clearedUntilMs then state
            else { state with cleared := state.cleared.insert key cleared }
        | none => { state with cleared := state.cleared.insert key cleared }

section

variable (sha256 : Bytes -> Digest)

/-- Apply one operation; a malformed operation is refused, an unknown one only
counts for the clock. -/
def apply (op : StateOp) : Update PersonalState Unit := do
  checkHeader op
  let stamp : Stamp := {
    lamport := op.lamport
    deviceId := op.deviceId
    opId := ← opId16 op.opId "op_id"
    digest := sha256 (encode op) }
  match op.op with
  | none => pure ()
  | some kind => applyKind stamp kind
  modify fun state => { state with maxLamport := max state.maxLamport op.lamport }

/-- Apply all operations in turn and return the positions of the refused ones. -/
def applyAllFrom (position : Nat) :
    List StateOp -> PersonalState -> List Nat × PersonalState
  | [], state => ([], state)
  | op :: ops, state =>
      let (result, later) := (apply sha256 op).exec state
      let (rejected, final) := applyAllFrom (position + 1) ops later
      match result with
      | .ok _ => (rejected, final)
      | .error _ => (position :: rejected, final)

def applyAll (ops : List StateOp) (state : PersonalState) :
    List Nat × PersonalState :=
  applyAllFrom sha256 0 ops state

end

end Parvane.State
