import Parvane.Core

/-!
# Operations of the personal state

The messages that travel in the encrypted journal of a user: folders, blocked
peers, notification settings, drafts, scheduled messages and the like.  Every
message comes with its wire format, since a digest of the encoded operation is
the last tie-break between two writers.
-/

namespace Parvane.State

open Wire

/-- The other side of a chat. -/
inductive PeerKind
  | user (user : UserRef)
  | group (ref : Ref)
  deriving DecidableEq

@[ext] structure Peer where
  kind : Option PeerKind
  deriving DecidableEq

instance : Message Peer where
  fields peer :=
    match peer.kind with
    | none => []
    | some (.user user) => message 1 (some user)
    | some (.group ref) => message 2 (some ref)
  fields_injective := by
    rintro ⟨_ | _ | _⟩ ⟨_ | _ | _⟩ equal <;>
      simp_all [message]

@[ext] structure PeerKey where
  peer : Option Peer
  deriving DecidableEq

instance : Message PeerKey where
  fields key := message 1 key.peer
  fields_injective first second equal := by
    simpa [PeerKey.ext_iff] using select_each [1] equal

@[ext] structure Folder where
  id : UInt32
  title : String
  emoticon : String
  includePeers : List Peer
  excludePeers : List Peer
  pinnedPeers : List Peer
  contacts : Bool
  nonContacts : Bool
  groups : Bool
  channels : Bool
  bots : Bool
  excludeMuted : Bool
  excludeRead : Bool
  excludeArchived : Bool
  color : Int32
  deriving DecidableEq

instance : Message Folder where
  fields folder :=
    uint32 1 folder.id ++ string 2 folder.title ++ string 3 folder.emoticon ++
      repeated 4 folder.includePeers ++ repeated 5 folder.excludePeers ++
      repeated 6 folder.pinnedPeers ++ flag 7 folder.contacts ++
      flag 8 folder.nonContacts ++ flag 9 folder.groups ++
      flag 10 folder.channels ++ flag 11 folder.bots ++
      flag 12 folder.excludeMuted ++ flag 13 folder.excludeRead ++
      flag 14 folder.excludeArchived ++ int32 15 folder.color
  fields_injective first second equal := by
    simpa [Folder.ext_iff] using
      select_each [1, 2, 3, 4, 5, 6, 7, 8, 9, 10, 11, 12, 13, 14, 15] equal

@[ext] structure FolderRef where
  id : UInt32
  deriving DecidableEq

instance : Message FolderRef where
  fields ref := uint32 1 ref.id
  fields_injective first second equal := by
    simpa [FolderRef.ext_iff] using select_each [1] equal

@[ext] structure FolderOrder where
  ids : List UInt32
  deriving DecidableEq

instance : Message FolderOrder where
  fields order := packed 1 (order.ids.map UInt32.toNat)
  fields_injective first second equal := by
    have numbers := (packed_inj 1 _ _).1 equal
    have toNat_injective : Function.Injective UInt32.toNat :=
      fun _ _ => UInt32.toNat_inj.1
    exact FolderOrder.ext (List.map_injective_iff.2 toNat_injective numbers)

@[ext] structure BlockEntry where
  peer : Option Peer
  blockedAtMs : Int64
  deriving DecidableEq

instance : Message BlockEntry where
  fields entry := message 1 entry.peer ++ int64 2 entry.blockedAtMs
  fields_injective first second equal := by
    simpa [BlockEntry.ext_iff] using select_each [1, 2] equal

@[ext] structure NotifySettings where
  muteUntilMs : Option Int64
  sound : Option String
  showPreviews : Option Bool
  silent : Option Bool
  deriving DecidableEq

/-- The settings with nothing set. -/
def NotifySettings.default : NotifySettings where
  muteUntilMs := none
  sound := none
  showPreviews := none
  silent := none

theorem map_toNat_inj (first second : Option Int64) :
    first.map (fun value => value.toUInt64.toNat) =
      second.map (fun value => value.toUInt64.toNat) ↔ first = second := by
  cases first <;> cases second <;> simp [UInt64.toNat_inj, toUInt64_inj]

theorem map_utf8_inj (first second : Option String) :
    first.map utf8 = second.map utf8 ↔ first = second := by
  cases first <;> cases second <;> simp

theorem map_boolToNat_inj (first second : Option Bool) :
    first.map Bool.toNat = second.map Bool.toNat ↔ first = second := by
  rcases first with _ | _ | _ <;> rcases second with _ | _ | _ <;> simp

instance : Message NotifySettings where
  fields settings :=
    presentUint 1 (settings.muteUntilMs.map fun value => value.toUInt64.toNat) ++
      presentBytes 2 (settings.sound.map utf8) ++
      presentUint 3 (settings.showPreviews.map Bool.toNat) ++
      presentUint 4 (settings.silent.map Bool.toNat)
  fields_injective first second equal := by
    simpa [NotifySettings.ext_iff, map_toNat_inj, map_utf8_inj, map_boolToNat_inj]
      using select_each [1, 2, 3, 4] equal

@[ext] structure PeerNotify where
  peer : Option Peer
  settings : Option NotifySettings
  deriving DecidableEq

instance : Message PeerNotify where
  fields notify := message 1 notify.peer ++ message 2 notify.settings
  fields_injective first second equal := by
    simpa [PeerNotify.ext_iff] using select_each [1, 2] equal

@[ext] structure NotifyDefaults where
  users : Option NotifySettings
  groups : Option NotifySettings
  channels : Option NotifySettings
  deriving DecidableEq

instance : Message NotifyDefaults where
  fields defaults :=
    message 1 defaults.users ++ message 2 defaults.groups ++
      message 3 defaults.channels
  fields_injective first second equal := by
    simpa [NotifyDefaults.ext_iff] using select_each [1, 2, 3] equal

@[ext] structure Draft where
  peer : Option Peer
  text : Bytes
  replyToOpId : Bytes
  dateMs : Int64
  deriving DecidableEq

instance : Message Draft where
  fields draft :=
    message 1 draft.peer ++ bytes 2 draft.text ++ bytes 3 draft.replyToOpId ++
      int64 4 draft.dateMs
  fields_injective first second equal := by
    simpa [Draft.ext_iff] using select_each [1, 2, 3, 4] equal

@[ext] structure ScheduledMessage where
  opId : Bytes
  peer : Option Peer
  sendAtMs : Int64
  content : Bytes
  deriving DecidableEq

instance : Message ScheduledMessage where
  fields scheduled :=
    bytes 1 scheduled.opId ++ message 2 scheduled.peer ++
      int64 3 scheduled.sendAtMs ++ bytes 4 scheduled.content
  fields_injective first second equal := by
    simpa [ScheduledMessage.ext_iff] using select_each [1, 2, 3, 4] equal

@[ext] structure ScheduledRef where
  opId : Bytes
  deriving DecidableEq

instance : Message ScheduledRef where
  fields ref := bytes 1 ref.opId
  fields_injective first second equal := by
    simpa [ScheduledRef.ext_iff] using select_each [1] equal

@[ext] structure PinnedOrder where
  list : Int32
  peers : List Peer
  deriving DecidableEq

instance : Message PinnedOrder where
  fields order := int32 1 order.list ++ repeated 2 order.peers
  fields_injective first second equal := by
    simpa [PinnedOrder.ext_iff] using select_each [1, 2] equal

@[ext] structure CallRecord where
  callId : Bytes
  peer : Option Peer
  outgoing : Bool
  video : Bool
  reason : Int32
  startedMs : Int64
  durationS : UInt32
  deriving DecidableEq

instance : Message CallRecord where
  fields record :=
    bytes 1 record.callId ++ message 2 record.peer ++ flag 3 record.outgoing ++
      flag 4 record.video ++ int32 5 record.reason ++ int64 6 record.startedMs ++
      uint32 7 record.durationS
  fields_injective first second equal := by
    simpa [CallRecord.ext_iff] using select_each [1, 2, 3, 4, 5, 6, 7] equal

@[ext] structure CallRef where
  callId : Bytes
  deriving DecidableEq

instance : Message CallRef where
  fields ref := bytes 1 ref.callId
  fields_injective first second equal := by
    simpa [CallRef.ext_iff] using select_each [1] equal

@[ext] structure ChatCleared where
  peer : Option Peer
  clearedUntilMs : Int64
  deriving DecidableEq

instance : Message ChatCleared where
  fields cleared := message 1 cleared.peer ++ int64 2 cleared.clearedUntilMs
  fields_injective first second equal := by
    simpa [ChatCleared.ext_iff] using select_each [1, 2] equal

@[ext] structure GroupInvite where
  groupId : Bytes
  linkId : Bytes
  url : String
  createdMs : Int64
  title : String
  expiresMs : Int64
  usageLimit : UInt32
  requiresApproval : Bool
  deriving DecidableEq

instance : Message GroupInvite where
  fields invite :=
    bytes 1 invite.groupId ++ bytes 2 invite.linkId ++ string 3 invite.url ++
      int64 4 invite.createdMs ++ string 5 invite.title ++
      int64 6 invite.expiresMs ++ uint32 7 invite.usageLimit ++
      flag 8 invite.requiresApproval
  fields_injective first second equal := by
    simpa [GroupInvite.ext_iff] using select_each [1, 2, 3, 4, 5, 6, 7, 8] equal

@[ext] structure GroupInviteRef where
  linkId : Bytes
  deriving DecidableEq

instance : Message GroupInviteRef where
  fields ref := bytes 1 ref.linkId
  fields_injective first second equal := by
    simpa [GroupInviteRef.ext_iff] using select_each [1] equal

@[ext] structure PlannerContainer where
  ref : Option Ref
  deriving DecidableEq

instance : Message PlannerContainer where
  fields container := message 1 container.ref
  fields_injective first second equal := by
    simpa [PlannerContainer.ext_iff] using select_each [1] equal

@[ext] structure CloudContainer where
  ref : Option Ref
  role : Int32
  status : Int32
  removed : Bool
  owner : String
  deriving DecidableEq

instance : Message CloudContainer where
  fields container :=
    message 1 container.ref ++ int32 2 container.role ++
      int32 3 container.status ++ flag 4 container.removed ++
      string 5 container.owner
  fields_injective first second equal := by
    simpa [CloudContainer.ext_iff] using select_each [1, 2, 3, 4, 5] equal

@[ext] structure QuickReaction where
  emoji : String
  customEmojiId : String
  deriving DecidableEq

instance : Message QuickReaction where
  fields reaction := string 1 reaction.emoji ++ string 2 reaction.customEmojiId
  fields_injective first second equal := by
    simpa [QuickReaction.ext_iff] using select_each [1, 2] equal

@[ext] structure PackArchive where
  fileId : String
  name : String
  count : UInt32
  key : Bytes
  nonce : Bytes
  capability : Bytes
  contentHash : Bytes
  blobDomain : String
  deriving DecidableEq

instance : Message PackArchive where
  fields archive :=
    string 1 archive.fileId ++ string 2 archive.name ++ uint32 3 archive.count ++
      bytes 4 archive.key ++ bytes 5 archive.nonce ++ bytes 6 archive.capability ++
      bytes 7 archive.contentHash ++ string 8 archive.blobDomain
  fields_injective first second equal := by
    simpa [PackArchive.ext_iff] using select_each [1, 2, 3, 4, 5, 6, 7, 8] equal

@[ext] structure StickerPack where
  setId : String
  ref : Option PackArchive
  emoji : Bool
  addedMs : Int64
  deriving DecidableEq

instance : Message StickerPack where
  fields pack :=
    string 1 pack.setId ++ message 2 pack.ref ++ flag 3 pack.emoji ++
      int64 4 pack.addedMs
  fields_injective first second equal := by
    simpa [StickerPack.ext_iff] using select_each [1, 2, 3, 4] equal

@[ext] structure StickerPackKey where
  setId : String
  deriving DecidableEq

instance : Message StickerPackKey where
  fields key := string 1 key.setId
  fields_injective first second equal := by
    simpa [StickerPackKey.ext_iff] using select_each [1] equal

/-- What an operation does. -/
inductive Op
  | folderSet (folder : Folder)
  | folderRemove (ref : FolderRef)
  | folderOrder (order : FolderOrder)
  | blockSet (entry : BlockEntry)
  | blockRemove (key : PeerKey)
  | notifySet (notify : PeerNotify)
  | notifyRemove (key : PeerKey)
  | notifyDefaults (defaults : NotifyDefaults)
  | draftSet (draft : Draft)
  | draftRemove (key : PeerKey)
  | scheduledSet (scheduled : ScheduledMessage)
  | scheduledRemove (ref : ScheduledRef)
  | scheduledSent (ref : ScheduledRef)
  | archiveSet (key : PeerKey)
  | archiveRemove (key : PeerKey)
  | pinnedOrder (order : PinnedOrder)
  | callSet (record : CallRecord)
  | callRemove (ref : CallRef)
  | chatCleared (cleared : ChatCleared)
  | groupInviteSet (invite : GroupInvite)
  | groupInviteRemove (ref : GroupInviteRef)
  | plannerContainerSet (container : PlannerContainer)
  | cloudContainerSet (container : CloudContainer)
  | unreadMarkSet (key : PeerKey)
  | unreadMarkRemove (key : PeerKey)
  | quickReaction (reaction : QuickReaction)
  | stickerPackSet (pack : StickerPack)
  | stickerPackRemove (key : StickerPackKey)
  deriving DecidableEq

/-- The field of the operation message that carries an operation. -/
def Op.field : Op -> Field
  | .folderSet folder => ⟨10, .delimited (encode folder)⟩
  | .folderRemove ref => ⟨11, .delimited (encode ref)⟩
  | .folderOrder order => ⟨12, .delimited (encode order)⟩
  | .blockSet entry => ⟨13, .delimited (encode entry)⟩
  | .blockRemove key => ⟨14, .delimited (encode key)⟩
  | .notifySet notify => ⟨15, .delimited (encode notify)⟩
  | .notifyRemove key => ⟨16, .delimited (encode key)⟩
  | .notifyDefaults defaults => ⟨17, .delimited (encode defaults)⟩
  | .draftSet draft => ⟨18, .delimited (encode draft)⟩
  | .draftRemove key => ⟨19, .delimited (encode key)⟩
  | .scheduledSet scheduled => ⟨20, .delimited (encode scheduled)⟩
  | .scheduledRemove ref => ⟨21, .delimited (encode ref)⟩
  | .scheduledSent ref => ⟨22, .delimited (encode ref)⟩
  | .archiveSet key => ⟨23, .delimited (encode key)⟩
  | .archiveRemove key => ⟨24, .delimited (encode key)⟩
  | .pinnedOrder order => ⟨25, .delimited (encode order)⟩
  | .callSet record => ⟨26, .delimited (encode record)⟩
  | .callRemove ref => ⟨27, .delimited (encode ref)⟩
  | .chatCleared cleared => ⟨28, .delimited (encode cleared)⟩
  | .groupInviteSet invite => ⟨29, .delimited (encode invite)⟩
  | .groupInviteRemove ref => ⟨30, .delimited (encode ref)⟩
  | .plannerContainerSet container => ⟨31, .delimited (encode container)⟩
  | .cloudContainerSet container => ⟨32, .delimited (encode container)⟩
  | .unreadMarkSet key => ⟨33, .delimited (encode key)⟩
  | .unreadMarkRemove key => ⟨34, .delimited (encode key)⟩
  | .quickReaction reaction => ⟨35, .delimited (encode reaction)⟩
  | .stickerPackSet pack => ⟨36, .delimited (encode pack)⟩
  | .stickerPackRemove key => ⟨37, .delimited (encode key)⟩

/-- The field number tells which operation was meant, the bytes tell the rest. -/
theorem Op.field_injective : Function.Injective Op.field := by
  intro first second equal
  cases first <;> cases second <;>
    simp only [Op.field, Field.mk.injEq, Payload.delimited.injEq, encode_inj,
      Nat.reduceEqDiff, false_and, true_and] at equal <;>
    rw [equal]

/-- One operation of the journal. -/
@[ext] structure StateOp where
  opId : Bytes
  lamport : UInt64
  deviceId : String
  tsMs : Int64
  op : Option Op
  deriving DecidableEq

theorem Op.field_number_ge (op : Op) : 10 ≤ op.field.number := by
  cases op <;> simp [Op.field]

theorem select_opField
    (op : Option Op) {number : Nat} (small : number < 10) :
    select number (op.toList.map Op.field) = [] := by
  rw [select, List.filter_eq_nil_iff]
  intro field member
  obtain ⟨inner, -, rfl⟩ := List.mem_map.1 member
  have large := inner.field_number_ge
  simp
  omega

instance : Message StateOp where
  fields op :=
    bytes 1 op.opId ++ uint64 2 op.lamport ++ string 3 op.deviceId ++
      int64 4 op.tsMs ++ op.op.toList.map Op.field
  fields_injective first second equal := by
    have header := select_each [1, 2, 3, 4] equal
    simp [select_opField] at header
    obtain ⟨opIds, lamports, devices, times⟩ := header
    simp only [opIds, lamports, devices, times, List.append_cancel_left_eq] at equal
    have ops : first.op.toList = second.op.toList :=
      List.map_injective_iff.2 Op.field_injective equal
    have kinds : first.op = second.op := by
      cases firstKind : first.op <;> cases secondKind : second.op <;>
        simp_all
    exact StateOp.ext opIds lamports devices times kinds

end Parvane.State
