import Mathlib.Data.Option.Basic
import Parvane.Codec.Table
import Parvane.Codec.Typed
import Parvane.State.Messages

/-!
# Limits of the operations of the personal state

The messages of the personal state next to the table of the schema.
-/

namespace Parvane.State

open Wire Codec

instance : Limited table UserRef where
  index := Table.userRef
  spec := Table.userRefSpec
  height := 0
  groups user := [.text 1 "address" 255 user.address]

instance : Limited table Ref where
  index := Table.ref
  spec := Table.refSpec
  height := 0
  groups ref := [.text 1 "domain" 128 ref.domain, .blob 2 "id" 16 ref.id]

/-- The field of a peer that is written. -/
def PeerKind.limits : PeerKind -> Group table
  | .user name => .nested 1 "user" (some name)
  | .group object => .nested 2 "group" (some object)

theorem PeerKind.known_limits (kind : PeerKind) : kind.limits.known ∈ Table.peerSpec.fields := by
  cases kind <;> exact List.mem_of_elem_eq_true rfl

instance : Limited table Peer where
  index := Table.peer
  spec := Table.peerSpec
  height := 1
  groups peer := Group.oneof Table.peerSpec.fields (peer.kind.map PeerKind.limits)
  known_groups _ := Group.map_known_oneof _ _
  fields_groups peer := by
    rw [Group.fields_oneof (by decide)]
    · obtain ⟨_ | kind⟩ := peer
      · rfl
      · cases kind <;> rfl
    · rw [Option.forall_mem_map]
      exact fun kind _ => kind.known_limits
  height_groups peer := by
    refine Group.height_oneof ?_
    rw [Option.forall_mem_map]
    intro kind _
    cases kind <;> exact Nat.le_of_ble_eq_true rfl

theorem moderate_peer (peer : Peer) : Moderate peer ↔ ∀ kind ∈ peer.kind, kind.limits.within := by
  refine (Group.within_oneof ?_).trans ?_
  · rw [Option.forall_mem_map]
    exact fun kind _ => kind.known_limits
  · rw [Option.forall_mem_map]

/-! ## What the operations carry -/

instance : Limited table PeerKey where
  index := Table.peerKey
  spec := Table.peerKeySpec
  height := 2
  groups key := [.nested 1 "peer" key.peer]

instance : Limited table Folder where
  index := Table.folder
  spec := Table.folderSpec
  height := 2
  groups folder :=
    [.uint32 1 "id" folder.id,
      .text 2 "title" 128 folder.title,
      .text 3 "emoticon" 32 folder.emoticon,
      .list 4 "include_peers" 200 folder.includePeers,
      .list 5 "exclude_peers" 200 folder.excludePeers,
      .list 6 "pinned_peers" 200 folder.pinnedPeers,
      .flag 7 "contacts" folder.contacts,
      .flag 8 "non_contacts" folder.nonContacts,
      .flag 9 "groups" folder.groups,
      .flag 10 "channels" folder.channels,
      .flag 11 "bots" folder.bots,
      .flag 12 "exclude_muted" folder.excludeMuted,
      .flag 13 "exclude_read" folder.excludeRead,
      .flag 14 "exclude_archived" folder.excludeArchived,
      .int32 15 "color" folder.color]

instance : Limited table FolderRef where
  index := Table.folderRef
  spec := Table.folderRefSpec
  height := 0
  groups ref := [.uint32 1 "id" ref.id]

instance : Limited table FolderOrder where
  index := Table.folderOrder
  spec := Table.folderOrderSpec
  height := 0
  groups order := [.packed 1 "ids" 256 (order.ids.map UInt32.toNat)]

instance : Limited table BlockEntry where
  index := Table.blockEntry
  spec := Table.blockEntrySpec
  height := 2
  groups entry := [.nested 1 "peer" entry.peer, .int64 2 "blocked_at_ms" entry.blockedAtMs]

instance : Limited table NotifySettings where
  index := Table.notifySettings
  spec := Table.notifySettingsSpec
  height := 0
  groups settings :=
    [.presentInt64 1 "mute_until_ms" settings.muteUntilMs,
      .presentText 2 "sound" 256 settings.sound,
      .presentFlag 3 "show_previews" settings.showPreviews,
      .presentFlag 4 "silent" settings.silent]

instance : Limited table PeerNotify where
  index := Table.peerNotify
  spec := Table.peerNotifySpec
  height := 2
  groups notify := [.nested 1 "peer" notify.peer, .nested 2 "settings" notify.settings]

instance : Limited table NotifyDefaults where
  index := Table.notifyDefaults
  spec := Table.notifyDefaultsSpec
  height := 1
  groups defaults :=
    [.nested 1 "users" defaults.users,
      .nested 2 "groups" defaults.groups,
      .nested 3 "channels" defaults.channels]

instance : Limited table Draft where
  index := Table.draft
  spec := Table.draftSpec
  height := 2
  groups draft :=
    [.nested 1 "peer" draft.peer,
      .blob 2 "text" 131072 draft.text,
      .blob 3 "reply_to_op_id" 16 draft.replyToOpId,
      .int64 4 "date_ms" draft.dateMs]

instance : Limited table ScheduledMessage where
  index := Table.scheduledMessage
  spec := Table.scheduledMessageSpec
  height := 2
  groups scheduled :=
    [.blob 1 "op_id" 16 scheduled.opId,
      .nested 2 "peer" scheduled.peer,
      .int64 3 "send_at_ms" scheduled.sendAtMs,
      .blob 4 "content" 262144 scheduled.content]

instance : Limited table ScheduledRef where
  index := Table.scheduledRef
  spec := Table.scheduledRefSpec
  height := 0
  groups ref := [.blob 1 "op_id" 16 ref.opId]

instance : Limited table PinnedOrder where
  index := Table.pinnedOrder
  spec := Table.pinnedOrderSpec
  height := 2
  groups order := [.int32 1 "list" order.list, .list 2 "peers" 200 order.peers]

instance : Limited table CallRecord where
  index := Table.callRecord
  spec := Table.callRecordSpec
  height := 2
  groups record :=
    [.blob 1 "call_id" 16 record.callId,
      .nested 2 "peer" record.peer,
      .flag 3 "outgoing" record.outgoing,
      .flag 4 "video" record.video,
      .int32 5 "reason" record.reason,
      .int64 6 "started_ms" record.startedMs,
      .uint32 7 "duration_s" record.durationS]

instance : Limited table CallRef where
  index := Table.callRef
  spec := Table.callRefSpec
  height := 0
  groups ref := [.blob 1 "call_id" 16 ref.callId]

instance : Limited table ChatCleared where
  index := Table.chatCleared
  spec := Table.chatClearedSpec
  height := 2
  groups cleared :=
    [.nested 1 "peer" cleared.peer,
      .int64 2 "cleared_until_ms" cleared.clearedUntilMs]

instance : Limited table GroupInvite where
  index := Table.groupInvite
  spec := Table.groupInviteSpec
  height := 0
  groups invite :=
    [.blob 1 "group_id" 32 invite.groupId,
      .blob 2 "link_id" 32 invite.linkId,
      .text 3 "url" 512 invite.url,
      .int64 4 "created_ms" invite.createdMs,
      .text 5 "title" 128 invite.title,
      .int64 6 "expires_ms" invite.expiresMs,
      .uint32 7 "usage_limit" invite.usageLimit,
      .flag 8 "requires_approval" invite.requiresApproval]

instance : Limited table GroupInviteRef where
  index := Table.groupInviteRef
  spec := Table.groupInviteRefSpec
  height := 0
  groups ref := [.blob 1 "link_id" 32 ref.linkId]

instance : Limited table PlannerContainer where
  index := Table.plannerContainer
  spec := Table.plannerContainerSpec
  height := 1
  groups container := [.nested 1 "ref" container.ref]

instance : Limited table CloudContainer where
  index := Table.cloudContainer
  spec := Table.cloudContainerSpec
  height := 1
  groups container :=
    [.nested 1 "ref" container.ref,
      .int32 2 "role" container.role,
      .int32 3 "status" container.status,
      .flag 4 "removed" container.removed,
      .text 5 "owner" 255 container.owner]

instance : Limited table QuickReaction where
  index := Table.quickReaction
  spec := Table.quickReactionSpec
  height := 0
  groups reaction :=
    [.text 1 "emoji" 64 reaction.emoji,
      .text 2 "custom_emoji_id" 32 reaction.customEmojiId]

instance : Limited table PackArchive where
  index := Table.packArchive
  spec := Table.packArchiveSpec
  height := 0
  groups archive :=
    [.text 1 "file_id" 64 archive.fileId,
      .text 2 "name" 64 archive.name,
      .uint32 3 "count" archive.count,
      .blob 4 "key" 32 archive.key,
      .blob 5 "nonce" 24 archive.nonce,
      .blob 6 "capability" 32 archive.capability,
      .blob 7 "content_hash" 32 archive.contentHash,
      .text 8 "blob_domain" 128 archive.blobDomain]

instance : Limited table StickerPack where
  index := Table.stickerPack
  spec := Table.stickerPackSpec
  height := 1
  groups pack :=
    [.text 1 "set_id" 128 pack.setId,
      .nested 2 "ref" pack.ref,
      .flag 3 "emoji" pack.emoji,
      .int64 4 "added_ms" pack.addedMs]

instance : Limited table StickerPackKey where
  index := Table.stickerPackKey
  spec := Table.stickerPackKeySpec
  height := 0
  groups key := [.text 1 "set_id" 128 key.setId]

/-! ## Operations -/

/-- The field of an operation that is written. -/
def Op.limits : Op -> Group table
  | .folderSet folder => .nested 10 "folder_set" (some folder)
  | .folderRemove ref => .nested 11 "folder_remove" (some ref)
  | .folderOrder order => .nested 12 "folder_order" (some order)
  | .blockSet entry => .nested 13 "block_set" (some entry)
  | .blockRemove key => .nested 14 "block_remove" (some key)
  | .notifySet notify => .nested 15 "notify_set" (some notify)
  | .notifyRemove key => .nested 16 "notify_remove" (some key)
  | .notifyDefaults defaults => .nested 17 "notify_defaults" (some defaults)
  | .draftSet draft => .nested 18 "draft_set" (some draft)
  | .draftRemove key => .nested 19 "draft_remove" (some key)
  | .scheduledSet scheduled => .nested 20 "scheduled_set" (some scheduled)
  | .scheduledRemove ref => .nested 21 "scheduled_remove" (some ref)
  | .scheduledSent ref => .nested 22 "scheduled_sent" (some ref)
  | .archiveSet key => .nested 23 "archive_set" (some key)
  | .archiveRemove key => .nested 24 "archive_remove" (some key)
  | .pinnedOrder order => .nested 25 "pinned_order" (some order)
  | .callSet record => .nested 26 "call_set" (some record)
  | .callRemove ref => .nested 27 "call_remove" (some ref)
  | .chatCleared cleared => .nested 28 "chat_cleared" (some cleared)
  | .groupInviteSet invite => .nested 29 "group_invite_set" (some invite)
  | .groupInviteRemove ref => .nested 30 "group_invite_remove" (some ref)
  | .plannerContainerSet container => .nested 31 "planner_container_set" (some container)
  | .cloudContainerSet container => .nested 32 "cloud_container_set" (some container)
  | .unreadMarkSet key => .nested 33 "unread_mark_set" (some key)
  | .unreadMarkRemove key => .nested 34 "unread_mark_remove" (some key)
  | .quickReaction reaction => .nested 35 "quick_reaction" (some reaction)
  | .stickerPackSet pack => .nested 36 "sticker_pack_set" (some pack)
  | .stickerPackRemove key => .nested 37 "sticker_pack_remove" (some key)

theorem Op.known_limits (op : Op) : op.limits.known ∈ Table.stateOpSpec.fields.drop 4 := by
  cases op <;> exact List.mem_of_elem_eq_true rfl

instance : Limited table StateOp where
  index := Table.stateOp
  spec := Table.stateOpSpec
  height := 3
  groups op :=
    ([.blob 1 "op_id" 16 op.opId, .uint64 2 "lamport" op.lamport,
      .text 3 "device_id" 64 op.deviceId, .int64 4 "ts_ms" op.tsMs] : List (Group table)) ++
      Group.oneof (Table.stateOpSpec.fields.drop 4) (op.op.map Op.limits)
  known_groups op := by
    rw [List.map_append, Group.map_known_oneof]
    rfl
  fields_groups op := by
    rw [List.flatMap_append, Group.fields_oneof (by decide)]
    · obtain ⟨opId, lamport, deviceId, tsMs, _ | kind⟩ := op
      · simp [Message.fields]
      · have carried : kind.limits.fields = [kind.field] := by cases kind <;> rfl
        simp [Message.fields, carried]
    · rw [Option.forall_mem_map]
      exact fun kind _ => kind.known_limits
  height_groups op := by
    rw [List.all_append, Bool.and_eq_true]
    refine ⟨rfl, Group.height_oneof ?_⟩
    rw [Option.forall_mem_map]
    intro kind _
    cases kind <;> exact Nat.le_of_ble_eq_true rfl

end Parvane.State
