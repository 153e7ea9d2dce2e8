import Parvane.Codec.Limits

/-!
# The table of the encrypted journals

The part of the table of the schema that the records of the personal state and of the message
history are checked against.  Messages refer to each other by their place in the table.
-/

namespace Parvane.Codec
namespace Table

open Limits

/-! ## Places -/

abbrev userRef : Nat := 0
abbrev ref : Nat := 1
abbrev peer : Nat := 2
abbrev peerKey : Nat := 3
abbrev folder : Nat := 4
abbrev folderRef : Nat := 5
abbrev folderOrder : Nat := 6
abbrev blockEntry : Nat := 7
abbrev notifySettings : Nat := 8
abbrev peerNotify : Nat := 9
abbrev notifyDefaults : Nat := 10
abbrev draft : Nat := 11
abbrev scheduledMessage : Nat := 12
abbrev scheduledRef : Nat := 13
abbrev pinnedOrder : Nat := 14
abbrev callRecord : Nat := 15
abbrev callRef : Nat := 16
abbrev chatCleared : Nat := 17
abbrev groupInvite : Nat := 18
abbrev groupInviteRef : Nat := 19
abbrev plannerContainer : Nat := 20
abbrev cloudContainer : Nat := 21
abbrev quickReaction : Nat := 22
abbrev packArchive : Nat := 23
abbrev stickerPack : Nat := 24
abbrev stickerPackKey : Nat := 25
abbrev stateOp : Nat := 26
abbrev stamp : Nat := 27
abbrev messageRow : Nat := 28
abbrev gone : Nat := 29
abbrev edit : Nat := 30
abbrev react : Nat := 31
abbrev pin : Nat := 32
abbrev readMark : Nat := 33
abbrev reaction : Nat := 34
abbrev rowState : Nat := 35
abbrev segmentRef : Nat := 36
abbrev chatSummary : Nat := 37
abbrev summary : Nat := 38
abbrev historyOp : Nat := 39
abbrev historyRecord : Nat := 40
abbrev checkpoint : Nat := 41
abbrev syncResponse : Nat := 42
abbrev historyBatch : Nat := 43

/-! ## Names -/

def userRefSpec : MsgSpec where
  name := "parvane.core.v2.UserRef"
  fields :=
    [{ number := 1, name := "address", ty := .str, maxLen := 255 }]
  sorted := by decide

def refSpec : MsgSpec where
  name := "parvane.core.v2.Ref"
  fields :=
    [{ number := 1, name := "domain", ty := .str, maxLen := 128 },
      { number := 2, name := "id", ty := .bytes, maxLen := 16 }]
  sorted := by decide

/-! ## The personal state -/

def peerSpec : MsgSpec where
  name := "parvane.state.v1.Peer"
  fields :=
    [{ number := 1, name := "user", ty := .message userRef },
      { number := 2, name := "group", ty := .message ref }]
  sorted := by decide

def peerKeySpec : MsgSpec where
  name := "parvane.state.v1.PeerKey"
  fields :=
    [{ number := 1, name := "peer", ty := .message peer }]
  sorted := by decide

def folderSpec : MsgSpec where
  name := "parvane.state.v1.Folder"
  fields :=
    [{ number := 1, name := "id", ty := .varint },
      { number := 2, name := "title", ty := .str, maxLen := 128 },
      { number := 3, name := "emoticon", ty := .str, maxLen := 32 },
      { number := 4, name := "include_peers", ty := .message peer, repeated := true,
        maxItems := 200 },
      { number := 5, name := "exclude_peers", ty := .message peer, repeated := true,
        maxItems := 200 },
      { number := 6, name := "pinned_peers", ty := .message peer, repeated := true,
        maxItems := 200 },
      { number := 7, name := "contacts", ty := .varint },
      { number := 8, name := "non_contacts", ty := .varint },
      { number := 9, name := "groups", ty := .varint },
      { number := 10, name := "channels", ty := .varint },
      { number := 11, name := "bots", ty := .varint },
      { number := 12, name := "exclude_muted", ty := .varint },
      { number := 13, name := "exclude_read", ty := .varint },
      { number := 14, name := "exclude_archived", ty := .varint },
      { number := 15, name := "color", ty := .varint }]
  sorted := by decide

def folderRefSpec : MsgSpec where
  name := "parvane.state.v1.FolderRef"
  fields :=
    [{ number := 1, name := "id", ty := .varint }]
  sorted := by decide

def folderOrderSpec : MsgSpec where
  name := "parvane.state.v1.FolderOrder"
  fields :=
    [{ number := 1, name := "ids", ty := .varint, repeated := true, maxItems := 256 }]
  sorted := by decide

def blockEntrySpec : MsgSpec where
  name := "parvane.state.v1.BlockEntry"
  fields :=
    [{ number := 1, name := "peer", ty := .message peer },
      { number := 2, name := "blocked_at_ms", ty := .varint }]
  sorted := by decide

def notifySettingsSpec : MsgSpec where
  name := "parvane.state.v1.NotifySettings"
  fields :=
    [{ number := 1, name := "mute_until_ms", ty := .varint },
      { number := 2, name := "sound", ty := .str, maxLen := 256 },
      { number := 3, name := "show_previews", ty := .varint },
      { number := 4, name := "silent", ty := .varint }]
  sorted := by decide

def peerNotifySpec : MsgSpec where
  name := "parvane.state.v1.PeerNotify"
  fields :=
    [{ number := 1, name := "peer", ty := .message peer },
      { number := 2, name := "settings", ty := .message notifySettings }]
  sorted := by decide

def notifyDefaultsSpec : MsgSpec where
  name := "parvane.state.v1.NotifyDefaults"
  fields :=
    [{ number := 1, name := "users", ty := .message notifySettings },
      { number := 2, name := "groups", ty := .message notifySettings },
      { number := 3, name := "channels", ty := .message notifySettings }]
  sorted := by decide

def draftSpec : MsgSpec where
  name := "parvane.state.v1.Draft"
  fields :=
    [{ number := 1, name := "peer", ty := .message peer },
      { number := 2, name := "text", ty := .bytes, maxLen := 131072 },
      { number := 3, name := "reply_to_op_id", ty := .bytes, maxLen := 16 },
      { number := 4, name := "date_ms", ty := .varint }]
  sorted := by decide

def scheduledMessageSpec : MsgSpec where
  name := "parvane.state.v1.ScheduledMessage"
  fields :=
    [{ number := 1, name := "op_id", ty := .bytes, maxLen := 16 },
      { number := 2, name := "peer", ty := .message peer },
      { number := 3, name := "send_at_ms", ty := .varint },
      { number := 4, name := "content", ty := .bytes, maxLen := 262144 }]
  sorted := by decide

def scheduledRefSpec : MsgSpec where
  name := "parvane.state.v1.ScheduledRef"
  fields :=
    [{ number := 1, name := "op_id", ty := .bytes, maxLen := 16 }]
  sorted := by decide

def pinnedOrderSpec : MsgSpec where
  name := "parvane.state.v1.PinnedOrder"
  fields :=
    [{ number := 1, name := "list", ty := .varint },
      { number := 2, name := "peers", ty := .message peer, repeated := true,
        maxItems := 200 }]
  sorted := by decide

def callRecordSpec : MsgSpec where
  name := "parvane.state.v1.CallRecord"
  fields :=
    [{ number := 1, name := "call_id", ty := .bytes, maxLen := 16 },
      { number := 2, name := "peer", ty := .message peer },
      { number := 3, name := "outgoing", ty := .varint },
      { number := 4, name := "video", ty := .varint },
      { number := 5, name := "reason", ty := .varint },
      { number := 6, name := "started_ms", ty := .varint },
      { number := 7, name := "duration_s", ty := .varint }]
  sorted := by decide

def callRefSpec : MsgSpec where
  name := "parvane.state.v1.CallRef"
  fields :=
    [{ number := 1, name := "call_id", ty := .bytes, maxLen := 16 }]
  sorted := by decide

def chatClearedSpec : MsgSpec where
  name := "parvane.state.v1.ChatCleared"
  fields :=
    [{ number := 1, name := "peer", ty := .message peer },
      { number := 2, name := "cleared_until_ms", ty := .varint }]
  sorted := by decide

def groupInviteSpec : MsgSpec where
  name := "parvane.state.v1.GroupInvite"
  fields :=
    [{ number := 1, name := "group_id", ty := .bytes, maxLen := 32 },
      { number := 2, name := "link_id", ty := .bytes, maxLen := 32 },
      { number := 3, name := "url", ty := .str, maxLen := 512 },
      { number := 4, name := "created_ms", ty := .varint },
      { number := 5, name := "title", ty := .str, maxLen := 128 },
      { number := 6, name := "expires_ms", ty := .varint },
      { number := 7, name := "usage_limit", ty := .varint },
      { number := 8, name := "requires_approval", ty := .varint }]
  sorted := by decide

def groupInviteRefSpec : MsgSpec where
  name := "parvane.state.v1.GroupInviteRef"
  fields :=
    [{ number := 1, name := "link_id", ty := .bytes, maxLen := 32 }]
  sorted := by decide

def plannerContainerSpec : MsgSpec where
  name := "parvane.state.v1.PlannerContainer"
  fields :=
    [{ number := 1, name := "ref", ty := .message ref }]
  sorted := by decide

def cloudContainerSpec : MsgSpec where
  name := "parvane.state.v1.CloudContainer"
  fields :=
    [{ number := 1, name := "ref", ty := .message ref },
      { number := 2, name := "role", ty := .varint },
      { number := 3, name := "status", ty := .varint },
      { number := 4, name := "removed", ty := .varint },
      { number := 5, name := "owner", ty := .str, maxLen := 255 }]
  sorted := by decide

def quickReactionSpec : MsgSpec where
  name := "parvane.state.v1.QuickReaction"
  fields :=
    [{ number := 1, name := "emoji", ty := .str, maxLen := 64 },
      { number := 2, name := "custom_emoji_id", ty := .str, maxLen := 32 }]
  sorted := by decide

def packArchiveSpec : MsgSpec where
  name := "parvane.state.v1.PackArchive"
  fields :=
    [{ number := 1, name := "file_id", ty := .str, maxLen := 64 },
      { number := 2, name := "name", ty := .str, maxLen := 64 },
      { number := 3, name := "count", ty := .varint },
      { number := 4, name := "key", ty := .bytes, maxLen := 32 },
      { number := 5, name := "nonce", ty := .bytes, maxLen := 24 },
      { number := 6, name := "capability", ty := .bytes, maxLen := 32 },
      { number := 7, name := "content_hash", ty := .bytes, maxLen := 32 },
      { number := 8, name := "blob_domain", ty := .str, maxLen := 128 }]
  sorted := by decide

def stickerPackSpec : MsgSpec where
  name := "parvane.state.v1.StickerPack"
  fields :=
    [{ number := 1, name := "set_id", ty := .str, maxLen := 128 },
      { number := 2, name := "ref", ty := .message packArchive },
      { number := 3, name := "emoji", ty := .varint },
      { number := 4, name := "added_ms", ty := .varint }]
  sorted := by decide

def stickerPackKeySpec : MsgSpec where
  name := "parvane.state.v1.StickerPackKey"
  fields :=
    [{ number := 1, name := "set_id", ty := .str, maxLen := 128 }]
  sorted := by decide

def stateOpSpec : MsgSpec where
  name := "parvane.state.v1.StateOp"
  fields :=
    [{ number := 1, name := "op_id", ty := .bytes, maxLen := 16 },
      { number := 2, name := "lamport", ty := .varint },
      { number := 3, name := "device_id", ty := .str, maxLen := 64 },
      { number := 4, name := "ts_ms", ty := .varint },
      { number := 10, name := "folder_set", ty := .message folder },
      { number := 11, name := "folder_remove", ty := .message folderRef },
      { number := 12, name := "folder_order", ty := .message folderOrder },
      { number := 13, name := "block_set", ty := .message blockEntry },
      { number := 14, name := "block_remove", ty := .message peerKey },
      { number := 15, name := "notify_set", ty := .message peerNotify },
      { number := 16, name := "notify_remove", ty := .message peerKey },
      { number := 17, name := "notify_defaults", ty := .message notifyDefaults },
      { number := 18, name := "draft_set", ty := .message draft },
      { number := 19, name := "draft_remove", ty := .message peerKey },
      { number := 20, name := "scheduled_set", ty := .message scheduledMessage },
      { number := 21, name := "scheduled_remove", ty := .message scheduledRef },
      { number := 22, name := "scheduled_sent", ty := .message scheduledRef },
      { number := 23, name := "archive_set", ty := .message peerKey },
      { number := 24, name := "archive_remove", ty := .message peerKey },
      { number := 25, name := "pinned_order", ty := .message pinnedOrder },
      { number := 26, name := "call_set", ty := .message callRecord },
      { number := 27, name := "call_remove", ty := .message callRef },
      { number := 28, name := "chat_cleared", ty := .message chatCleared },
      { number := 29, name := "group_invite_set", ty := .message groupInvite },
      { number := 30, name := "group_invite_remove", ty := .message groupInviteRef },
      { number := 31, name := "planner_container_set", ty := .message plannerContainer },
      { number := 32, name := "cloud_container_set", ty := .message cloudContainer },
      { number := 33, name := "unread_mark_set", ty := .message peerKey },
      { number := 34, name := "unread_mark_remove", ty := .message peerKey },
      { number := 35, name := "quick_reaction", ty := .message quickReaction },
      { number := 36, name := "sticker_pack_set", ty := .message stickerPack },
      { number := 37, name := "sticker_pack_remove", ty := .message stickerPackKey }]
  sorted := by decide

/-! ## The message history -/

def stampSpec : MsgSpec where
  name := "parvane.history.v1.Stamp"
  fields :=
    [{ number := 1, name := "ts_ms", ty := .varint },
      { number := 2, name := "op_id", ty := .bytes, maxLen := 16 }]
  sorted := by decide

def messageRowSpec : MsgSpec where
  name := "parvane.history.v1.MessageRow"
  fields :=
    [{ number := 1, name := "id", ty := .bytes, maxLen := 16 },
      { number := 2, name := "chat", ty := .message peer },
      { number := 3, name := "from", ty := .str, maxLen := 255 },
      { number := 4, name := "ts_ms", ty := .varint },
      { number := 5, name := "body", ty := .bytes, maxLen := 262144 }]
  sorted := by decide

def goneSpec : MsgSpec where
  name := "parvane.history.v1.Gone"
  fields :=
    [{ number := 1, name := "target", ty := .bytes, maxLen := 16 },
      { number := 2, name := "chat", ty := .message peer },
      { number := 3, name := "stamp", ty := .message stamp },
      { number := 4, name := "scope", ty := .varint },
      { number := 5, name := "by", ty := .str, maxLen := 255 },
      { number := 6, name := "by_admin", ty := .varint }]
  sorted := by decide

def editSpec : MsgSpec where
  name := "parvane.history.v1.Edit"
  fields :=
    [{ number := 1, name := "target", ty := .bytes, maxLen := 16 },
      { number := 2, name := "chat", ty := .message peer },
      { number := 3, name := "stamp", ty := .message stamp },
      { number := 4, name := "body", ty := .bytes, maxLen := 262144 },
      { number := 5, name := "by", ty := .str, maxLen := 255 }]
  sorted := by decide

def reactSpec : MsgSpec where
  name := "parvane.history.v1.React"
  fields :=
    [{ number := 1, name := "target", ty := .bytes, maxLen := 16 },
      { number := 2, name := "chat", ty := .message peer },
      { number := 3, name := "user", ty := .str, maxLen := 255 },
      { number := 4, name := "stamp", ty := .message stamp },
      { number := 5, name := "emoji", ty := .str, maxLen := 64 }]
  sorted := by decide

def pinSpec : MsgSpec where
  name := "parvane.history.v1.Pin"
  fields :=
    [{ number := 1, name := "target", ty := .bytes, maxLen := 16 },
      { number := 2, name := "chat", ty := .message peer },
      { number := 3, name := "stamp", ty := .message stamp },
      { number := 4, name := "pinned", ty := .varint }]
  sorted := by decide

def readMarkSpec : MsgSpec where
  name := "parvane.history.v1.ReadMark"
  fields :=
    [{ number := 1, name := "chat", ty := .message peer },
      { number := 2, name := "up_to_ts_ms", ty := .varint },
      { number := 3, name := "up_to_id", ty := .bytes, maxLen := 16 }]
  sorted := by decide

def reactionSpec : MsgSpec where
  name := "parvane.history.v1.Reaction"
  fields :=
    [{ number := 1, name := "user", ty := .str, maxLen := 255 },
      { number := 2, name := "stamp", ty := .message stamp },
      { number := 3, name := "emoji", ty := .str, maxLen := 64 }]
  sorted := by decide

def rowStateSpec : MsgSpec where
  name := "parvane.history.v1.RowState"
  fields :=
    [{ number := 1, name := "target", ty := .bytes, maxLen := 16 },
      { number := 2, name := "chat", ty := .message peer },
      { number := 3, name := "row", ty := .message messageRow },
      { number := 4, name := "edit_stamp", ty := .message stamp },
      { number := 5, name := "edit_body", ty := .bytes, maxLen := 262144 },
      { number := 6, name := "reacts", ty := .message reaction, repeated := true,
        maxItems := 1024 },
      { number := 7, name := "pin_stamp", ty := .message stamp },
      { number := 8, name := "pinned", ty := .varint },
      { number := 9, name := "gone", ty := .message gone },
      { number := 10, name := "pending_edits", ty := .message edit, repeated := true,
        maxItems := 16 },
      { number := 11, name := "pending_gones", ty := .message gone, repeated := true,
        maxItems := 16 }]
  sorted := by decide

def segmentRefSpec : MsgSpec where
  name := "parvane.history.v1.SegmentRef"
  fields :=
    [{ number := 1, name := "key", ty := .str, maxLen := 400 },
      { number := 2, name := "digest", ty := .bytes, maxLen := 32 },
      { number := 3, name := "seq", ty := .varint }]
  sorted := by decide

def chatSummarySpec : MsgSpec where
  name := "parvane.history.v1.ChatSummary"
  fields :=
    [{ number := 1, name := "chat", ty := .message peer },
      { number := 2, name := "last", ty := .message rowState },
      { number := 3, name := "mark", ty := .message readMark },
      { number := 4, name := "unread", ty := .varint },
      { number := 5, name := "rows", ty := .varint }]
  sorted := by decide

def summarySpec : MsgSpec where
  name := "parvane.history.v1.Summary"
  fields :=
    [{ number := 1, name := "tombstones_since_ms", ty := .varint },
      { number := 2, name := "chats", ty := .message chatSummary, repeated := true,
        maxItems := 100000 },
      { number := 3, name := "segments", ty := .message segmentRef, repeated := true,
        maxItems := 100000 }]
  sorted := by decide

def historyOpSpec : MsgSpec where
  name := "parvane.history.v1.HistoryOp"
  fields :=
    [{ number := 1, name := "row", ty := .message messageRow },
      { number := 2, name := "gone", ty := .message gone },
      { number := 3, name := "edit", ty := .message edit },
      { number := 4, name := "react", ty := .message react },
      { number := 5, name := "pin", ty := .message pin },
      { number := 6, name := "read", ty := .message readMark },
      { number := 7, name := "state", ty := .message rowState },
      { number := 8, name := "summary", ty := .message summary }]
  sorted := by decide

def historyRecordSpec : MsgSpec where
  name := "parvane.history.v1.HistoryRecord"
  fields :=
    [{ number := 1, name := "seq", ty := .varint, serverSet := true },
      { number := 2, name := "op_id", ty := .bytes, maxLen := 16 },
      { number := 3, name := "aead_ciphertext", ty := .bytes, maxLen := 262144 },
      { number := 4, name := "chunk", ty := .varint }]
  sorted := by decide

def checkpointSpec : MsgSpec where
  name := "parvane.history.v1.Checkpoint"
  fields :=
    [{ number := 1, name := "id", ty := .varint },
      { number := 2, name := "upto_seq", ty := .varint },
      { number := 3, name := "summary_seq", ty := .varint },
      { number := 4, name := "chunk_seqs", ty := .varint, repeated := true, maxItems := 100000 },
      { number := 5, name := "created_ms", ty := .varint }]
  sorted := by decide

def syncResponseSpec : MsgSpec where
  name := "parvane.history.v1.SyncResponse"
  fields :=
    [{ number := 1, name := "records", ty := .message historyRecord, repeated := true,
        maxItems := 1024 },
      { number := 2, name := "more", ty := .varint },
      { number := 3, name := "head_seq", ty := .varint },
      { number := 4, name := "compacted", ty := .message checkpoint }]
  sorted := by decide

def historyBatchSpec : MsgSpec where
  name := "parvane.history.v1.HistoryBatch"
  fields :=
    [{ number := 1, name := "device_id", ty := .str, maxLen := 64 },
      { number := 2, name := "ts_ms", ty := .varint },
      { number := 3, name := "ops", ty := .message historyOp, repeated := true,
        maxItems := 4096 }]
  sorted := by decide

end Table

/-- The table, in the order of the places. -/
def table : Limits.Schema :=
  [Table.userRefSpec, Table.refSpec, Table.peerSpec, Table.peerKeySpec, Table.folderSpec,
    Table.folderRefSpec, Table.folderOrderSpec, Table.blockEntrySpec, Table.notifySettingsSpec,
    Table.peerNotifySpec, Table.notifyDefaultsSpec, Table.draftSpec, Table.scheduledMessageSpec,
    Table.scheduledRefSpec, Table.pinnedOrderSpec, Table.callRecordSpec, Table.callRefSpec,
    Table.chatClearedSpec, Table.groupInviteSpec, Table.groupInviteRefSpec,
    Table.plannerContainerSpec, Table.cloudContainerSpec, Table.quickReactionSpec,
    Table.packArchiveSpec, Table.stickerPackSpec, Table.stickerPackKeySpec, Table.stateOpSpec,
    Table.stampSpec, Table.messageRowSpec, Table.goneSpec, Table.editSpec, Table.reactSpec,
    Table.pinSpec, Table.readMarkSpec, Table.reactionSpec, Table.rowStateSpec,
    Table.segmentRefSpec, Table.chatSummarySpec, Table.summarySpec, Table.historyOpSpec,
    Table.historyRecordSpec, Table.checkpointSpec, Table.syncResponseSpec,
    Table.historyBatchSpec]

end Parvane.Codec
