import Parvane.History.Messages
import Parvane.State.Limits

/-!
# Limits of the operations of the message history

The messages of the history journal next to the table of the schema.
-/

namespace Parvane

open Codec

namespace History

open Wire State

instance : Limited table Stamp where
  index := Table.stamp
  spec := Table.stampSpec
  height := 0
  groups stamp := [.int64 1 "ts_ms" stamp.tsMs, .blob 2 "op_id" 16 stamp.opId]

instance : Limited table MessageRow where
  index := Table.messageRow
  spec := Table.messageRowSpec
  height := 2
  groups row :=
    [.blob 1 "id" 16 row.id,
      .nested 2 "chat" row.chat,
      .text 3 "from" 255 row.from,
      .int64 4 "ts_ms" row.tsMs,
      .blob 5 "body" 262144 row.body]

instance : Limited table Gone where
  index := Table.gone
  spec := Table.goneSpec
  height := 2
  groups gone :=
    [.blob 1 "target" 16 gone.target,
      .nested 2 "chat" gone.chat,
      .nested 3 "stamp" gone.stamp,
      .int32 4 "scope" gone.scope,
      .text 5 "by" 255 gone.by,
      .flag 6 "by_admin" gone.byAdmin]

instance : Limited table Edit where
  index := Table.edit
  spec := Table.editSpec
  height := 2
  groups edit :=
    [.blob 1 "target" 16 edit.target,
      .nested 2 "chat" edit.chat,
      .nested 3 "stamp" edit.stamp,
      .blob 4 "body" 262144 edit.body,
      .text 5 "by" 255 edit.by]

instance : Limited table React where
  index := Table.react
  spec := Table.reactSpec
  height := 2
  groups react :=
    [.blob 1 "target" 16 react.target,
      .nested 2 "chat" react.chat,
      .text 3 "user" 255 react.user,
      .nested 4 "stamp" react.stamp,
      .text 5 "emoji" 64 react.emoji]

instance : Limited table Pin where
  index := Table.pin
  spec := Table.pinSpec
  height := 2
  groups pin :=
    [.blob 1 "target" 16 pin.target,
      .nested 2 "chat" pin.chat,
      .nested 3 "stamp" pin.stamp,
      .flag 4 "pinned" pin.pinned]

instance : Limited table ReadMark where
  index := Table.readMark
  spec := Table.readMarkSpec
  height := 2
  groups mark :=
    [.nested 1 "chat" mark.chat,
      .int64 2 "up_to_ts_ms" mark.upToTsMs,
      .blob 3 "up_to_id" 16 mark.upToId]

instance : Limited table Reaction where
  index := Table.reaction
  spec := Table.reactionSpec
  height := 1
  groups reaction :=
    [.text 1 "user" 255 reaction.user,
      .nested 2 "stamp" reaction.stamp,
      .text 3 "emoji" 64 reaction.emoji]

instance : Limited table RowState where
  index := Table.rowState
  spec := Table.rowStateSpec
  height := 3
  groups state :=
    [.blob 1 "target" 16 state.target,
      .nested 2 "chat" state.chat,
      .nested 3 "row" state.row,
      .nested 4 "edit_stamp" state.editStamp,
      .blob 5 "edit_body" 262144 state.editBody,
      .list 6 "reacts" 1024 state.reacts,
      .nested 7 "pin_stamp" state.pinStamp,
      .flag 8 "pinned" state.pinned,
      .nested 9 "gone" state.gone,
      .list 10 "pending_edits" 16 state.pendingEdits,
      .list 11 "pending_gones" 16 state.pendingGones]

instance : Limited table SegmentRef where
  index := Table.segmentRef
  spec := Table.segmentRefSpec
  height := 0
  groups segment :=
    [.text 1 "key" 400 segment.key,
      .blob 2 "digest" 32 segment.digest,
      .uint64 3 "seq" segment.seq]

instance : Limited table ChatSummary where
  index := Table.chatSummary
  spec := Table.chatSummarySpec
  height := 4
  groups summary :=
    [.nested 1 "chat" summary.chat,
      .nested 2 "last" summary.last,
      .nested 3 "mark" summary.mark,
      .uint32 4 "unread" summary.unread,
      .uint32 5 "rows" summary.rows]

instance : Limited table Summary where
  index := Table.summary
  spec := Table.summarySpec
  height := 5
  groups summary :=
    [.int64 1 "tombstones_since_ms" summary.tombstonesSinceMs,
      .list 2 "chats" 100000 summary.chats,
      .list 3 "segments" 100000 summary.segments]

/-! ## Operations -/

/-- The field of an operation that is written. -/
def Op.limits : Op -> Group table
  | .row sent => .nested 1 "row" (some sent)
  | .gone deletion => .nested 2 "gone" (some deletion)
  | .edit change => .nested 3 "edit" (some change)
  | .react reaction => .nested 4 "react" (some reaction)
  | .pin marked => .nested 5 "pin" (some marked)
  | .read mark => .nested 6 "read" (some mark)
  | .state merged => .nested 7 "state" (some merged)
  | .summary whole => .nested 8 "summary" (some whole)

theorem Op.known_limits (op : Op) : op.limits.known ∈ Table.historyOpSpec.fields := by
  cases op <;> exact List.mem_of_elem_eq_true rfl

instance : Limited table HistoryOp where
  index := Table.historyOp
  spec := Table.historyOpSpec
  height := 6
  groups op := Group.oneof Table.historyOpSpec.fields (op.op.map Op.limits)
  known_groups _ := Group.map_known_oneof _ _
  fields_groups op := by
    rw [Group.fields_oneof (by decide)]
    · obtain ⟨_ | kind⟩ := op
      · rfl
      · cases kind <;> rfl
    · rw [Option.forall_mem_map]
      exact fun kind _ => kind.known_limits
  height_groups op := by
    refine Group.height_oneof ?_
    rw [Option.forall_mem_map]
    intro kind _
    cases kind <;> exact Nat.le_of_ble_eq_true rfl

/-- The limits of an operation are those of what it carries. -/
theorem moderate_historyOp (op : HistoryOp) : Moderate op ↔ ∀ kind ∈ op.op, kind.limits.within := by
  refine (Group.within_oneof ?_).trans ?_
  · rw [Option.forall_mem_map]
    exact fun kind _ => kind.known_limits
  · rw [Option.forall_mem_map]

instance : Limited table HistoryBatch where
  index := Table.historyBatch
  spec := Table.historyBatchSpec
  height := 7
  groups batch :=
    [.text 1 "device_id" 64 batch.deviceId,
      .int64 2 "ts_ms" batch.tsMs,
      .list 3 "ops" 4096 batch.ops]

end History
end Parvane
