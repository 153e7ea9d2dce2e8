import Parvane.State.Messages

/-!
# Events of the message history

The operations of the encrypted history journal of an account: a message row, its
edits, deletions, reactions and pins, the merged state of a row, read marks and the
summary of a checkpoint.  The wire format is given for what takes part in a tie-break.
-/

namespace Parvane.History

open Wire State

/-- Time and identifier of a mutation. -/
@[ext] structure Stamp where
  tsMs : Int64 := 0
  opId : Bytes := []
  deriving DecidableEq

instance : Message Stamp where
  fields stamp := int64 1 stamp.tsMs ++ bytes 2 stamp.opId
  fields_injective first second equal := by
    simpa [Stamp.ext_iff] using select_each [1, 2] equal

/-- A message as it was sent. -/
@[ext] structure MessageRow where
  id : Bytes
  chat : Option Peer := none
  «from» : String
  tsMs : Int64 := 0
  body : Bytes := []
  deriving DecidableEq

instance : Message MessageRow where
  fields row :=
    bytes 1 row.id ++ message 2 row.chat ++ string 3 row.from ++ int64 4 row.tsMs ++
      bytes 5 row.body
  fields_injective first second equal := by
    simpa [MessageRow.ext_iff] using select_each [1, 2, 3, 4, 5] equal

/-- A deletion.  The scope is a number of the enumeration `GoneScope`. -/
@[ext] structure Gone where
  target : Bytes
  chat : Option Peer := none
  stamp : Option Stamp := none
  scope : Int32 := 0
  «by» : String := ""
  byAdmin : Bool := false
  deriving DecidableEq

instance : Message Gone where
  fields gone :=
    bytes 1 gone.target ++ message 2 gone.chat ++
      (message 3 gone.stamp ++ int32 4 gone.scope ++ string 5 gone.by ++ flag 6 gone.byAdmin)
  fields_injective first second equal := by
    simpa [Gone.ext_iff] using select_each [1, 2, 3, 4, 5, 6] equal

/-- An edit of the body. -/
@[ext] structure Edit where
  target : Bytes
  chat : Option Peer := none
  stamp : Option Stamp := none
  body : Bytes := []
  «by» : String := ""
  deriving DecidableEq

instance : Message Edit where
  fields edit :=
    bytes 1 edit.target ++ message 2 edit.chat ++
      (message 3 edit.stamp ++ bytes 4 edit.body ++ string 5 edit.by)
  fields_injective first second equal := by
    simpa [Edit.ext_iff] using select_each [1, 2, 3, 4, 5] equal

@[ext] structure React where
  target : Bytes
  chat : Option Peer := none
  user : String
  stamp : Option Stamp := none
  emoji : String := ""
  deriving DecidableEq

instance : Message React where
  fields react :=
    bytes 1 react.target ++ message 2 react.chat ++ string 3 react.user ++
      message 4 react.stamp ++ string 5 react.emoji
  fields_injective first second equal := by
    simpa [React.ext_iff] using select_each [1, 2, 3, 4, 5] equal

@[ext] structure Pin where
  target : Bytes
  chat : Option Peer := none
  stamp : Option Stamp := none
  pinned : Bool := false
  deriving DecidableEq

instance : Message Pin where
  fields pin :=
    bytes 1 pin.target ++ message 2 pin.chat ++ message 3 pin.stamp ++ flag 4 pin.pinned
  fields_injective first second equal := by
    simpa [Pin.ext_iff] using select_each [1, 2, 3, 4] equal

@[ext] structure ReadMark where
  chat : Option Peer := none
  upToTsMs : Int64 := 0
  upToId : Bytes := []
  deriving DecidableEq

instance : Message ReadMark where
  fields mark := message 1 mark.chat ++ int64 2 mark.upToTsMs ++ bytes 3 mark.upToId
  fields_injective first second equal := by
    simpa [ReadMark.ext_iff] using select_each [1, 2, 3] equal

/-- The reaction of one user; an empty emoji is a reaction taken back. -/
@[ext] structure Reaction where
  user : String
  stamp : Option Stamp := none
  emoji : String := ""
  deriving DecidableEq

instance : Message Reaction where
  fields reaction :=
    string 1 reaction.user ++ message 2 reaction.stamp ++ string 3 reaction.emoji
  fields_injective first second equal := by
    simpa [Reaction.ext_iff] using select_each [1, 2, 3] equal

/-- A bare Boolean as a message, the way pins are compared. -/
instance : Message Bool where
  fields value := flag 1 value
  fields_injective first second equal := by
    simpa using select_each [1] equal

/-- The merged state of one message. -/
@[ext] structure RowState where
  target : Bytes
  chat : Option Peer := none
  row : Option MessageRow := none
  editStamp : Option Stamp := none
  editBody : Bytes := []
  reacts : List Reaction := []
  pinStamp : Option Stamp := none
  pinned : Bool := false
  gone : Option Gone := none
  pendingEdits : List Edit := []
  pendingGones : List Gone := []
  deriving DecidableEq

instance : Message RowState where
  fields state :=
    bytes 1 state.target ++ message 2 state.chat ++ message 3 state.row ++
      message 4 state.editStamp ++ bytes 5 state.editBody ++ repeated 6 state.reacts ++
      message 7 state.pinStamp ++ flag 8 state.pinned ++ message 9 state.gone ++
      repeated 10 state.pendingEdits ++ repeated 11 state.pendingGones
  fields_injective first second equal := by
    simpa [RowState.ext_iff] using select_each [1, 2, 3, 4, 5, 6, 7, 8, 9, 10, 11] equal

@[ext] structure SegmentRef where
  key : String
  digest : Bytes
  seq : UInt64
  deriving DecidableEq

instance : Message SegmentRef where
  fields segment := string 1 segment.key ++ bytes 2 segment.digest ++ uint64 3 segment.seq
  fields_injective first second equal := by
    simpa [SegmentRef.ext_iff] using select_each [1, 2, 3] equal

@[ext] structure ChatSummary where
  chat : Option Peer
  last : Option RowState
  mark : Option ReadMark
  unread : UInt32
  rows : UInt32
  deriving DecidableEq

instance : Message ChatSummary where
  fields summary :=
    message 1 summary.chat ++ message 2 summary.last ++ message 3 summary.mark ++
      uint32 4 summary.unread ++ uint32 5 summary.rows
  fields_injective first second equal := by
    simpa [ChatSummary.ext_iff] using select_each [1, 2, 3, 4, 5] equal

@[ext] structure Summary where
  tombstonesSinceMs : Int64
  chats : List ChatSummary
  segments : List SegmentRef
  deriving DecidableEq

instance : Message Summary where
  fields summary :=
    int64 1 summary.tombstonesSinceMs ++ repeated 2 summary.chats ++ repeated 3 summary.segments
  fields_injective first second equal := by
    simpa [Summary.ext_iff] using select_each [1, 2, 3] equal

/-- An operation of the journal. -/
inductive Op
  | row (row : MessageRow)
  | gone (gone : Gone)
  | edit (edit : Edit)
  | react (react : React)
  | pin (pin : Pin)
  | read (mark : ReadMark)
  | state (state : RowState)
  | summary (summary : Summary)
  deriving DecidableEq

/-- The field of the operation message that carries an operation. -/
def Op.field : Op -> Field
  | .row sent => ⟨1, .delimited (encode sent)⟩
  | .gone deletion => ⟨2, .delimited (encode deletion)⟩
  | .edit change => ⟨3, .delimited (encode change)⟩
  | .react reaction => ⟨4, .delimited (encode reaction)⟩
  | .pin marked => ⟨5, .delimited (encode marked)⟩
  | .read mark => ⟨6, .delimited (encode mark)⟩
  | .state merged => ⟨7, .delimited (encode merged)⟩
  | .summary whole => ⟨8, .delimited (encode whole)⟩

/-- The field number tells which operation was meant, the bytes tell the rest. -/
theorem Op.field_injective : Function.Injective Op.field := by
  intro first second equal
  cases first <;> cases second <;> simp_all [Op.field]

structure HistoryOp where
  op : Option Op
  deriving DecidableEq

instance : Message HistoryOp where
  fields op := op.op.toList.map Op.field
  fields_injective := by
    rintro ⟨_ | first⟩ ⟨_ | second⟩ equal
    · rfl
    · cases equal
    · cases equal
    · simpa [Op.field_injective.eq_iff] using equal

/-- The operations of one record. -/
@[ext] structure HistoryBatch where
  deviceId : String
  tsMs : Int64
  ops : List HistoryOp
  deriving DecidableEq

instance : Message HistoryBatch where
  fields batch := string 1 batch.deviceId ++ int64 2 batch.tsMs ++ repeated 3 batch.ops
  fields_injective first second equal := by
    simpa [HistoryBatch.ext_iff] using select_each [1, 2, 3] equal

end Parvane.History
