import Parvane.History.Messages
import Parvane.State.Apply
import Parvane.Foundation.Register
import Mathlib.Data.List.Sort

/-!
# Merging the state of a message

Events may arrive before the message they are about.  Edits and deletions by others
are then kept as candidates, one for each author, until the author of the message is
known and the valid ones can be told.  Whether bytes are a JSON object is a parameter,
since it is decided by another library.
-/

namespace Parvane.History

open Wire State Convergence

def idLen : Nat := 16

/-- At most so many authors of candidates are kept, besides those always valid. -/
def maxPendingAuthors : Nat := 8

/-! ## Checks -/

def id16 (bytes : Bytes) (field : String) : Result Unit :=
  require (bytes.length == idLen) (.invalidField field)

def checkStamp (stamp : Option Stamp) (field : String) : Result Stamp := do
  let stamp ← present stamp (.invalidField field)
  id16 stamp.opId field
  return stamp

/-- The key of a chat: `u:<address>` or `g:<hex id>` without the domain. -/
def historyChatKey (peer : Peer) : Result String :=
  match peer.kind with
  | some (.group ref) => do
      checkRef ref
      return "g:" ++ String.ofList (hex ref.id)
  | _ => peerKey peer

def chatKey (chat : Option Peer) : Result String := do
  historyChatKey (← present chat (.invalidField "chat"))

/-- The chat of a nested message, if there is one, is the given one. -/
def sameChat (chat : Option Peer) (key : String) : Result Unit :=
  match chat with
  | none => .ok ()
  | some peer => do
      let other ← historyChatKey peer
      require (other == key) .contextMismatch

/-- Of two peers of one chat the one with the greater domain. -/
def pickChat (current incoming : Option Peer) : Option Peer :=
  match incoming with
  | none => current
  | some incoming =>
      match current with
      | none => some incoming
      | some current =>
          match current.kind, incoming.kind with
          | some (.group x), some (.group y) =>
              if y.domain > x.domain then some incoming else some current
          | _, _ => some current

def checkAddress (address : String) : Result Unit :=
  require (isValidAddress address) .badAddress

def checkBy (author : String) : Result Unit :=
  if author.isEmpty then .ok () else checkAddress author

/-! ## Order -/

/-- The order of stamps. -/
def stampKey (stamp : Stamp) : Int64 ×ₗ Bytes :=
  toLex (stamp.tsMs, stamp.opId)

/-- Stamp first, then the bytes of the value. -/
def valueKey [Message α] (stamp : Stamp) (value : α) : (Int64 ×ₗ Bytes) ×ₗ Bytes :=
  toLex (stampKey stamp, encode value)

/-- The second value replaces the first. -/
def later [Message α] (current incoming : Stamp × α) : Bool :=
  valueKey current.1 current.2 < valueKey incoming.1 incoming.2

/-- Of two rows of one message the lesser stays: first by everything but body and
chat, then by the body. -/
def rowKey (row : MessageRow) : Bytes ×ₗ Bytes :=
  toLex (encode { row with body := [], chat := none }, row.body)

/-- The value with the latest stamp. -/
def latest [Message α] (items : List α) (stamp : α -> Stamp) : Option α :=
  items.foldl
    (fun best item =>
      match best with
      | none => some item
      | some current =>
          some (if later (stamp current, current) (stamp item, item) then item else current))
    none

/-! ## Candidates -/

inductive ChatKind
  | user
  | group
  deriving DecidableEq

def chatKindOf (peer : Peer) : Option ChatKind :=
  match peer.kind with
  | some (.user _) => some .user
  | some (.group _) => some .group
  | none => none

def scopeEveryone : Int32 := 1
def scopeMe : Int32 := 2

/-- The deletion is valid whoever wrote the row. -/
def goneAlwaysValid (gone : Gone) (kind : Option ChatKind) : Bool :=
  gone.scope == scopeMe || gone.by.isEmpty || gone.byAdmin || kind == some .user

def goneValid (gone : Gone) (rowFrom : String) (kind : Option ChatKind) : Bool :=
  gone.scope == scopeMe || goneAlwaysValid gone kind || gone.by == rowFrom

def editValid (edit : Edit) (rowFrom : String) : Bool :=
  edit.by.isEmpty || edit.by == rowFrom

/-- Deletions that hold whoever wrote the row share one key. -/
def goneKey (kind : Option ChatKind) (gone : Gone) : String :=
  if goneAlwaysValid gone kind then "" else gone.by

/-- The latest value of each key. -/
def latestByKey [Message α] (items : List α) (key : α -> String) (stamp : α -> Stamp) :
    Std.ExtTreeMap String α :=
  items.foldl
    (fun byKey item => byKey.alter (key item) fun slot =>
      match slot with
      | none => some item
      | some current =>
          if later (stamp current, current) (stamp item, item) then some item
          else some current)
    ∅

/-- One candidate for each key: always the one of the empty key, and of the others
those with the latest stamps. -/
def reducePending [Message α] (items : List α) (key : α -> String) (stamp : α -> Stamp) :
    List α :=
  let byKey := latestByKey items key stamp
  let always := byKey[""]?
  let rest := (byKey.erase "").toList
  let rest := rest.insertionSort fun first second =>
    valueKey (stamp second.2) second.2 ≤ valueKey (stamp first.2) first.2
  let rest := rest.take maxPendingAuthors
  let out := rest ++ always.toList.map fun value => ("", value)
  let out := out.insertionSort fun first second => first.1 ≤ second.1
  out.map Prod.snd

def Edit.stampOf (edit : Edit) : Stamp :=
  edit.stamp.getD {}

def Gone.stampOf (gone : Gone) : Stamp :=
  gone.stamp.getD {}

/-- Keep a reaction if it is later than the one of its user. -/
def putReaction (byUser : Std.ExtTreeMap String Reaction) (reaction : Reaction) :
    Std.ExtTreeMap String Reaction :=
  byUser.alter reaction.user fun slot =>
    match slot with
    | none => some reaction
    | some current =>
        match current.stamp, reaction.stamp with
        | some first, some second =>
            if later (first, current) (second, reaction) then some reaction else some current
        | _, _ => some current

/-! ## The canonical form -/

def MessageRow.withChat (chat : Option Peer) (row : MessageRow) : MessageRow :=
  { row with chat := chat }

def Edit.withChat (chat : Option Peer) (edit : Edit) : Edit :=
  { edit with chat := chat }

def Gone.withChat (chat : Option Peer) (gone : Gone) : Gone :=
  { gone with chat := chat }

/-- The row without its body. -/
def MessageRow.head (row : MessageRow) : MessageRow :=
  { row with body := [] }

/-- The chats named inside a state. -/
def RowState.nestedChats (state : RowState) : List Peer :=
  (state.row.toList.map MessageRow.chat ++ state.pendingEdits.map Edit.chat ++
    state.pendingGones.map Gone.chat ++ state.gone.toList.map Gone.chat).reduceOption

/-- The edits of a state; the one that was chosen counts as one's own. -/
def RowState.candidateEdits (state : RowState) : List Edit :=
  state.pendingEdits ++ state.editStamp.toList.map fun stamp =>
    { target := state.target, stamp := some stamp, body := state.editBody }

def RowState.candidateGones (state : RowState) : List Gone :=
  state.pendingGones ++ state.gone.toList

section

variable (isJsonObject : Bytes -> Bool)

/-- The body of a row or an edit: nothing or a JSON object. -/
def checkJsonObject (bytes : Bytes) (field : String) : Result Unit :=
  if bytes.isEmpty then .ok () else require (isJsonObject bytes) (.invalidField field)

def checkRow (target : Bytes) (key : String) (row : MessageRow) : Result Unit := do
  require (row.id == target) .contextMismatch
  sameChat row.chat key
  checkAddress row.from
  checkJsonObject isJsonObject row.body "row.body"

def checkEdit (target : Bytes) (key : String) (edit : Edit) : Result Unit := do
  require (edit.target == target) .contextMismatch
  sameChat edit.chat key
  let _ ← checkStamp edit.stamp "edit.stamp"
  checkJsonObject isJsonObject edit.body "edit.body"
  checkBy edit.by

def checkGone (target : Bytes) (key : String) (gone : Gone) : Result Unit := do
  require (gone.target == target) .contextMismatch
  sameChat gone.chat key
  let _ ← checkStamp gone.stamp "gone.stamp"
  require (gone.scope == scopeEveryone || gone.scope == scopeMe) (.invalidField "gone.scope")
  checkBy gone.by

def checkPin (pinStamp : Option Stamp) (pinned : Bool) : Result Unit :=
  match pinStamp with
  | some stamp => do
      let _ ← checkStamp (some stamp) "pin_stamp"
      return ()
  | none => require (!pinned) (.invalidField "pinned")

def checkReaction (reaction : Reaction) : Result Unit := do
  checkAddress reaction.user
  let _ ← checkStamp reaction.stamp "react.stamp"
  return ()

/-- The checks of a state, in the order in which they are made; the key of its chat. -/
def checkState (state : RowState) : Result String := do
  id16 state.target "target"
  let key ← chatKey state.chat
  state.nestedChats.forM fun peer => sameChat (some peer) key
  state.row.toList.forM (checkRow isJsonObject state.target key)
  require (state.editStamp.isSome || state.editBody.isEmpty) (.invalidField "edit_body")
  state.candidateEdits.forM (checkEdit isJsonObject state.target key)
  state.candidateGones.forM (checkGone state.target key)
  checkPin state.pinStamp state.pinned
  state.reacts.forM checkReaction
  return key

/-- The chat of a state, chosen among all that it names. -/
def RowState.chosenChat (state : RowState) : Option Peer :=
  state.nestedChats.foldl (fun chat peer => pickChat chat (some peer)) state.chat

/-- A deleted message keeps neither its content nor its mutations. -/
def RowState.bury (state : RowState) : RowState :=
  if state.gone.isSome then
    { state with
      row := state.row.map MessageRow.head
      editStamp := none
      editBody := []
      reacts := []
      pinStamp := none
      pinned := false }
  else state

/-- Choose among the candidates if the row is known, and thin them out if not. -/
def RowState.settle (state : RowState) : RowState :=
  let chat := state.chosenChat
  let kind := chat.bind chatKindOf
  let edits := state.candidateEdits.map (Edit.withChat chat)
  let gones := state.candidateGones.map (Gone.withChat chat)
  let reacts := ((state.reacts.foldl putReaction ∅).toList.map Prod.snd)
  let common : RowState :=
    { target := state.target
      chat := chat
      reacts := reacts
      pinStamp := state.pinStamp
      pinned := state.pinned }
  match state.row with
  | some row =>
      let edit := latest (edits.filter fun edit => editValid edit row.from) Edit.stampOf
      let gone := latest (gones.filter fun gone => goneValid gone row.from kind) Gone.stampOf
      RowState.bury
        { common with
          row := some (row.withChat chat)
          editStamp := edit.map Edit.stampOf
          editBody := (edit.map Edit.body).getD []
          gone := gone }
  | none =>
      { common with
        pendingEdits := reducePending edits Edit.by Edit.stampOf
        pendingGones := reducePending gones (goneKey kind) Gone.stampOf }

/-- Check a state and bring it into its canonical form; also returns the key of the
chat. -/
def canonical (state : RowState) : Result (RowState × String) := do
  let key ← checkState isJsonObject state
  return (state.settle, key)

/-- The chosen edit of a state as a candidate again. -/
def editOf (stamp : Option Stamp) (body target : Bytes) : List Edit :=
  stamp.toList.map fun stamp => { target := target, stamp := some stamp, body := body }

/-- Of two pins the later one. -/
def mergePin (first second : Option Stamp × Bool) : Option Stamp × Bool :=
  match first.1, second.1 with
  | some x, some y =>
      if later (x, first.2) (y, second.2) then (some y, second.2) else (some x, first.2)
  | some x, none => (some x, first.2)
  | none, some y => (some y, second.2)
  | none, none => (none, false)

def mergeRow (first second : Option MessageRow) : Option MessageRow :=
  match first, second with
  | some x, some y => some (if rowKey y < rowKey x then y else x)
  | x, y => x.or y

/-- The events of two canonical states together, before a choice among them. -/
def RowState.pile (first second : RowState) : RowState where
  target := first.target
  chat := pickChat first.chat second.chat
  row := mergeRow first.row second.row
  reacts := first.reacts ++ second.reacts
  pinStamp := (mergePin (first.pinStamp, first.pinned) (second.pinStamp, second.pinned)).1
  pinned := (mergePin (first.pinStamp, first.pinned) (second.pinStamp, second.pinned)).2
  pendingEdits := first.pendingEdits ++ second.pendingEdits ++
    editOf first.editStamp first.editBody first.target ++
    editOf second.editStamp second.editBody first.target
  pendingGones := first.pendingGones ++ second.pendingGones ++ first.gone.toList ++
    second.gone.toList

/-- Merge two states of one message. -/
def merge (first second : RowState) : Result RowState := do
  let (first, firstKey) ← canonical isJsonObject first
  let (second, secondKey) ← canonical isJsonObject second
  require (first.target == second.target && firstKey == secondKey) .contextMismatch
  let (merged, _) ← canonical isJsonObject (first.pile second)
  return merged

/-! ## Operations -/

/-- The state of one event, before it is made canonical. -/
def rawState (op : HistoryOp) : Result RowState :=
  match op.op with
  | some (.row row) => .ok { target := row.id, chat := row.chat, row := some row }
  | some (.gone gone) => .ok { target := gone.target, chat := gone.chat, pendingGones := [gone] }
  | some (.edit edit) => .ok { target := edit.target, chat := edit.chat, pendingEdits := [edit] }
  | some (.react react) => do
      let stamp ← checkStamp react.stamp "react.stamp"
      return {
        target := react.target
        chat := react.chat
        reacts := [{ user := react.user, stamp := some stamp, emoji := react.emoji }] }
  | some (.pin pin) => do
      let stamp ← checkStamp pin.stamp "pin.stamp"
      return {
        target := pin.target
        chat := pin.chat
        pinStamp := some stamp
        pinned := pin.pinned }
  | some (.state state) => .ok state
  | some (.read _) => .error (.invalidField "op")
  | some (.summary _) => .error (.invalidField "op")
  | none => .error (.invalidField "op")

/-- The canonical state of one event. -/
def opToState (op : HistoryOp) : Result RowState := do
  let raw ← rawState op
  let (state, _) ← canonical isJsonObject raw
  return state

/-- Apply an event to a state; without a state the event may come before its target. -/
def apply (state : Option RowState) (op : HistoryOp) : Result RowState := do
  let one ← opToState isJsonObject op
  match state with
  | none => return one
  | some state => merge isJsonObject state one

end

end Parvane.History
