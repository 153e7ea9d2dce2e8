import Parvane.History.Validity

/-!
# Read marks, segments and the summary of a checkpoint

A checkpoint holds the states of all rows, cut into segments by chat and month, and a
summary with the read marks.  Old tombstones and orphans are left out of it.  Lengths of
encoded messages and digests come from other libraries and are parameters.
-/

namespace Parvane.History

open Wire State Convergence

/-- The operation of the journal. -/
def Op.asOp (op : Op) : HistoryOp :=
  { op := some op }

/-! ## Read marks -/

def checkMark (mark : ReadMark) : Result String := do
  id16 mark.upToId "up_to_id"
  chatKey mark.chat

/-- The order of marks. -/
def markKey (mark : ReadMark) : Int64 ×ₗ Bytes :=
  toLex (mark.upToTsMs, mark.upToId)

/-- The later of two marks of one chat. -/
def markMerge (first second : Option ReadMark) : Result (Option ReadMark) :=
  match first, second with
  | some x, some y => do
      let xKey ← checkMark x
      let yKey ← checkMark y
      require (xKey == yKey) .contextMismatch
      let mark := if markKey x < markKey y then y else x
      return some { mark with chat := pickChat x.chat y.chat }
  | some x, none => do
      let _ ← checkMark x
      return some x
  | none, some y => do
      let _ ← checkMark y
      return some y
  | none, none => return none

/-! ## Segments -/

/-- The stamps of all mutations of a state. -/
def RowState.stamps (state : RowState) : List Stamp :=
  (state.gone.toList ++ state.pendingGones).filterMap Gone.stamp ++ state.editStamp.toList ++
    state.pendingEdits.filterMap Edit.stamp ++ state.pinStamp.toList ++
    state.reacts.filterMap Reaction.stamp

/-- Decimal digits, filled with zeros up to a width that counts the sign. -/
def padded (width : Nat) (value : Int) : String :=
  let digits := toString value.natAbs
  let sign := if value < 0 then "-" else ""
  sign ++ String.ofList (List.replicate (width - sign.length - digits.length) '0') ++ digits

/-- Year and month of a time, from the number of days since the epoch. -/
def yearMonth (tsMs : Int64) : String :=
  let days := tsMs.toInt / 86400000
  let z := days + 719468
  let era := z / 146097
  let doe := z % 146097
  let yoe := (doe - doe / 1460 + doe / 36524 - doe / 146096) / 365
  let doy := doe - (365 * yoe + yoe / 4 - yoe / 100)
  let mp := (5 * doy + 2) / 153
  let m := if mp < 10 then mp + 3 else mp - 9
  let y := yoe + era * 400 + if m ≤ 2 then 1 else 0
  padded 4 y ++ "-" ++ padded 2 m

/-- What other libraries decide: which bytes are a JSON object, the digest of the encoded
states, and the length of an encoded operation. -/
structure Codec where
  isJsonObject : Bytes -> Bool
  sha256 : List RowState -> Bytes
  encodedLen : HistoryOp -> Nat

section

variable (codec : Codec)

/-- The segment of a row: its chat and the month of the row, or of the earliest mutation
when the row is unknown. -/
def segmentKey (state : RowState) : Result String := do
  let (state, key) ← canonical codec.isJsonObject state
  let tsMs ← match state.row with
    | some row => Except.ok row.tsMs
    | none => present (state.stamps.map Stamp.tsMs).min? (.invalidField "state")
  return key ++ "|" ++ yearMonth tsMs

/-- Put a state into the map of its segment, merged with the one of the same target. -/
def collect (byTarget : Std.ExtTreeMap Bytes RowState) (state : RowState) :
    Result (Std.ExtTreeMap Bytes RowState) := do
  let (state, _) ← canonical codec.isJsonObject state
  let merged ← match byTarget[state.target]? with
    | some current => merge codec.isJsonObject current state
    | none => Except.ok state
  return byTarget.insert merged.target merged

/-- The states of a segment as they enter its digest. -/
def digested (states : List RowState) : Result (List RowState) := do
  let byTarget ← states.foldlM (collect codec) ∅
  return byTarget.values

def segmentDigest (states : List RowState) : Result Bytes := do
  return codec.sha256 (← digested codec states)

def horizonMs : Int := 180 * 86400000

/-- The last event of a tombstone or an orphan is before the horizon. -/
def RowState.expired (state : RowState) (nowMs : Int64) : Bool :=
  let edge := max (-(2 ^ 63)) (nowMs.toInt - horizonMs)
  match state.gone, state.row with
  | some gone, _ => gone.stamp.any fun stamp => stamp.tsMs.toInt < edge
  | none, none => (state.stamps.map Stamp.tsMs).max?.all fun last => last.toInt < edge
  | none, some _ => false

def canonicalState (state : RowState) : Result RowState := do
  let (state, _) ← canonical codec.isJsonObject state
  return state

/-- Leave out the tombstones and orphans behind the horizon. -/
def compact (states : List RowState) (nowMs : Int64) : Result (List RowState) := do
  let states ← states.mapM (canonicalState codec)
  return states.filter fun state => !state.expired nowMs

/-- The checkpoint has dropped tombstones since the last full synchronisation of a device
that is behind it. -/
def needsReplace (lastFullSyncMs tombstonesSinceMs : Int64) (cursor uptoSeq : Nat) : Bool :=
  lastFullSyncMs < tombstonesSinceMs && cursor < uptoSeq

/-! ## The summary -/

def checkChatSummary (chat : ChatSummary) : Result Unit := do
  let key ← chatKey chat.chat
  chat.last.toList.forM fun last => do
    let (_, lastKey) ← canonical codec.isJsonObject last
    require (lastKey == key) .contextMismatch
  chat.mark.toList.forM fun mark => do
    let markKey ← checkMark mark
    require (markKey == key) .contextMismatch

def checkSummary (summary : Summary) : Result Unit := do
  summary.chats.forM (checkChatSummary codec)
  summary.segments.forM fun segment =>
    require (!segment.key.isEmpty && segment.digest.length == 32) (.invalidField "segment")

def batchBudget : Nat := 204800

def Summary.fits (summary : Summary) : Bool :=
  codec.encodedLen (Op.summary summary).asOp + 64 ≤ batchBudget

/-- The time of the last row of a chat. -/
def ChatSummary.lastMs (chat : ChatSummary) : Int64 :=
  ((chat.last.bind RowState.row).map MessageRow.tsMs).getD Int64.minValue

def Summary.dropLast (summary : Summary) (index : Nat) : Summary :=
  { summary with
    chats := summary.chats.modify index fun chat => { chat with last := none } }

/-- Leave out the last rows of chats, one after another, until the summary fits. -/
def Summary.shrink (summary : Summary) : List Nat -> Summary
  | [] => summary
  | index :: order =>
      let shorter := summary.dropLast index
      if shorter.fits codec then shorter else shorter.shrink order

/-- The chats that name a last row, the oldest first. -/
def Summary.oldestFirst (summary : Summary) : List Nat :=
  let indexed := summary.chats.zipIdx.filter fun chat => chat.1.last.isSome
  (indexed.insertionSort fun first second => first.1.lastMs ≤ second.1.lastMs).map Prod.snd

def canonicalLast (chat : ChatSummary) : Result ChatSummary := do
  match chat.last with
  | none => return chat
  | some last => return { chat with last := some (← canonicalState codec last) }

def summary (chats : List ChatSummary) (segments : List SegmentRef) (tombstonesSinceMs : Int64) :
    Result HistoryOp := do
  let chats ← chats.mapM (canonicalLast codec)
  let whole : Summary := { tombstonesSinceMs, chats, segments }
  checkSummary codec whole
  let short := if whole.fits codec then whole else whole.shrink codec whole.oldestFirst
  require (short.fits codec) (.fieldLimit "summary")
  return (Op.summary short).asOp

/-- The checks of an operation when it is sealed and when it is opened. -/
def validateOp (op : HistoryOp) : Result Unit :=
  match op.op with
  | some (.read mark) => do
      let _ ← checkMark mark
      return ()
  | some (.summary summary) => checkSummary codec summary
  | _ => do
      let _ ← opToState codec.isJsonObject op
      return ()

end

/-! ## What a summary keeps -/

section

variable {codec : Codec}

/-- The summary without the last rows of the oldest chats. -/
def Summary.without (summary : Summary) (count : Nat) : Summary :=
  (summary.oldestFirst.take count).foldl Summary.dropLast summary

/-- Last rows are left out until the summary fits, or all are left out. -/
theorem Summary.shrink_eq (summary : Summary) (order : List Nat) (tooLong : ¬ summary.fits codec) :
    ∃ count, summary.shrink codec order = (order.take count).foldl Summary.dropLast summary ∧
      ∀ fewer < count, ¬ ((order.take fewer).foldl Summary.dropLast summary).fits codec := by
  induction order generalizing summary with
  | nil => exact ⟨0, rfl, fun fewer less => absurd less (Nat.not_lt_zero fewer)⟩
  | cons index order inductionHypothesis =>
      have shorter (count : Nat)
          (earlier : ∀ fewer < count, ¬ ((order.take fewer).foldl Summary.dropLast
            (summary.dropLast index)).fits codec) :
          ∀ fewer < count + 1, ¬ (((index :: order).take fewer).foldl Summary.dropLast
            summary).fits codec := by
        rintro (_ | fewer) less
        · exact tooLong
        · exact earlier fewer (Nat.lt_of_succ_lt_succ less)
      rw [Summary.shrink]
      split
      · exact ⟨1, rfl, shorter 0 fun fewer less => absurd less (Nat.not_lt_zero fewer)⟩
      · next long =>
          obtain ⟨count, shrunk, earlier⟩ := inductionHypothesis _ long
          exact ⟨count + 1, shrunk, shorter count earlier⟩

theorem checkSummary_dropLast {summary : Summary}
    (checked : checkSummary codec summary = .ok ())
    (index : Nat) : checkSummary codec (summary.dropLast index) = .ok () := by
  simp only [checkSummary, bind_eq_ok, forM_eq_ok] at checked ⊢
  obtain ⟨_, chats, segments⟩ := checked
  refine ⟨(), fun chat member => ?_, segments⟩
  obtain ⟨position, found⟩ := List.mem_iff_getElem?.1 member
  rw [Summary.dropLast, List.getElem?_modify] at found
  obtain ⟨before, isBefore, rfl⟩ := Option.map_eq_some_iff.1 found
  have valid := chats before (List.mem_of_getElem? isBefore)
  split
  · simp only [checkChatSummary, bind_eq_ok] at valid ⊢
    obtain ⟨key, isKey, _, -, mark⟩ := valid
    exact ⟨key, isKey, (), rfl, mark⟩
  · exact valid

end

end Parvane.History
