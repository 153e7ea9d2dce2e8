import Parvane.History.Segments
import Parvane.History.Validity
import Parvane.Foundation.Joins

/-!
# Read marks and unread messages

A mark says up to which message a chat was read.  Marks of one chat are merged to the
later one; a group may be named with different domains in them, of which the greater is
kept.  Merging marks is a join, and only ever turns unread messages into read ones.  What
kind of content the body of a row has is decided by another library and is a parameter.
-/

namespace Parvane.History

open Wire State Convergence

/-- Kinds of content that are never counted as unread. -/
def nonCountedKinds : List String :=
  ["chat_mode", "poll_vote", "poll_close", "call", "receipt", "edit", "delete", "reaction",
    "pin", "group_key", "delivery_key", "container_key", "state_key"]

/-- One of one's own addresses, the current one or a former one. -/
def isSelf (selves : List String) (address : String) : Bool :=
  selves.any fun self => self == address

/-- The place of a message in the order of marks. -/
def rowMarkKey (row : MessageRow) : Int64 ×ₗ Bytes :=
  toLex (row.tsMs, row.id)

section

variable (isJsonObject : Bytes -> Bool) (contentKind : Bytes -> Option String)

/-- The content of a row counts as a message. -/
def isCounted (row : MessageRow) : Bool :=
  match contentKind row.body with
  | some kind => !nonCountedKinds.contains kind
  | none => false

/-- The message is after the mark. -/
def isAfterMark (row : MessageRow) (mark : Option ReadMark) : Bool :=
  match mark with
  | none => true
  | some mark => markKey mark < rowMarkKey row

/-- The mark, if there is one, is about the chat with this key. -/
def checkMarkOf (mark : Option ReadMark) (key : String) : Result Unit :=
  match mark with
  | none => .ok ()
  | some mark => do
      let other ← checkMark mark
      require (other == key) .contextMismatch

/-- The message is there, not deleted, not one's own, counted, and after the mark. -/
def isUnread (state : RowState) (mark : Option ReadMark) (selves : List String) :
    Result Bool := do
  let (state, key) ← canonical isJsonObject state
  checkMarkOf mark key
  match state.row with
  | none => return false
  | some row =>
      if state.gone.isSome || isSelf selves row.from then return false
      else if isCounted contentKind row then return isAfterMark row mark
      else return false

end

/-- The mark moves when this message is read. -/
def markAfter (mark : Option ReadMark) (tsMs : Int64) (id : Bytes) : Result Bool := do
  id16 id "id"
  match mark with
  | none => return true
  | some mark => do
      let _ ← checkMark mark
      return markKey mark < toLex (tsMs, id)

/-! ## The join of marks -/

/-- The well-formed marks of one chat. -/
def MarksOf (key : String) : Set ReadMark :=
  { mark | checkMark mark = .ok key }

/-- The later of two marks, with the peer chosen of both. -/
def joinMarks (first second : ReadMark) : ReadMark :=
  { (if markKey first < markKey second then second else first) with
    chat := pickChat first.chat second.chat }

/-- The place of a mark, and the domain under which its chat is named. -/
def markRank (mark : ReadMark) : (Int64 ×ₗ Bytes) × String :=
  (markKey mark, (mark.chat.map chatRank).getD "")

theorem mem_marksOf_iff {mark : ReadMark} {key : String} :
    mark ∈ MarksOf key ↔
      mark.upToId.length = idLen ∧
        ∃ peer, mark.chat = some peer ∧ historyChatKey peer = .ok key := by
  change checkMark mark = .ok key ↔ _
  simp only [checkMark, id16, chatKey, bind_eq_ok, require_eq_ok, beq_iff_eq, present_eq_ok]
  constructor
  · rintro ⟨_, length, chat⟩
    exact ⟨length, chat⟩
  · rintro ⟨length, chat⟩
    exact ⟨(), length, chat⟩

theorem markRank_injOn (key : String) : Set.InjOn markRank (MarksOf key) := by
  intro first firstMem second secondMem equal
  obtain ⟨-, firstPeer, firstChat, firstKey⟩ := mem_marksOf_iff.1 firstMem
  obtain ⟨-, secondPeer, secondChat, secondKey⟩ := mem_marksOf_iff.1 secondMem
  obtain ⟨places, domains⟩ := Prod.mk.inj equal
  obtain ⟨times, ids⟩ := Prod.mk.inj (toLex.injective places)
  rw [firstChat, secondChat] at domains
  have peers : firstPeer = secondPeer := chatRank_injOn key firstKey secondKey domains
  apply ReadMark.ext _ times ids
  rw [firstChat, secondChat, peers]

variable {key : String}

/-- The peer chosen for a join is one of the two, with the greater domain. -/
theorem pickChat_joins {first second : Peer}
    (firstKey : historyChatKey first = .ok key) (secondKey : historyChatKey second = .ok key) :
    ∃ peer, pickChat (some first) (some second) = some peer ∧
      historyChatKey peer = .ok key ∧ chatRank peer = chatRank first ⊔ chatRank second := by
  have firstKeys : ∀ peer ∈ some first, historyChatKey peer = .ok key := by
    simpa using firstKey
  rw [pickChat_eq_keepGreatest firstKeys secondKey, keepGreatest_some]
  split
  · next less => exact ⟨second, rfl, secondKey, (sup_eq_right.2 less.le).symm⟩
  · next notLess => exact ⟨first, rfl, firstKey, (sup_eq_left.2 (not_lt.1 notLess)).symm⟩

theorem markKey_joinMarks (first second : ReadMark) :
    markKey (joinMarks first second) = markKey first ⊔ markKey second := by
  unfold joinMarks
  split
  · next less => exact (sup_eq_right.2 less.le).symm
  · next notLess => exact (sup_eq_left.2 (not_lt.1 notLess)).symm

theorem length_upToId_joinMarks {first second : ReadMark}
    (firstLength : first.upToId.length = idLen) (secondLength : second.upToId.length = idLen) :
    (joinMarks first second).upToId.length = idLen := by
  unfold joinMarks
  split
  · exact secondLength
  · exact firstLength

/-- Marks of one chat are joined. -/
theorem joinMarks_joinsOn (key : String) : JoinsOn markRank (MarksOf key) joinMarks := by
  have chosen (first : ReadMark) (firstMem : first ∈ MarksOf key) (second : ReadMark)
      (secondMem : second ∈ MarksOf key) :
      joinMarks first second ∈ MarksOf key ∧
        markRank (joinMarks first second) = markRank first ⊔ markRank second := by
    obtain ⟨firstLength, firstPeer, firstChat, firstKey⟩ := mem_marksOf_iff.1 firstMem
    obtain ⟨secondLength, secondPeer, secondChat, secondKey⟩ := mem_marksOf_iff.1 secondMem
    obtain ⟨peer, picked, peerKey, peerRank⟩ := pickChat_joins firstKey secondKey
    have chat : (joinMarks first second).chat = some peer := by
      rw [← picked, ← firstChat, ← secondChat]
      rfl
    constructor
    · apply mem_marksOf_iff.2
      exact ⟨length_upToId_joinMarks firstLength secondLength, peer, chat, peerKey⟩
    · apply Prod.ext
      · exact markKey_joinMarks first second
      · simp only [markRank, chat, firstChat, secondChat, Option.map_some, Option.getD_some,
          Prod.snd_sup, peerRank]
  refine ⟨?_, ?_, markRank_injOn key⟩
  · exact fun first firstMem second secondMem => (chosen first firstMem second secondMem).1
  · exact fun first firstMem second secondMem => (chosen first firstMem second secondMem).2

theorem markMerge_eq {first second : ReadMark}
    (firstMem : first ∈ MarksOf key) (secondMem : second ∈ MarksOf key) :
    markMerge (some first) (some second) = .ok (some (joinMarks first second)) := by
  have firstCheck : checkMark first = .ok key := firstMem
  have secondCheck : checkMark second = .ok key := secondMem
  simp [markMerge, firstCheck, secondCheck, require, bind, Except.bind, pure, Except.pure,
    joinMarks]

/-! ## Unread messages -/

section

variable (isJsonObject : Bytes -> Bool) (contentKind : Bytes -> Option String)

/-- Nothing that was read becomes unread under a later mark of the chat. -/
theorem isUnread_of_le {state : RowState} {before after : ReadMark} {selves : List String}
    (beforeMem : before ∈ MarksOf key) (afterMem : after ∈ MarksOf key)
    (notBefore : markKey before ≤ markKey after)
    (read : isUnread isJsonObject contentKind state (some before) selves = .ok false) :
    isUnread isJsonObject contentKind state (some after) selves = .ok false := by
  have beforeCheck : checkMark before = .ok key := beforeMem
  have afterCheck : checkMark after = .ok key := afterMem
  unfold isUnread at read ⊢
  rw [bind_eq_ok] at read ⊢
  obtain ⟨⟨state, stateKey⟩, canonicalEq, read⟩ := read
  refine ⟨(state, stateKey), canonicalEq, ?_⟩
  rw [bind_eq_ok] at read ⊢
  obtain ⟨checked, markOf, read⟩ := read
  have sameChecks : checkMarkOf (some after) stateKey = checkMarkOf (some before) stateKey := by
    simp only [checkMarkOf, beforeCheck, afterCheck]
  refine ⟨checked, sameChecks.trans markOf, ?_⟩
  cases rowEq : state.row with
  | none => rfl
  | some row =>
      rw [rowEq] at read
      dsimp only at read ⊢
      split at read
      · next excluded => rw [if_pos excluded]; rfl
      · next included =>
          rw [if_neg included]
          split at read
          · next counted =>
              have notAfter : ¬ markKey before < rowMarkKey row := by
                simpa [isAfterMark, pure, Except.pure] using read
              have notAfterwards := fun less => notAfter (lt_of_le_of_lt notBefore less)
              rw [if_pos counted]
              simpa [isAfterMark, pure, Except.pure] using notAfterwards
          · next notCounted => rw [if_neg notCounted]; rfl

end

/-- Merging the marks of a chat is a join, and reads messages but never unreads them. -/
theorem markMerge_semilattice (key : String) :
    (∀ first ∈ MarksOf key, ∀ second ∈ MarksOf key,
      markMerge (some first) (some second) = markMerge (some second) (some first)) ∧
    (∀ first ∈ MarksOf key, ∀ second ∈ MarksOf key, ∀ third ∈ MarksOf key,
      (markMerge (some first) (some second) >>= fun merged => markMerge merged (some third)) =
        (markMerge (some second) (some third) >>= fun merged =>
          markMerge (some first) merged)) ∧
    (∀ mark ∈ MarksOf key, markMerge (some mark) (some mark) = .ok (some mark)) ∧
    (∀ first ∈ MarksOf key, ∀ second ∈ MarksOf key,
      ∃ merged ∈ MarksOf key, markMerge (some first) (some second) = .ok (some merged) ∧
        ¬ markKey merged < markKey first ∧ ¬ markKey merged < markKey second ∧
        ∀ isJsonObject contentKind state selves,
          isUnread isJsonObject contentKind state (some first) selves = .ok false ->
            isUnread isJsonObject contentKind state (some merged) selves = .ok false) := by
  have joins := joinMarks_joinsOn key
  refine ⟨?_, ?_, ?_, ?_⟩
  · intro first firstMem second secondMem
    rw [markMerge_eq firstMem secondMem, markMerge_eq secondMem firstMem,
      joins.comm firstMem secondMem]
  · intro first firstMem second secondMem third thirdMem
    have leftMem := joins.mem _ firstMem _ secondMem
    have rightMem := joins.mem _ secondMem _ thirdMem
    rw [markMerge_eq firstMem secondMem, markMerge_eq secondMem thirdMem]
    change markMerge (some (joinMarks first second)) (some third) =
      markMerge (some first) (some (joinMarks second third))
    rw [markMerge_eq leftMem thirdMem, markMerge_eq firstMem rightMem,
      joins.assoc firstMem secondMem thirdMem]
  · intro mark mem
    rw [markMerge_eq mem mem, joins.idem mem]
  · intro first firstMem second secondMem
    have mergedMem := joins.mem _ firstMem _ secondMem
    obtain ⟨firstLe, secondLe⟩ := joins.le firstMem secondMem
    refine ⟨joinMarks first second, mergedMem, markMerge_eq firstMem secondMem,
      not_lt.2 firstLe.1, not_lt.2 secondLe.1, ?_⟩
    intro isJsonObject contentKind state selves read
    exact isUnread_of_le isJsonObject contentKind firstMem mergedMem firstLe.1 read

end Parvane.History
