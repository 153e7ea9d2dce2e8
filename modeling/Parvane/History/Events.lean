import Parvane.History.Candidates

/-!
# Events and the states that describe them

The state of a message stands for the set of the events that went into it.  While the
row is unknown, it holds the latest edit and deletion of each author.  When the row is
known, it holds the latest valid edit and deletion, and after a deletion nothing else.
A state describes a set of events when it holds just that; there is one such state.

Events are compared without the chats they name, since the chat that was chosen last
is written into all of them.
-/

namespace Parvane.History

open Wire State Convergence

/-! ## Chats inside events -/

@[simp] theorem MessageRow.withChat_withChat (first second : Option Peer) (row : MessageRow) :
    (row.withChat first).withChat second = row.withChat second := rfl

@[simp] theorem Edit.withChat_withChat (first second : Option Peer) (edit : Edit) :
    (edit.withChat first).withChat second = edit.withChat second := rfl

@[simp] theorem Gone.withChat_withChat (first second : Option Peer) (gone : Gone) :
    (gone.withChat first).withChat second = gone.withChat second := rfl

theorem Edit.withChat_of_chat {edit : Edit} (bare : edit.chat = none) :
    edit.withChat none = edit := by
  rw [← bare]
  rfl

theorem Gone.withChat_of_chat {gone : Gone} (bare : gone.chat = none) :
    gone.withChat none = gone := by
  rw [← bare]
  rfl

theorem MessageRow.withChat_of_chat {row : MessageRow} (bare : row.chat = none) :
    row.withChat none = row := by
  rw [← bare]
  rfl

/-- A common beginning does not take part in a comparison. -/
theorem valueKey_le_valueKey_of_append [Message α]
    {first second firstOther secondOther : α} {firstStamp secondStamp : Stamp}
    {common commonOther firstRest secondRest : Bytes}
    (firstBytes : encode first = common ++ firstRest)
    (secondBytes : encode second = common ++ secondRest)
    (firstOtherBytes : encode firstOther = commonOther ++ firstRest)
    (secondOtherBytes : encode secondOther = commonOther ++ secondRest) :
    valueKey firstStamp first ≤ valueKey secondStamp second ↔
      valueKey firstStamp firstOther ≤ valueKey secondStamp secondOther := by
  have cancel (common : Bytes) : common ++ firstRest ≤ common ++ secondRest ↔
      firstRest ≤ secondRest := by
    have strict : StrictMono fun rest : Bytes => common ++ rest :=
      fun _ _ less => List.append_left_lt less
    exact strict.le_iff_le
  simp only [valueKey, Prod.Lex.toLex_le_toLex, firstBytes, secondBytes, firstOtherBytes,
    secondOtherBytes, cancel]

abbrev editRank : Edit -> (Int64 ×ₗ Bytes) ×ₗ Bytes := eventRank Edit.stampOf

abbrev goneRank : Gone -> (Int64 ×ₗ Bytes) ×ₗ Bytes := eventRank Gone.stampOf

theorem editRank_withChat_le_iff {first second : Edit}
    (targets : first.target = second.target) (chat other : Option Peer) :
    editRank (first.withChat chat) ≤ editRank (second.withChat chat) ↔
      editRank (first.withChat other) ≤ editRank (second.withChat other) := by
  have split (edit : Edit) (chat : Option Peer) :
      encode (edit.withChat chat) = encodeFields (bytes 1 edit.target ++ message 2 chat) ++
        encodeFields (message 3 edit.stamp ++ bytes 4 edit.body ++ string 5 edit.by) := by
    rw [← encodeFields_append]
    rfl
  exact valueKey_le_valueKey_of_append (split first chat) (targets ▸ split second chat)
    (split first other) (targets ▸ split second other)

theorem goneRank_withChat_le_iff {first second : Gone}
    (targets : first.target = second.target) (chat other : Option Peer) :
    goneRank (first.withChat chat) ≤ goneRank (second.withChat chat) ↔
      goneRank (first.withChat other) ≤ goneRank (second.withChat other) := by
  have split (gone : Gone) (chat : Option Peer) :
      encode (gone.withChat chat) = encodeFields (bytes 1 gone.target ++ message 2 chat) ++
        encodeFields (message 3 gone.stamp ++ int32 4 gone.scope ++ string 5 gone.by ++
          flag 6 gone.byAdmin) := by
    rw [← encodeFields_append]
    rfl
  exact valueKey_le_valueKey_of_append (split first chat) (targets ▸ split second chat)
    (split first other) (targets ▸ split second other)

/-! ## Events -/

/-- The events about one message.  Rows, edits and deletions do not name their chats
here; the chats are kept apart. -/
structure Events where
  chats : Set Peer
  rows : Set MessageRow
  edits : Set Edit
  gones : Set Gone
  reacts : Set Reaction
  pins : Set (Stamp × Bool)

namespace Events

instance : Union Events where
  union first second :=
    { chats := first.chats ∪ second.chats
      rows := first.rows ∪ second.rows
      edits := first.edits ∪ second.edits
      gones := first.gones ∪ second.gones
      reacts := first.reacts ∪ second.reacts
      pins := first.pins ∪ second.pins }

/-- Rows, edits and deletions are about the target and do not name a chat. -/
structure About (target : Bytes) (events : Events) : Prop where
  rows : ∀ row ∈ events.rows, row.id = target ∧ row.chat = none
  edits : ∀ edit ∈ events.edits, edit.target = target ∧ edit.chat = none
  gones : ∀ gone ∈ events.gones, gone.target = target ∧ gone.chat = none

end Events

/-- The events that a state stands for. -/
def RowState.events (state : RowState) : Events where
  chats := { peer | peer ∈ state.chat ∨ peer ∈ state.nestedChats }
  rows := MessageRow.withChat none '' { row | row ∈ state.row }
  edits := Edit.withChat none '' { edit | edit ∈ state.candidateEdits }
  gones := Gone.withChat none '' { gone | gone ∈ state.candidateGones }
  reacts := { reaction | reaction ∈ state.reacts }
  pins := { pin | state.pinStamp = some pin.1 ∧ state.pinned = pin.2 }

/-! ## The order of events -/

/-- The domain of a group. -/
def chatRank (peer : Peer) : String :=
  match peer.kind with
  | some (.group ref) => ref.domain
  | _ => ""

def reactRank (reaction : Reaction) : (Int64 ×ₗ Bytes) ×ₗ Bytes :=
  valueKey (reaction.stamp.getD {}) reaction

def pinRank (pin : Stamp × Bool) : (Int64 ×ₗ Bytes) ×ₗ Bytes :=
  valueKey pin.1 pin.2

/-- The least row is the greatest in this order. -/
def rowRank (row : MessageRow) : (Bytes ×ₗ Bytes)ᵒᵈ :=
  OrderDual.toDual (rowKey row)

def headRank (row : MessageRow) : Bytesᵒᵈ :=
  OrderDual.toDual (encode row)

/-- What remains of an edit that was chosen. -/
def Edit.chosen (edit : Edit) : Stamp × Bytes :=
  (edit.stampOf, edit.body)

def chosenRank (chosen : Stamp × Bytes) : Int64 ×ₗ Bytes :=
  stampKey chosen.1

theorem stampKey_injective : Function.Injective stampKey := by
  intro first second equal
  simp only [stampKey, EmbeddingLike.apply_eq_iff_eq, Prod.mk.injEq] at equal
  exact Stamp.ext equal.1 equal.2

theorem reactRank_injective : Function.Injective reactRank := by
  intro first second equal
  exact encode_injective (congrArg (fun key => (ofLex key).2) equal)

theorem pinRank_injective : Function.Injective pinRank := by
  intro first second equal
  have stamps : stampKey first.1 = stampKey second.1 :=
    congrArg (fun key => (ofLex key).1) equal
  have values : encode first.2 = encode second.2 := congrArg (fun key => (ofLex key).2) equal
  exact Prod.ext (stampKey_injective stamps) (encode_injective values)

theorem headRank_injective : Function.Injective headRank :=
  fun _ _ equal => encode_injective (OrderDual.toDual_inj.1 equal)

theorem rowRank_injOn : Set.InjOn rowRank { row | row.chat = none } := by
  intro first firstBare second secondBare equal
  have keys : rowKey first = rowKey second := OrderDual.toDual_inj.1 equal
  simp only [rowKey, EmbeddingLike.apply_eq_iff_eq, Prod.mk.injEq, encode_inj,
    MessageRow.mk.injEq] at keys
  obtain ⟨⟨ids, -, authors, times, -⟩, bodies⟩ := keys
  have chats : first.chat = second.chat := by
    rw [show first.chat = none from firstBare, show second.chat = none from secondBare]
  exact MessageRow.ext ids chats authors times bodies

/-- A lesser row has a lesser head. -/
theorem encode_head_le_of_rowKey_le {first second : MessageRow}
    (firstBare : first.chat = none) (secondBare : second.chat = none)
    (ordered : rowKey first ≤ rowKey second) : encode first.head ≤ encode second.head := by
  have heads : ∀ row : MessageRow, row.chat = none ->
      (ofLex (rowKey row)).1 = encode row.head := by
    intro row bare
    have same : { row with body := [], chat := none } = row.head := by
      rw [← bare]
      rfl
    simp only [rowKey, ofLex_toLex, same]
  rw [← heads first firstBare, ← heads second secondBare]
  exact Prod.Lex.monotone_fst _ _ ordered

/-! ## Description -/

/-- The pin of a state. -/
def RowState.pin (state : RowState) : Option (Stamp × Bool) :=
  state.pinStamp.map fun stamp => (stamp, state.pinned)

/-- The chosen edit of a state. -/
def RowState.edit (state : RowState) : Option (Stamp × Bytes) :=
  state.editStamp.map fun stamp => (stamp, state.editBody)

section

variable (author : String) (kind : Option ChatKind)

namespace Events

/-- The edits that are valid for the row. -/
def validEdits (events : Events) : Set (Stamp × Bytes) :=
  Edit.chosen '' { edit | edit ∈ events.edits ∧ editValid edit author = true }

/-- The deletions that are valid for the row. -/
def validGones (events : Events) : Set Gone :=
  { gone | gone ∈ events.gones ∧ goneValid gone author kind = true }

end Events

/-- The state of a message whose row is unknown. -/
structure DescribesOrphan (events : Events) (state : RowState) : Prop where
  row : state.row = none
  gone : state.gone = none
  editStamp : state.editStamp = none
  editBody : state.editBody = []
  edits : ∃ edits, state.pendingEdits = edits.map (Edit.withChat state.chat) ∧
    KeyedList.IsTopList Edit.by editRank events.edits edits
  gones : ∃ gones, state.pendingGones = gones.map (Gone.withChat state.chat) ∧
    KeyedList.IsTopList (goneKey kind) goneRank events.gones gones
  reacts : KeyedList.IsTopList Reaction.user reactRank events.reacts state.reacts
  unpinned : state.pinStamp = none -> state.pinned = false
  pin : IsTopOf pinRank events.pins state.pin

/-- The state of a message that was not deleted. -/
structure DescribesAlive (events : Events) (state : RowState) : Prop where
  gone : state.gone = none
  gones : events.validGones author kind = ∅
  row : ∃ row, state.row = some (row.withChat state.chat) ∧ IsTopOf rowRank events.rows (some row)
  unedited : state.editStamp = none -> state.editBody = []
  edit : IsTopOf chosenRank (events.validEdits author) state.edit
  reacts : KeyedList.IsTopList Reaction.user reactRank events.reacts state.reacts
  unpinned : state.pinStamp = none -> state.pinned = false
  pin : IsTopOf pinRank events.pins state.pin

/-- The state of a message that was deleted. -/
structure DescribesGone (events : Events) (state : RowState) : Prop where
  gone : ∃ gone, state.gone = some (gone.withChat state.chat) ∧
    IsTopOf goneRank (events.validGones author kind) (some gone)
  row : ∃ head, state.row = some (head.withChat state.chat) ∧
    IsTopOf headRank (MessageRow.head '' events.rows) (some head)
  editStamp : state.editStamp = none
  editBody : state.editBody = []
  reacts : state.reacts = []
  pinStamp : state.pinStamp = none
  pinned : state.pinned = false

/-- The state of a message whose row is known. -/
def DescribesKnown (events : Events) (state : RowState) : Prop :=
  state.pendingEdits = [] ∧ state.pendingGones = [] ∧
    (DescribesAlive author kind events state ∨ DescribesGone author kind events state)

/-- The state that stands for a set of events. -/
structure Describes (target : Bytes) (events : Events) (state : RowState) : Prop where
  target : state.target = target
  chat : IsTopOf chatRank events.chats state.chat
  orphan : events.rows = ∅ -> DescribesOrphan kind events state
  known : events.rows.Nonempty -> DescribesKnown author kind events state

/-! ## Dropping events -/

namespace Events

/-- The message is not deleted, as far as is known. -/
def Alive (events : Events) : Prop :=
  events.rows = ∅ ∨ events.validGones author kind = ∅

end Events

/-- Few of the events, but enough of them for the same state. -/
structure Reduces (few many : Events) : Prop where
  chats : Cofinal chatRank few.chats many.chats
  heads : Cofinal headRank (MessageRow.head '' few.rows) (MessageRow.head '' many.rows)
  orphanEdits : many.rows = ∅ -> KeyedList.KeyCofinal Edit.by editRank few.edits many.edits
  orphanGones : many.rows = ∅ ->
    KeyedList.KeyCofinal (goneKey kind) goneRank few.gones many.gones
  gones : Cofinal goneRank (few.validGones author kind) (many.validGones author kind)
  rows : many.Alive author kind -> Cofinal rowRank few.rows many.rows
  edits : many.Alive author kind ->
    Cofinal chosenRank (few.validEdits author) (many.validEdits author)
  reacts : many.Alive author kind ->
    KeyedList.KeyCofinal Reaction.user reactRank few.reacts many.reacts
  pins : many.Alive author kind -> Cofinal pinRank few.pins many.pins

variable {author kind}

theorem Reduces.rows_eq_empty_iff {few many : Events}
    (reduces : Reduces author kind few many) : few.rows = ∅ ↔ many.rows = ∅ := by
  have heads := reduces.heads.eq_empty_iff
  rw [Set.image_eq_empty, Set.image_eq_empty] at heads
  exact heads

theorem Reduces.alive {few many : Events}
    (reduces : Reduces author kind few many)
    (alive : many.Alive author kind) : few.Alive author kind := by
  rcases alive with noRow | noGone
  · exact .inl (reduces.rows_eq_empty_iff.2 noRow)
  · exact .inr (reduces.gones.eq_empty_iff.2 noGone)

/-- A state that describes few events that are enough describes them all. -/
theorem Describes.of_reduces {target : Bytes} {few many : Events} {state : RowState}
    (describes : Describes author kind target few state) (reduces : Reduces author kind few many) :
    Describes author kind target many state := by
  refine ⟨describes.target, reduces.chats.isTopOf describes.chat, ?_, ?_⟩
  · intro noRow
    have orphan := describes.orphan (reduces.rows_eq_empty_iff.2 noRow)
    have alive : many.Alive author kind := .inl noRow
    obtain ⟨edits, editsEq, editsTop⟩ := orphan.edits
    obtain ⟨gones, gonesEq, gonesTop⟩ := orphan.gones
    exact
      { orphan with
        edits := ⟨edits, editsEq, (reduces.orphanEdits noRow).isTopList editsTop⟩
        gones := ⟨gones, gonesEq, (reduces.orphanGones noRow).isTopList gonesTop⟩
        reacts := (reduces.reacts alive).isTopList orphan.reacts
        pin := (reduces.pins alive).isTopOf orphan.pin }
  · intro someRow
    have fewRow : few.rows.Nonempty := by
      rw [Set.nonempty_iff_ne_empty] at someRow ⊢
      exact fun empty => someRow (reduces.rows_eq_empty_iff.1 empty)
    obtain ⟨noEdits, noGones, living | buried⟩ := describes.known fewRow
    · have noGone := reduces.gones.eq_empty_iff.1 living.gones
      have alive : many.Alive author kind := .inr noGone
      obtain ⟨row, rowEq, rowTop⟩ := living.row
      refine ⟨noEdits, noGones, .inl ?_⟩
      exact
        { living with
          gones := noGone
          row := ⟨row, rowEq, (reduces.rows alive).isTopOf rowTop⟩
          edit := (reduces.edits alive).isTopOf living.edit
          reacts := (reduces.reacts alive).isTopList living.reacts
          pin := (reduces.pins alive).isTopOf living.pin }
    · obtain ⟨gone, goneEq, goneTop⟩ := buried.gone
      obtain ⟨head, headEq, headTop⟩ := buried.row
      refine ⟨noEdits, noGones, .inr ?_⟩
      exact
        { buried with
          gone := ⟨gone, goneEq, reduces.gones.isTopOf goneTop⟩
          row := ⟨head, headEq, reduces.heads.isTopOf headTop⟩ }

theorem Reduces.trans {few some many : Events}
    (first : Reduces author kind few some)
    (second : Reduces author kind some many) : Reduces author kind few many where
  chats := first.chats.trans second.chats
  heads := first.heads.trans second.heads
  orphanEdits noRow :=
    (first.orphanEdits (second.rows_eq_empty_iff.2 noRow)).trans (second.orphanEdits noRow)
  orphanGones noRow :=
    (first.orphanGones (second.rows_eq_empty_iff.2 noRow)).trans (second.orphanGones noRow)
  gones := first.gones.trans second.gones
  rows alive := (first.rows (second.alive alive)).trans (second.rows alive)
  edits alive := (first.edits (second.alive alive)).trans (second.edits alive)
  reacts alive := (first.reacts (second.alive alive)).trans (second.reacts alive)
  pins alive := (first.pins (second.alive alive)).trans (second.pins alive)

theorem Reduces.union {few many fewOther manyOther : Events}
    (reduces : Reduces author kind few many)
    (otherReduces : Reduces author kind fewOther manyOther) :
    Reduces author kind (few ∪ fewOther) (many ∪ manyOther) := by
  have validGones_union (first second : Events) :
      (first ∪ second).validGones author kind =
        first.validGones author kind ∪ second.validGones author kind := by
    ext gone
    exact or_and_right
  have validEdits_union (first second : Events) :
      (first ∪ second).validEdits author =
        first.validEdits author ∪ second.validEdits author := by
    rw [Events.validEdits, Events.validEdits, Events.validEdits, ← Set.image_union]
    congr 1
    ext edit
    exact or_and_right
  have parts (alive : (many ∪ manyOther).Alive author kind) :
      many.Alive author kind ∧ manyOther.Alive author kind := by
    rcases alive with noRow | noGone
    · obtain ⟨first, second⟩ := Set.union_empty_iff.1 noRow
      exact ⟨.inl first, .inl second⟩
    · rw [validGones_union] at noGone
      obtain ⟨first, second⟩ := Set.union_empty_iff.1 noGone
      exact ⟨.inr first, .inr second⟩
  refine ⟨reduces.chats.union otherReduces.chats, ?_, ?_, ?_, ?_, ?_, ?_, ?_, ?_⟩
  · have heads := reduces.heads.union otherReduces.heads
    rw [← Set.image_union, ← Set.image_union] at heads
    exact heads
  · intro noRow
    obtain ⟨first, second⟩ := Set.union_empty_iff.1 noRow
    exact (reduces.orphanEdits first).union (otherReduces.orphanEdits second)
  · intro noRow
    obtain ⟨first, second⟩ := Set.union_empty_iff.1 noRow
    exact (reduces.orphanGones first).union (otherReduces.orphanGones second)
  · rw [validGones_union, validGones_union]
    exact reduces.gones.union otherReduces.gones
  · intro alive
    exact (reduces.rows (parts alive).1).union (otherReduces.rows (parts alive).2)
  · intro alive
    rw [validEdits_union, validEdits_union]
    exact (reduces.edits (parts alive).1).union (otherReduces.edits (parts alive).2)
  · intro alive
    exact (reduces.reacts (parts alive).1).union (otherReduces.reacts (parts alive).2)
  · intro alive
    exact (reduces.pins (parts alive).1).union (otherReduces.pins (parts alive).2)

end

end Parvane.History
