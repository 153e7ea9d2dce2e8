import Parvane.History.Describes

/-!
# Convergence of the message history

Merging two states that describe events gives the state that describes the events of
both.  So the state of a message depends only on the set of the events that reached it.
-/

namespace Parvane.History

open Wire State Convergence

variable {isJsonObject : Bytes -> Bool} {author : String} {kind : Option ChatKind}

/-! ## Merging -/

/-- The lesser of two rows. -/
theorem isTopOf_mergeRow (first second : RowState) :
    IsTopOf rowRank (first.events.rows ∪ second.events.rows)
      ((mergeRow first.row second.row).map (MessageRow.withChat none)) := by
  have key (row : MessageRow) : rowRank (row.withChat none) = OrderDual.toDual (rowKey row) := rfl
  rw [events_rows, events_rows]
  cases isFirst : first.row with
  | none =>
      cases isSecond : second.row with
      | none => simp [mergeRow, IsTopOf]
      | some y => simp [mergeRow, IsTopOf]
  | some x =>
      cases isSecond : second.row with
      | none => simp [mergeRow, IsTopOf]
      | some y =>
          simp only [mergeRow, Option.map_some]
          by_cases less : rowKey y < rowKey x
          · rw [if_pos less]
            refine ⟨.inr rfl, ?_⟩
            rintro other (isFirst | isSecond)
            · rw [← Option.some.inj isFirst, key, key]
              exact OrderDual.toDual_le_toDual.2 less.le
            · rw [← Option.some.inj isSecond]
          · rw [if_neg less]
            refine ⟨.inl rfl, ?_⟩
            rintro other (isFirst | isSecond)
            · rw [← Option.some.inj isFirst]
            · rw [← Option.some.inj isSecond, key, key]
              exact OrderDual.toDual_le_toDual.2 (not_lt.1 less)

/-- The later of two pins. -/
theorem isTopOf_mergePin (first second : RowState) :
    IsTopOf pinRank (first.events.pins ∪ second.events.pins) (first.pile second).pin := by
  rw [events_pins, events_pins]
  unfold RowState.pin RowState.pile mergePin
  cases isFirst : first.pinStamp with
  | none =>
      cases isSecond : second.pinStamp with
      | none => simp [IsTopOf]
      | some y => simp [IsTopOf]
  | some x =>
      cases isSecond : second.pinStamp with
      | none => simp [IsTopOf]
      | some y =>
          by_cases newer : valueKey x first.pinned < valueKey y second.pinned
          · simp [later, newer, IsTopOf, pinRank, newer.le]
          · simp [later, newer, IsTopOf, pinRank, not_lt.1 newer]

theorem edits_pile {first second : RowState} (targets : first.target = second.target) :
    (first.pile second).events.edits = first.events.edits ∪ second.events.edits := by
  ext edit
  simp only [RowState.events, Set.mem_image, Set.mem_ofPred_eq, mem_candidateEdits_pile targets,
    or_and_right, exists_or]
  rfl

theorem gones_pile (first second : RowState) :
    (first.pile second).events.gones = first.events.gones ∪ second.events.gones := by
  ext gone
  simp only [RowState.events, Set.mem_image, Set.mem_ofPred_eq, mem_candidateGones_pile,
    or_and_right, exists_or]
  rfl

/-- The pile of two states is few of their events, but enough. -/
theorem pile_reduces {key : String} {first second : RowState}
    (firstValid : Valid isJsonObject key first) (secondValid : Valid isJsonObject key second)
    (firstUniform : first.Uniform) (secondUniform : second.Uniform)
    (targets : first.target = second.target) :
    Reduces author kind (first.pile second).events (first.events ∪ second.events) := by
  have edits : (first.pile second).events.edits = (first.events ∪ second.events).edits := by
    exact edits_pile targets
  have gones : (first.pile second).events.gones = (first.events ∪ second.events).gones := by
    exact gones_pile first second
  have reacts : (first.pile second).events.reacts = (first.events ∪ second.events).reacts := by
    ext reaction
    exact List.mem_append
  have rowTop := isTopOf_mergeRow first second
  have chats : Cofinal chatRank (first.pile second).events.chats
      (first.events ∪ second.events).chats := by
    obtain ⟨firstPeer, firstChat, firstKey⟩ := firstValid.chat
    obtain ⟨secondPeer, secondChat, secondKey⟩ := secondValid.chat
    have union : (first.events ∪ second.events).chats =
        { peer | peer ∈ [firstPeer, secondPeer] } := by
      have parts : (first.events ∪ second.events).chats =
          first.events.chats ∪ second.events.chats := rfl
      rw [parts, firstUniform.events_chats, secondUniform.events_chats, firstChat, secondChat]
      ext peer
      simp [eq_comm, or_comm]
    have picked : (first.pile second).chat = keepGreatest chatRank first.chat secondPeer := by
      simp only [RowState.pile, secondChat]
      refine pickChat_eq_keepGreatest ?_ secondKey
      rw [firstChat]
      rintro peer ⟨rfl⟩
      exact firstKey
    have top := isTopOf_foldl_keepGreatest chatRank [firstPeer, secondPeer]
    rw [List.foldl_cons, keepGreatest_none, List.foldl_cons, List.foldl_nil, ← firstChat, ← picked,
      ← union] at top
    refine ⟨?_, ?_⟩
    · rintro peer (isChat | isNested)
      · exact top.mem isChat
      · rcases mem_nestedChats_pile isNested with fromFirst | fromSecond
        · exact .inl (.inr fromFirst)
        · exact .inr (.inr fromSecond)
    · intro peer member
      obtain ⟨kept, isKept, ordered⟩ := top.cofinal.2 peer member
      exact ⟨kept, .inl isKept, ordered⟩
  refine ⟨chats, ?_, fun _ => ?_, fun _ => ?_, ?_, fun _ => ?_, fun _ => ?_, fun _ => ?_,
    fun _ => ?_⟩
  · have firstAbout := firstValid.about
    have secondAbout := secondValid.about
    have bare : ∀ row ∈ first.events.rows ∪ second.events.rows, row.chat = none := by
      rintro row (fromFirst | fromSecond)
      · exact (firstAbout.rows row fromFirst).2
      · exact (secondAbout.rows row fromSecond).2
    have headTop := rowTop.image headRank MessageRow.head
      fun left leftMember right rightMember ordered =>
        OrderDual.toDual_le_toDual.2 (encode_head_le_of_rowKey_le (bare right rightMember)
          (bare left leftMember) (OrderDual.toDual_le_toDual.1 ordered))
    have heads : MessageRow.head '' (first.pile second).events.rows =
        { head | head ∈ ((mergeRow first.row second.row).map (MessageRow.withChat none)).map
          MessageRow.head } := by
      ext head
      simp [events_rows, RowState.pile]
    rw [heads]
    exact headTop.cofinal
  · rw [edits]
    exact KeyedList.KeyCofinal.refl _
  · rw [gones]
    exact KeyedList.KeyCofinal.refl _
  · rw [Events.validGones, gones]
    exact Cofinal.refl _
  · have rows : (first.pile second).events.rows =
        { row | row ∈ (mergeRow first.row second.row).map (MessageRow.withChat none) } :=
      events_rows _
    rw [rows]
    exact rowTop.cofinal
  · rw [Events.validEdits, edits]
    exact Cofinal.refl _
  · rw [reacts]
    exact KeyedList.KeyCofinal.refl _
  · rw [events_pins]
    exact (isTopOf_mergePin first second).cofinal

/-! ## Runs -/

/-- Events that may occur together: about one message in one chat, whose rows have one
author, and without two different edits of a known row under one stamp. -/
structure Events.Consistent
    (author : String) (target : Bytes) (key : String) (events : Events) : Prop where
  about : events.About target
  chats : ∀ peer ∈ events.chats, historyChatKey peer = .ok key
  rows : ∀ row ∈ events.rows, row.from = author
  edits : events.rows.Nonempty -> ∀ first ∈ events.edits, ∀ second ∈ events.edits,
    first.stampOf = second.stampOf -> first.body = second.body

/-- A canonical state that describes some events. -/
structure Stands
    (isJsonObject : Bytes -> Bool) (author : String) (kind : Option ChatKind) (target : Bytes)
    (key : String) (events : Events) (state : RowState) : Prop where
  valid : Valid isJsonObject key state
  uniform : state.Uniform
  describes : Describes author kind target events state

section

variable {target : Bytes} {key : String}

theorem Events.Consistent.union {first second : Events}
    (consistent : (first ∪ second).Consistent author target key) :
    first.Consistent author target key ∧ second.Consistent author target key := by
  obtain ⟨⟨rows, edits, gones⟩, chats, authors, ties⟩ := consistent
  exact
    ⟨⟨⟨fun row member => rows row (.inl member), fun edit member => edits edit (.inl member),
        fun gone member => gones gone (.inl member)⟩,
      fun peer member => chats peer (.inl member), fun row member => authors row (.inl member),
      fun someRow left leftMember right rightMember =>
        ties (someRow.mono Set.subset_union_left) left (.inl leftMember) right
          (.inl rightMember)⟩,
    ⟨⟨fun row member => rows row (.inr member), fun edit member => edits edit (.inr member),
        fun gone member => gones gone (.inr member)⟩,
      fun peer member => chats peer (.inr member), fun row member => authors row (.inr member),
      fun someRow left leftMember right rightMember =>
        ties (someRow.mono Set.subset_union_right) left (.inr leftMember) right
          (.inr rightMember)⟩⟩

theorem Describes.unique_of_consistent {events : Events}
    (consistent : events.Consistent author target key) {first second : RowState}
    (firstDescribes : Describes author kind target events first)
    (secondDescribes : Describes author kind target events second) : first = second := by
  refine firstDescribes.unique consistent.about ?_ ?_ secondDescribes
  · exact (chatRank_injOn key).mono consistent.chats
  · rintro someRow _ ⟨left, leftValid, rfl⟩ _ ⟨right, rightValid, rfl⟩ equal
    have stamps : left.stampOf = right.stampOf := stampKey_injective equal
    exact Prod.ext stamps (consistent.edits someRow left leftValid.1 right rightValid.1 stamps)

variable {state : RowState}

/-- The kind of the chat of a valid state. -/
theorem Valid.kind_eq
    (valid : Valid isJsonObject key state)
    (kindEq : KindIs key kind) : state.chosenChat.bind chatKindOf = kind := by
  obtain ⟨peer, chosen, peerKey⟩ := valid.chosenChat
  rw [chosen]
  exact kindEq peer peerKey

/-- Few authors among fewer events. -/
theorem FewAuthors.mono {few many : Events}
    (fewAuthors : FewAuthors kind many) (edits : few.edits ⊆ many.edits)
    (gones : few.gones ⊆ many.gones) : FewAuthors kind few := by
  obtain ⟨⟨editAuthors, editBound, editCover⟩, goneAuthors, goneBound, goneCover⟩ := fewAuthors
  exact ⟨⟨editAuthors, editBound, fun edit member => editCover edit (edits member)⟩,
    goneAuthors, goneBound, fun gone member => goneCover gone (gones member)⟩

/-- Whatever is enough for some events, its canonical form describes them. -/
theorem Valid.stands_settle {events : Events}
    (kindEq : KindIs key kind)
    (valid : Valid isJsonObject key state) (targetEq : state.target = target)
    (reduces : Reduces author kind state.events events)
    (oneAuthor : ∀ row ∈ state.row, row.from = author)
    (few : events.rows = ∅ -> FewAuthors kind events) :
    Stands isJsonObject author kind target key events state.settle := by
  refine ⟨valid.settle, uniform_settle state, ?_⟩
  have described := valid.describes_settle (valid.kind_eq kindEq) oneAuthor ?_
  · rw [targetEq] at described
    exact described.of_reduces reduces
  · intro noRow
    have rows : state.events.rows = ∅ := by
      rw [events_rows, noRow]
      simp
    have empty := reduces.rows_eq_empty_iff.1 rows
    exact (few empty).mono (reduces.orphanEdits empty).1 (reduces.orphanGones empty).1

/-- The rows of a state that describes events have the author of the events. -/
theorem Stands.from_eq {events : Events}
    (consistent : events.Consistent author target key)
    (stands : Stands isJsonObject author kind target key events state) :
    ∀ row ∈ state.row, row.from = author := by
  intro row isRow
  have reduces := stands.describes.reduces consistent.about stands.uniform
  have inHeads : (row.withChat none).head ∈ MessageRow.head '' state.events.rows :=
    ⟨row.withChat none, ⟨row, isRow, rfl⟩, rfl⟩
  obtain ⟨original, member, same⟩ := reduces.heads.1 inHeads
  rw [← consistent.rows original member]
  exact (congrArg MessageRow.from same).symm

/-- A canonical state is its own canonical form. -/
theorem Stands.canonical {events : Events}
    (kindEq : KindIs key kind) (consistent : events.Consistent author target key)
    (few : events.rows = ∅ -> FewAuthors kind events)
    (stands : Stands isJsonObject author kind target key events state) :
    History.canonical isJsonObject state = .ok (state, key) := by
  rw [canonical_eq_ok]
  refine ⟨stands.valid, ?_⟩
  have reduces := stands.describes.reduces consistent.about stands.uniform
  have settled := stands.valid.stands_settle kindEq stands.describes.target reduces
    (stands.from_eq consistent) few
  exact stands.describes.unique_of_consistent consistent settled.describes

/-- Merging describes the events of both states. -/
theorem Stands.merge {firstEvents secondEvents : Events}
    (kindEq : KindIs key kind)
    (consistent : (firstEvents ∪ secondEvents).Consistent author target key)
    (firstFew : firstEvents.rows = ∅ -> FewAuthors kind firstEvents)
    (secondFew : secondEvents.rows = ∅ -> FewAuthors kind secondEvents)
    (few : (firstEvents ∪ secondEvents).rows = ∅ -> FewAuthors kind (firstEvents ∪ secondEvents))
    {first second : RowState}
    (firstStands : Stands isJsonObject author kind target key firstEvents first)
    (secondStands : Stands isJsonObject author kind target key secondEvents second) :
    ∃ merged, History.merge isJsonObject first second = .ok merged ∧
      Stands isJsonObject author kind target key (firstEvents ∪ secondEvents) merged := by
  obtain ⟨firstConsistent, secondConsistent⟩ := consistent.union
  have targets : first.target = second.target :=
    firstStands.describes.target.trans secondStands.describes.target.symm
  have valid := firstStands.valid.pile secondStands.valid targets
  have piled : Reduces author kind (first.pile second).events (first.events ∪ second.events) :=
    pile_reduces firstStands.valid secondStands.valid firstStands.uniform secondStands.uniform
      targets
  have reduces := piled.trans
    ((firstStands.describes.reduces firstConsistent.about firstStands.uniform).union
      (secondStands.describes.reduces secondConsistent.about secondStands.uniform))
  have oneAuthor : ∀ row ∈ (first.pile second).row, row.from = author := by
    intro row isRow
    rcases mergeRow_eq_some isRow with fromFirst | fromSecond
    · exact firstStands.from_eq firstConsistent row fromFirst
    · exact secondStands.from_eq secondConsistent row fromSecond
  refine ⟨(first.pile second).settle, ?_,
    valid.stands_settle kindEq firstStands.describes.target reduces oneAuthor few⟩
  simp only [History.merge, firstStands.canonical kindEq firstConsistent firstFew,
    secondStands.canonical kindEq secondConsistent secondFew, bind, Except.bind, pure, Except.pure,
    targets, require, beq_self_eq_true, Bool.and_self, if_true,
    canonical_eq_ok.2 ⟨valid, rfl⟩]

end

/-! ## Operations -/

/-- The message and the chat that an operation is about. -/
def opTarget (op : HistoryOp) : Option (Bytes × Option Peer) :=
  match op.op with
  | some (.row row) => some (row.id, row.chat)
  | some (.gone gone) => some (gone.target, gone.chat)
  | some (.edit edit) => some (edit.target, edit.chat)
  | some (.react react) => some (react.target, react.chat)
  | some (.pin pin) => some (pin.target, pin.chat)
  | some (.state state) => some (state.target, state.chat)
  | _ => none

/-- The events of an operation; only a merged state carries more than one. -/
def HistoryOp.events (op : HistoryOp) : Events :=
  match rawState op with
  | .ok raw => raw.events
  | .error _ => ⟨∅, ∅, ∅, ∅, ∅, ∅⟩

/-- The events of some operations. -/
def eventsOf (ops : List HistoryOp) : Events where
  chats := { peer | ∃ op ∈ ops, peer ∈ op.events.chats }
  rows := { row | ∃ op ∈ ops, row ∈ op.events.rows }
  edits := { edit | ∃ op ∈ ops, edit ∈ op.events.edits }
  gones := { gone | ∃ op ∈ ops, gone ∈ op.events.gones }
  reacts := { reaction | ∃ op ∈ ops, reaction ∈ op.events.reacts }
  pins := { pin | ∃ op ∈ ops, pin ∈ op.events.pins }

theorem eventsOf_singleton (op : HistoryOp) : eventsOf [op] = op.events := by
  simp [eventsOf]

theorem eventsOf_append (first second : List HistoryOp) :
    eventsOf (first ++ second) = eventsOf first ∪ eventsOf second := by
  simp only [eventsOf, Union.union, List.mem_append, or_and_right, exists_or]
  rfl

theorem eventsOf_eq_of_sameMembers {first second : List HistoryOp}
    (same : SameMembers first second) : eventsOf first = eventsOf second := by
  simp only [eventsOf, same _]

section

variable (isJsonObject)

/-- Apply operations one after the other, beginning with no state. -/
def applyAll (ops : List HistoryOp) : Result (Option RowState) :=
  ops.foldlM (fun state op => do return some (← apply isJsonObject state op)) none

/-- Valid operations on one message in one chat, whose rows have one author. -/
structure Aimed (author : String) (target : Bytes) (key : String) (ops : List HistoryOp) :
    Prop where
  valid : ∀ op ∈ ops, ∃ state, opToState isJsonObject op = .ok state
  target : ∀ op ∈ ops, ∃ chat, opTarget op = some (target, chat) ∧ chatKey chat = .ok key
  rows : ∀ row ∈ (eventsOf ops).rows, row.from = author

/-- Moreover few others edit and delete, and edits under one stamp have one body. -/
structure Tame (author : String) (target : Bytes) (key : String) (ops : List HistoryOp) : Prop
    extends Aimed isJsonObject author target key ops where
  edits : ∀ first ∈ (eventsOf ops).edits, ∀ second ∈ (eventsOf ops).edits,
    first.stamp = second.stamp -> first.body = second.body
  authors : ∃ authors : List String, authors.length ≤ maxPendingAuthors ∧
    (∀ edit ∈ (eventsOf ops).edits, edit.by = "" ∨ edit.by ∈ authors) ∧
    ∀ gone ∈ (eventsOf ops).gones, gone.by = "" ∨ gone.by ∈ authors

/-- Operations that nothing is lost of: the ties of edits matter once there is a row, and
the number of authors as long as there is none. -/
structure Calm (author : String) (kind : Option ChatKind) (target : Bytes) (key : String)
    (ops : List HistoryOp) : Prop extends Aimed isJsonObject author target key ops where
  edits : (eventsOf ops).rows.Nonempty -> ∀ first ∈ (eventsOf ops).edits,
    ∀ second ∈ (eventsOf ops).edits, first.stamp = second.stamp -> first.body = second.body
  authors : FewAuthors kind (eventsOf ops)

variable {isJsonObject} {target : Bytes} {key : String} {ops : List HistoryOp}

/-- A valid operation is a valid state before it is made canonical. -/
theorem valid_of_opToState {op : HistoryOp} {state : RowState}
    (ran : opToState isJsonObject op = .ok state) {chat : Option Peer}
    (aimed : opTarget op = some (target, chat))
    (chatEq : chatKey chat = .ok key) :
    ∃ raw, rawState op = .ok raw ∧ Valid isJsonObject key raw ∧ raw.target = target ∧
      state = raw.settle := by
  simp only [opToState, bind_eq_ok] at ran
  obtain ⟨raw, rawEq, ⟨settled, found⟩, canonicalEq, stateEq⟩ := ran
  obtain ⟨valid, rfl⟩ := canonical_eq_ok.1 canonicalEq
  have named : raw.target = target ∧ raw.chat = chat := by
    obtain ⟨_ | kind⟩ := op
    · cases aimed
    cases kind with
    | react react =>
        simp only [rawState, bind_eq_ok, pure, Except.pure, Except.ok.injEq] at rawEq
        obtain ⟨stamp, -, rfl⟩ := rawEq
        cases aimed
        exact ⟨rfl, rfl⟩
    | pin pin =>
        simp only [rawState, bind_eq_ok, pure, Except.pure, Except.ok.injEq] at rawEq
        obtain ⟨stamp, -, rfl⟩ := rawEq
        cases aimed
        exact ⟨rfl, rfl⟩
    | read mark => cases aimed
    | summary summary => cases aimed
    | _ =>
        cases aimed
        cases rawEq
        exact ⟨rfl, rfl⟩
  have keys : found = key := by
    obtain ⟨peer, peerEq, peerKey⟩ := valid.chat
    rw [← named.2, peerEq] at chatEq
    obtain ⟨_, ⟨rfl⟩, otherKey⟩ := chatKey_eq_ok.1 chatEq
    exact Except.ok.inj (peerKey.symm.trans otherKey)
  subst keys
  exact ⟨raw, rawEq, valid, named.1, (Except.ok.inj stateEq).symm⟩

/-- An operation is a valid state about the message. -/
theorem Aimed.raw
    (aimed : Aimed isJsonObject author target key ops) {op : HistoryOp} (member : op ∈ ops) :
    ∃ raw, opToState isJsonObject op = .ok raw.settle ∧ op.events = raw.events ∧
      Valid isJsonObject key raw ∧ raw.target = target ∧ ∀ row ∈ raw.row, row.from = author := by
  obtain ⟨state, ran⟩ := aimed.valid op member
  obtain ⟨chat, chatAimed, chatEq⟩ := aimed.target op member
  obtain ⟨raw, rawEq, valid, targetEq, rfl⟩ := valid_of_opToState ran chatAimed chatEq
  have events : op.events = raw.events := by
    rw [HistoryOp.events, rawEq]
  refine ⟨raw, ran, events, valid, targetEq, ?_⟩
  intro row isRow
  refine aimed.rows (row.withChat none) ⟨op, member, ?_⟩
  rw [events]
  exact ⟨row, isRow, rfl⟩

theorem Calm.consistent (calm : Calm isJsonObject author kind target key ops) :
    (eventsOf ops).Consistent author target key := by
  have parts {op : HistoryOp} (member : op ∈ ops) :
      op.events.About target ∧ (∀ peer ∈ op.events.chats, historyChatKey peer = .ok key) ∧
        ∀ edit ∈ op.events.edits, edit.stamp.isSome = true := by
    obtain ⟨raw, -, events, valid, targetEq, -⟩ := calm.raw member
    rw [events]
    refine ⟨targetEq ▸ valid.about, fun peer => valid.key_of_mem_chats, ?_⟩
    rintro _ ⟨edit, candidate, rfl⟩
    obtain ⟨stamp, stampEq, -⟩ := (valid.edits edit candidate).stamp
    simp [Edit.withChat, stampEq]
  refine ⟨⟨?_, ?_, ?_⟩, ?_, calm.rows, ?_⟩
  · rintro row ⟨op, member, inside⟩
    exact (parts member).1.rows row inside
  · rintro edit ⟨op, member, inside⟩
    exact (parts member).1.edits edit inside
  · rintro gone ⟨op, member, inside⟩
    exact (parts member).1.gones gone inside
  · rintro peer ⟨op, member, inside⟩
    exact (parts member).2.1 peer inside
  · rintro someRow first ⟨firstOp, firstMember, firstInside⟩ second
      ⟨secondOp, secondMember, secondInside⟩ stamps
    obtain ⟨firstStamp, firstEq⟩ :=
      Option.isSome_iff_exists.1 ((parts firstMember).2.2 first firstInside)
    obtain ⟨secondStamp, secondEq⟩ :=
      Option.isSome_iff_exists.1 ((parts secondMember).2.2 second secondInside)
    apply calm.edits someRow first ⟨firstOp, firstMember, firstInside⟩ second
      ⟨secondOp, secondMember, secondInside⟩
    rw [Edit.stampOf, Edit.stampOf, firstEq, secondEq] at stamps
    rw [firstEq, secondEq, show firstStamp = secondStamp from stamps]

theorem Tame.calm (tame : Tame isJsonObject author target key ops) :
    Calm isJsonObject author kind target key ops := by
  obtain ⟨authors, few, edits, gones⟩ := tame.authors
  refine ⟨tame.toAimed, fun _ => tame.edits, ⟨authors, few, edits⟩, authors, few, ?_⟩
  intro gone member
  unfold goneKey
  split
  · exact .inl rfl
  · exact gones gone member

/-- Events of some of the operations. -/
theorem exists_mem_of_subset {some : List HistoryOp}
    (subset : ∀ op ∈ some, op ∈ ops) {p : HistoryOp -> Prop}
    (found : ∃ op ∈ some, p op) : ∃ op ∈ ops, p op := by
  obtain ⟨op, member, holds⟩ := found
  exact ⟨op, subset op member, holds⟩

theorem Aimed.mono {some : List HistoryOp}
    (aimed : Aimed isJsonObject author target key ops)
    (subset : ∀ op ∈ some, op ∈ ops) : Aimed isJsonObject author target key some where
  valid op member := aimed.valid op (subset op member)
  target op member := aimed.target op (subset op member)
  rows row member := aimed.rows row (exists_mem_of_subset subset member)

/-- Of some of the operations nothing is lost either. -/
theorem Calm.mono {some : List HistoryOp}
    (calm : Calm isJsonObject author kind target key ops)
    (subset : ∀ op ∈ some, op ∈ ops) : Calm isJsonObject author kind target key some := by
  refine ⟨calm.toAimed.mono subset, ?_, calm.authors.mono ?_ ?_⟩
  · rintro ⟨row, isRow⟩ first firstMember second secondMember
    exact calm.edits ⟨row, exists_mem_of_subset subset isRow⟩ first
      (exists_mem_of_subset subset firstMember) second (exists_mem_of_subset subset secondMember)
  · exact fun edit => exists_mem_of_subset subset
  · exact fun gone => exists_mem_of_subset subset

/-- The state of one operation describes its events. -/
theorem Aimed.stands_of_mem
    (aimed : Aimed isJsonObject author target key ops)
    (kindEq : KindIs key kind) {op : HistoryOp} (member : op ∈ ops)
    (few : (eventsOf [op]).rows = ∅ -> FewAuthors kind (eventsOf [op])) :
    ∃ state, opToState isJsonObject op = .ok state ∧
      Stands isJsonObject author kind target key (eventsOf [op]) state := by
  obtain ⟨raw, ran, events, valid, targetEq, oneAuthor⟩ := aimed.raw member
  rw [eventsOf_singleton, events] at few ⊢
  have whole : Reduces author kind raw.events raw.events :=
    ⟨Cofinal.refl _, Cofinal.refl _, fun _ => KeyedList.KeyCofinal.refl _,
      fun _ => KeyedList.KeyCofinal.refl _, Cofinal.refl _, fun _ => Cofinal.refl _,
      fun _ => Cofinal.refl _, fun _ => KeyedList.KeyCofinal.refl _, fun _ => Cofinal.refl _⟩
  exact ⟨_, ran, valid.stands_settle kindEq targetEq whole oneAuthor few⟩

/-- A run of operations describes the events of all of them. -/
theorem Calm.run
    (kindEq : KindIs key kind) (rest done : List HistoryOp)
    (calm : Calm isJsonObject author kind target key (done ++ rest))
    {state : RowState}
    (stands : Stands isJsonObject author kind target key (eventsOf done) state) :
    ∃ final,
      rest.foldlM (fun state op => do return some (← apply isJsonObject state op)) (some state) =
        (.ok (some final) : Result (Option RowState)) ∧
      Stands isJsonObject author kind target key (eventsOf (done ++ rest)) final := by
  induction rest generalizing done state with
  | nil =>
      rw [List.append_nil]
      exact ⟨state, rfl, stands⟩
  | cons op rest inductionHypothesis =>
      have split : done ++ op :: rest = (done ++ [op]) ++ rest := by simp
      have doneCalm : Calm isJsonObject author kind target key done :=
        calm.mono fun other member => List.mem_append_left _ member
      have opCalm : Calm isJsonObject author kind target key [op] :=
        calm.mono fun other member => by simp [List.mem_singleton.1 member]
      have bothCalm : Calm isJsonObject author kind target key (done ++ [op]) :=
        calm.mono fun other member => by rw [split]; exact List.mem_append_left _ member
      obtain ⟨one, ran, oneStands⟩ := opCalm.stands_of_mem kindEq List.mem_cons_self
        fun _ => opCalm.authors
      have consistent := bothCalm.consistent
      have few : (eventsOf done ∪ eventsOf [op]).rows = ∅ ->
          FewAuthors kind (eventsOf done ∪ eventsOf [op]) := by
        intro _
        rw [← eventsOf_append]
        exact bothCalm.authors
      rw [eventsOf_append] at consistent
      obtain ⟨merged, mergedEq, mergedStands⟩ := stands.merge kindEq consistent
        (fun _ => doneCalm.authors) (fun _ => opCalm.authors) few oneStands
      rw [← eventsOf_append] at mergedStands
      rw [split] at calm ⊢
      obtain ⟨final, finalEq, finalStands⟩ := inductionHypothesis (done ++ [op]) calm mergedStands
      refine ⟨final, ?_, finalStands⟩
      rw [List.foldlM_cons, ← finalEq]
      simp only [apply, ran, mergedEq, bind, Except.bind, pure, Except.pure]

theorem Calm.applyAll
    (kindEq : KindIs key kind) (calm : Calm isJsonObject author kind target key ops)
    (nonempty : ops ≠ []) :
    ∃ state, History.applyAll isJsonObject ops = .ok (some state) ∧
      Stands isJsonObject author kind target key (eventsOf ops) state := by
  cases ops with
  | nil => exact absurd rfl nonempty
  | cons op rest =>
      have opCalm : Calm isJsonObject author kind target key [op] :=
        calm.mono fun other member => by simp [List.mem_singleton.1 member]
      obtain ⟨one, ran, oneStands⟩ := opCalm.stands_of_mem kindEq List.mem_cons_self
        fun _ => opCalm.authors
      obtain ⟨final, finalEq, finalStands⟩ := Calm.run kindEq rest [op] calm oneStands
      refine ⟨final, ?_, finalStands⟩
      rw [History.applyAll, List.foldlM_cons, ← finalEq]
      simp only [apply, ran, bind, Except.bind, pure, Except.pure]

end

/-- Valid operations on one message give one canonical state, in whatever order and
however often they are applied, and also when they are applied in two parts that are
merged. -/
theorem history_converges
    (isJsonObject : Bytes -> Bool)
    (author : String)
    (target : Bytes)
    (key : String)
    (ops : List HistoryOp)
    (nonempty : ops ≠ [])
    (tame : Tame isJsonObject author target key ops) :
    ∃ state, canonical isJsonObject state = .ok (state, key) ∧
      (∀ order, SameMembers order ops -> applyAll isJsonObject order = .ok (some state)) ∧
      ∀ first second, first ≠ [] -> second ≠ [] -> SameMembers (first ++ second) ops ->
        ∃ left right, applyAll isJsonObject first = .ok (some left) ∧
          applyAll isJsonObject second = .ok (some right) ∧
          merge isJsonObject left right = .ok state := by
  obtain ⟨kind, kindEq⟩ : ∃ kind, ∀ peer, historyChatKey peer = .ok key ->
      chatKindOf peer = kind := by
    by_cases found : ∃ peer, historyChatKey peer = .ok key
    · obtain ⟨peer, peerKey⟩ := found
      exact ⟨chatKindOf peer, fun other otherKey =>
        chatKindOf_eq_of_historyChatKey otherKey peerKey⟩
    · exact ⟨none, fun peer peerKey => absurd ⟨peer, peerKey⟩ found⟩
  have calm : Calm isJsonObject author kind target key ops := tame.calm
  obtain ⟨state, -, stands⟩ := calm.applyAll kindEq nonempty
  have consistent := calm.consistent
  have unique {other : RowState}
      (otherStands : Stands isJsonObject author kind target key (eventsOf ops) other) :
      other = state :=
    otherStands.describes.unique_of_consistent consistent stands.describes
  refine ⟨state, stands.canonical kindEq consistent fun _ => calm.authors, ?_, ?_⟩
  · intro order same
    have orderNonempty : order ≠ [] := by
      rintro rfl
      exact nonempty (List.eq_nil_iff_forall_not_mem.2 fun op member =>
        List.not_mem_nil ((same op).2 member))
    obtain ⟨final, finalEq, finalStands⟩ :=
      (calm.mono fun op member => (same op).1 member).applyAll kindEq orderNonempty
    rw [eventsOf_eq_of_sameMembers same] at finalStands
    rw [finalEq, unique finalStands]
  · intro first second firstNonempty secondNonempty same
    have firstCalm : Calm isJsonObject author kind target key first :=
      calm.mono fun op member => (same op).1 (List.mem_append_left _ member)
    have secondCalm : Calm isJsonObject author kind target key second :=
      calm.mono fun op member => (same op).1 (List.mem_append_right _ member)
    obtain ⟨left, leftEq, leftStands⟩ := firstCalm.applyAll kindEq firstNonempty
    obtain ⟨right, rightEq, rightStands⟩ := secondCalm.applyAll kindEq secondNonempty
    have union : eventsOf first ∪ eventsOf second = eventsOf ops := by
      rw [← eventsOf_append, eventsOf_eq_of_sameMembers same]
    rw [← union] at consistent
    obtain ⟨merged, mergedEq, mergedStands⟩ := leftStands.merge kindEq consistent
      (fun _ => firstCalm.authors) (fun _ => secondCalm.authors)
      (fun _ => union ▸ calm.authors) rightStands
    rw [union] at mergedStands
    exact ⟨left, right, leftEq, rightEq, unique mergedStands ▸ mergedEq⟩

/-- A group that may be known under several domains. -/
def sampleGroup (domain : String) : Peer :=
  ⟨some (.group ⟨domain, List.replicate 16 7⟩)⟩

/-- The identifier of a message. -/
def sampleTarget : Bytes := List.replicate 16 1

def sampleStamp (tsMs : Int64) : Stamp := ⟨tsMs, List.replicate 16 2⟩

def sampleRow : HistoryOp :=
  ⟨some (.row
    { id := sampleTarget, chat := some (sampleGroup "a.org"), «from» := "u@a.org", tsMs := 1
      body := utf8 "\x7b\x7d" })⟩

/-- An edit by the given author. -/
def sampleEdit (author : String) (tsMs : Int64) : HistoryOp :=
  ⟨some (.edit
    { target := sampleTarget, chat := some (sampleGroup "b.org"), stamp := some (sampleStamp tsMs)
      body := utf8 "\x7b\x7d", «by» := author })⟩

/-- An edit before its row, and one by somebody else. -/
theorem history_converges_sample :
    ∃ state,
      applyAll (fun _ => true) [sampleEdit "u@a.org" 3, sampleRow, sampleEdit "v@b.org" 4] =
        .ok (some state) ∧
      applyAll (fun _ => true)
          [sampleEdit "v@b.org" 4, sampleEdit "u@a.org" 3, sampleRow, sampleEdit "u@a.org" 3] =
        .ok (some state) := by
  have tame : Tame (fun _ => true) "u@a.org" sampleTarget
      ("g:" ++ String.ofList (hex (List.replicate 16 7)))
      [sampleEdit "u@a.org" 3, sampleRow, sampleEdit "v@b.org" 4] := by
    refine ⟨⟨?_, ?_, ?_⟩, ?_, ["u@a.org", "v@b.org"], by decide, ?_, ?_⟩
    · have checked : ∀ op ∈ [sampleEdit "u@a.org" 3, sampleRow, sampleEdit "v@b.org" 4],
          (opToState (fun _ => true) op).isOk = true := by decide +kernel
      exact fun op member => exists_of_isOk (checked op member)
    · simp only [List.forall_mem_cons, List.not_mem_nil, false_implies, implies_true, and_true]
      exact ⟨⟨_, rfl, by decide +kernel⟩, ⟨_, rfl, by decide +kernel⟩, ⟨_, rfl, by decide +kernel⟩⟩
    · simp [eventsOf, HistoryOp.events, rawState, RowState.events, sampleEdit, sampleRow,
        MessageRow.withChat]
    · simp [eventsOf, HistoryOp.events, rawState, RowState.events, RowState.candidateEdits,
        sampleEdit, sampleRow, Edit.withChat]
    · simp [eventsOf, HistoryOp.events, rawState, RowState.events, RowState.candidateEdits,
        sampleEdit, sampleRow, Edit.withChat]
    · simp [eventsOf, HistoryOp.events, rawState, RowState.events, RowState.candidateGones,
        sampleEdit, sampleRow]
  obtain ⟨state, -, orders, -⟩ := history_converges _ _ _ _ _ (List.cons_ne_nil _ _) tame
  refine ⟨state, orders _ (SameMembers.refl _), orders _ ?_⟩
  intro op
  simp only [List.mem_cons, List.not_mem_nil, or_false]
  tauto
end Parvane.History
