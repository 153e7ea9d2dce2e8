import Parvane.History.Events
import Parvane.State.Convergence
import Mathlib.Data.List.ReduceOption

/-!
# Valid states

A state passes its checks exactly when it is valid: its chats have one key, its events
are about its target, and their stamps, authors and bodies are well formed.  The
canonical form of a valid state is valid, and so are two valid states piled together.
-/

namespace Parvane.History

open Wire State Convergence

/-! ## Chats -/

theorem historyChatKey_eq_ok {peer : Peer} {key : String} :
    historyChatKey peer = .ok key ↔
      (∃ user, peer.kind = some (.user user) ∧
        checkUser user = .ok () ∧ "u:" ++ user.address = key) ∨
      (∃ ref, peer.kind = some (.group ref) ∧ checkRef ref = .ok () ∧
        "g:" ++ String.ofList (hex ref.id) = key) := by
  unfold historyChatKey
  rcases kind : peer.kind with _ | user | ref
  · simp [peerKey, kind]
  · simp [peerKey, kind, pure, Except.pure, Unique.exists_iff]
  · simp [pure, Except.pure, Unique.exists_iff]

variable {key : String}

/-- Peers with one key are the same user or the same group, perhaps under another
domain. -/
theorem peers_of_historyChatKey {first second : Peer}
    (firstKey : historyChatKey first = .ok key) (secondKey : historyChatKey second = .ok key) :
    (∃ user, first.kind = some (.user user) ∧ second.kind = some (.user user)) ∨
      ∃ firstRef secondRef, first.kind = some (.group firstRef) ∧
        second.kind = some (.group secondRef) ∧ firstRef.id = secondRef.id := by
  rcases historyChatKey_eq_ok.1 firstKey with
      ⟨firstUser, firstKind, -, firstEq⟩ | ⟨firstRef, firstKind, -, firstEq⟩ <;>
    rcases historyChatKey_eq_ok.1 secondKey with
      ⟨secondUser, secondKind, -, secondEq⟩ | ⟨secondRef, secondKind, -, secondEq⟩ <;>
    have texts := congrArg String.toList (firstEq.trans secondEq.symm)
  · simp only [String.toList_append] at texts
    have addresses := String.toList_inj.1 (List.append_cancel_left texts)
    rw [UserRef.ext addresses] at firstKind
    exact .inl ⟨secondUser, firstKind, secondKind⟩
  · simp [String.toList_append] at texts
  · simp [String.toList_append] at texts
  · simp only [String.toList_append, String.toList_ofList] at texts
    exact .inr ⟨firstRef, secondRef, firstKind, secondKind,
      hex_injective (List.append_cancel_left texts)⟩

/-- The chat of the key, if there is one, is of this kind. -/
abbrev KindIs (key : String) (kind : Option ChatKind) : Prop :=
  ∀ peer, historyChatKey peer = .ok key -> chatKindOf peer = kind

theorem chatKindOf_eq_of_historyChatKey {first second : Peer}
    (firstKey : historyChatKey first = .ok key) (secondKey : historyChatKey second = .ok key) :
    chatKindOf first = chatKindOf second := by
  rcases peers_of_historyChatKey firstKey secondKey with
    ⟨user, firstKind, secondKind⟩ | ⟨firstRef, secondRef, firstKind, secondKind, -⟩
  · simp [chatKindOf, firstKind, secondKind]
  · simp [chatKindOf, firstKind, secondKind]

theorem chatRank_injOn (key : String) :
    Set.InjOn chatRank { peer | historyChatKey peer = .ok key } := by
  intro first firstKey second secondKey equal
  rcases peers_of_historyChatKey firstKey secondKey with
    ⟨user, firstKind, secondKind⟩ | ⟨firstRef, secondRef, firstKind, secondKind, ids⟩
  · exact Peer.ext (firstKind.trans secondKind.symm)
  · have domains : firstRef.domain = secondRef.domain := by
      simpa [chatRank, firstKind, secondKind] using equal
    apply Peer.ext
    rw [firstKind, secondKind, Ref.ext domains ids]

theorem pickChat_eq_keepGreatest {current : Option Peer} {incoming : Peer}
    (currentKey : ∀ peer ∈ current, historyChatKey peer = .ok key)
    (incomingKey : historyChatKey incoming = .ok key) :
    pickChat current (some incoming) = keepGreatest chatRank current incoming := by
  cases current with
  | none => rfl
  | some peer =>
      rcases peers_of_historyChatKey (currentKey peer rfl) incomingKey with
        ⟨user, firstKind, secondKind⟩ | ⟨firstRef, secondRef, firstKind, secondKind, -⟩
      · simp [pickChat, keepGreatest_some, chatRank, firstKind, secondKind]
      · simp [pickChat, keepGreatest_some, chatRank, firstKind, secondKind]

/-! ## Checks -/

theorem forM_eq_ok {check : α -> Result Unit} {items : List α} {result : Unit} :
    items.forM check = .ok result ↔ ∀ item ∈ items, check item = .ok () := by
  induction items with
  | nil => simp [List.forM, pure, Except.pure]
  | cons item items inductionHypothesis =>
      have unfolded : (item :: items).forM check = (do check item; items.forM check) := rfl
      rw [unfolded, bind_eq_ok, List.forall_mem_cons, ← inductionHypothesis]
      constructor
      · rintro ⟨_, first, rest⟩
        exact ⟨first, rest⟩
      · rintro ⟨first, rest⟩
        exact ⟨(), first, rest⟩

theorem checkStamp_eq_ok {stamp : Option Stamp} {field : String} {result : Stamp} :
    checkStamp stamp field = .ok result ↔
      stamp = some result ∧ result.opId.length = idLen := by
  simp only [checkStamp, bind_eq_ok, present_eq_ok, id16, require_eq_ok, beq_iff_eq, pure,
    Except.pure, Except.ok.injEq]
  constructor
  · rintro ⟨found, rfl, _, length, rfl⟩
    exact ⟨rfl, length⟩
  · rintro ⟨rfl, length⟩
    exact ⟨result, rfl, (), length, rfl⟩

theorem sameChat_eq_ok {chat : Option Peer} {key : String} {result : Unit} :
    sameChat chat key = .ok result ↔ ∀ peer ∈ chat, historyChatKey peer = .ok key := by
  cases chat with
  | none => simp [sameChat]
  | some peer =>
      simp only [sameChat, bind_eq_ok, require_eq_ok, beq_iff_eq, Option.mem_def,
        Option.some.injEq, forall_eq']
      constructor
      · rintro ⟨other, keyed, rfl⟩
        exact keyed
      · intro keyed
        exact ⟨key, keyed, rfl⟩

theorem chatKey_eq_ok {chat : Option Peer} {key : String} :
    chatKey chat = .ok key ↔ ∃ peer, chat = some peer ∧ historyChatKey peer = .ok key := by
  simp only [chatKey, bind_eq_ok, present_eq_ok]

variable (isJsonObject : Bytes -> Bool)

/-- An edit that passes its checks, apart from its chat. -/
structure ValidEdit (target : Bytes) (edit : Edit) : Prop where
  target : edit.target = target
  stamp : ∃ stamp, edit.stamp = some stamp ∧ stamp.opId.length = idLen
  body : checkJsonObject isJsonObject edit.body "edit.body" = .ok ()
  «by» : checkBy edit.by = .ok ()

/-- A deletion that passes its checks, apart from its chat. -/
structure ValidGone (target : Bytes) (gone : Gone) : Prop where
  target : gone.target = target
  stamp : ∃ stamp, gone.stamp = some stamp ∧ stamp.opId.length = idLen
  scope : gone.scope = scopeEveryone ∨ gone.scope = scopeMe
  «by» : checkBy gone.by = .ok ()

/-- A row that passes its checks, apart from its chat. -/
structure ValidRow (target : Bytes) (row : MessageRow) : Prop where
  id : row.id = target
  «from» : checkAddress row.from = .ok ()
  body : checkJsonObject isJsonObject row.body "row.body" = .ok ()

/-- A reaction that passes its checks. -/
structure ValidReaction (reaction : Reaction) : Prop where
  user : checkAddress reaction.user = .ok ()
  stamp : ∃ stamp, reaction.stamp = some stamp ∧ stamp.opId.length = idLen

/-- A state that passes its checks, with the key of its chat. -/
structure Valid (key : String) (state : RowState) : Prop where
  target : state.target.length = idLen
  chat : ∃ peer, state.chat = some peer ∧ historyChatKey peer = .ok key
  nested : ∀ peer ∈ state.nestedChats, historyChatKey peer = .ok key
  row : ∀ row ∈ state.row, ValidRow isJsonObject state.target row
  unedited : state.editStamp = none -> state.editBody = []
  edits : ∀ edit ∈ state.candidateEdits, ValidEdit isJsonObject state.target edit
  gones : ∀ gone ∈ state.candidateGones, ValidGone state.target gone
  unpinned : state.pinStamp = none -> state.pinned = false
  pin : ∀ stamp ∈ state.pinStamp, stamp.opId.length = idLen
  reacts : ∀ reaction ∈ state.reacts, ValidReaction reaction

variable {isJsonObject}

theorem checkRow_eq_ok {target : Bytes} {key : String} {row : MessageRow} :
    checkRow isJsonObject target key row = .ok () ↔
      ValidRow isJsonObject target row ∧ ∀ peer ∈ row.chat, historyChatKey peer = .ok key := by
  simp only [checkRow, bind_eq_ok, require_eq_ok, beq_iff_eq, sameChat_eq_ok]
  constructor
  · rintro ⟨_, id, _, chat, _, address, body⟩
    exact ⟨⟨id, address, body⟩, chat⟩
  · rintro ⟨⟨id, address, body⟩, chat⟩
    exact ⟨(), id, (), chat, (), address, body⟩

theorem checkEdit_eq_ok {target : Bytes} {key : String} {edit : Edit} :
    checkEdit isJsonObject target key edit = .ok () ↔
      ValidEdit isJsonObject target edit ∧ ∀ peer ∈ edit.chat, historyChatKey peer = .ok key := by
  simp only [checkEdit, bind_eq_ok, require_eq_ok, beq_iff_eq, sameChat_eq_ok, checkStamp_eq_ok]
  constructor
  · rintro ⟨_, target, _, chat, stamp, stampOk, _, body, author⟩
    exact ⟨⟨target, ⟨stamp, stampOk⟩, body, author⟩, chat⟩
  · rintro ⟨⟨target, ⟨stamp, stampOk⟩, body, author⟩, chat⟩
    exact ⟨(), target, (), chat, stamp, stampOk, (), body, author⟩

theorem checkGone_eq_ok {target : Bytes} {key : String} {gone : Gone} :
    checkGone target key gone = .ok () ↔
      ValidGone target gone ∧ ∀ peer ∈ gone.chat, historyChatKey peer = .ok key := by
  simp only [checkGone, bind_eq_ok, require_eq_ok, beq_iff_eq, sameChat_eq_ok, checkStamp_eq_ok,
    Bool.or_eq_true]
  constructor
  · rintro ⟨_, target, _, chat, stamp, stampOk, _, scope, author⟩
    exact ⟨⟨target, ⟨stamp, stampOk⟩, scope, author⟩, chat⟩
  · rintro ⟨⟨target, ⟨stamp, stampOk⟩, scope, author⟩, chat⟩
    exact ⟨(), target, (), chat, stamp, stampOk, (), scope, author⟩

theorem checkReaction_eq_ok {reaction : Reaction} :
    checkReaction reaction = .ok () ↔ ValidReaction reaction := by
  simp only [checkReaction, bind_eq_ok, checkStamp_eq_ok, pure, Except.pure]
  constructor
  · rintro ⟨_, address, stamp, stampOk, -⟩
    exact ⟨address, stamp, stampOk⟩
  · rintro ⟨address, stamp, stampOk⟩
    exact ⟨(), address, stamp, stampOk, trivial⟩

theorem checkPin_eq_ok {pinStamp : Option Stamp} {pinned : Bool} {result : Unit} :
    checkPin pinStamp pinned = .ok result ↔
      (pinStamp = none -> pinned = false) ∧ ∀ stamp ∈ pinStamp, stamp.opId.length = idLen := by
  cases pinStamp with
  | none => simp [checkPin]
  | some stamp =>
      simp only [checkPin, bind_eq_ok, checkStamp_eq_ok, Option.some.injEq, pure, Except.pure]
      simp

/-- The checks find the valid states. -/
theorem checkState_eq_ok {state : RowState} {key : String} :
    checkState isJsonObject state = .ok key ↔ Valid isJsonObject key state := by
  have body : (state.editStamp.isSome || state.editBody.isEmpty) = true ↔
      (state.editStamp = none -> state.editBody = []) := by
    cases state.editStamp <;> simp
  simp only [checkState, bind_eq_ok, id16, require_eq_ok, beq_iff_eq, chatKey_eq_ok, forM_eq_ok,
    sameChat_eq_ok, checkRow_eq_ok, checkEdit_eq_ok, checkGone_eq_ok, checkPin_eq_ok,
    checkReaction_eq_ok, body, pure, Except.pure, Except.ok.injEq, Option.mem_toList]
  constructor
  · rintro ⟨_, target, key, chat, _, nested, _, row, _, unedited, _, edits, _, gones, _, pin, _,
      reacts, rfl⟩
    exact
      { target := target
        chat := chat
        nested := fun peer member => nested peer member peer rfl
        row := fun inner member => (row inner member).1
        unedited := unedited
        edits := fun edit member => (edits edit member).1
        gones := fun gone member => (gones gone member).1
        unpinned := pin.1
        pin := pin.2
        reacts := reacts }
  · intro valid
    have nested {chat : Option Peer} {chats : List (Option Peer)} (member : chat ∈ chats)
        (inside : ∀ peer ∈ chats.reduceOption, historyChatKey peer = .ok key) :
        ∀ peer ∈ chat, historyChatKey peer = .ok key := by
      intro peer isPeer
      apply inside
      rw [List.reduceOption_mem_iff, ← isPeer]
      exact member
    refine ⟨(), valid.target, key, valid.chat, (), ?_, (), ?_, (), valid.unedited, (), ?_, (), ?_,
      (), ⟨valid.unpinned, valid.pin⟩, (), valid.reacts, rfl⟩
    · rintro peer member other ⟨rfl⟩
      exact valid.nested peer member
    · intro row member
      refine ⟨valid.row row member, nested ?_ valid.nested⟩
      simp only [List.mem_append, List.mem_map, Option.mem_toList]
      exact .inl (.inl (.inl ⟨row, member, rfl⟩))
    · intro edit member
      refine ⟨valid.edits edit member, ?_⟩
      rcases List.mem_append.1 member with pending | chosen
      · refine nested ?_ valid.nested
        simp only [List.mem_append, List.mem_map, Option.mem_toList]
        exact .inl (.inl (.inr ⟨edit, pending, rfl⟩))
      · obtain ⟨stamp, -, rfl⟩ := List.mem_map.1 chosen
        simp
    · intro gone member
      refine ⟨valid.gones gone member, nested ?_ valid.nested⟩
      simp only [List.mem_append, List.mem_map, Option.mem_toList]
      rcases List.mem_append.1 member with pending | chosen
      · exact .inl (.inr ⟨gone, pending, rfl⟩)
      · exact .inr ⟨gone, Option.mem_toList.1 chosen, rfl⟩

theorem canonical_eq_ok {state result : RowState} {key : String} :
    canonical isJsonObject state = .ok (result, key) ↔
      Valid isJsonObject key state ∧ result = state.settle := by
  simp only [canonical, bind_eq_ok, checkState_eq_ok, pure, Except.pure, Except.ok.injEq,
    Prod.mk.injEq]
  constructor
  · rintro ⟨key, valid, rfl, rfl⟩
    exact ⟨valid, rfl⟩
  · rintro ⟨valid, rfl⟩
    exact ⟨key, valid, rfl, rfl⟩

/-! ## The chosen chat -/

variable {state : RowState}

section

variable (valid : Valid isJsonObject key state)

include valid

/-- The chat of the canonical form is the one with the greatest domain. -/
theorem Valid.isTopOf_chosenChat :
    IsTopOf chatRank state.events.chats state.chosenChat := by
  obtain ⟨peer, chatEq, peerKey⟩ := valid.chat
  have folds (peers : List Peer) (chat : Option Peer)
      (chatKeys : ∀ peer ∈ chat, historyChatKey peer = .ok key)
      (keys : ∀ peer ∈ peers, historyChatKey peer = .ok key) :
      peers.foldl (fun chat peer => pickChat chat (some peer)) chat =
        peers.foldl (keepGreatest chatRank) chat := by
    induction peers generalizing chat with
    | nil => rfl
    | cons next peers inductionHypothesis =>
        have nextKey := keys next List.mem_cons_self
        rw [List.foldl_cons, List.foldl_cons, pickChat_eq_keepGreatest chatKeys nextKey]
        refine inductionHypothesis _ ?_
          fun other member => keys other (List.mem_cons_of_mem _ member)
        intro kept isKept
        obtain ⟨result, resultEq, fromNext | fromChat⟩ := keepGreatest_eq_some chatRank chat next
        · rw [Option.mem_def, resultEq] at isKept
          rw [← Option.some.inj isKept, fromNext]
          exact nextKey
        · rw [Option.mem_def, resultEq, ← fromChat] at isKept
          exact chatKeys kept isKept
  have top := isTopOf_foldl_keepGreatest chatRank (peer :: state.nestedChats)
  rw [List.foldl_cons, keepGreatest_none] at top
  have members : { other | other ∈ peer :: state.nestedChats } = state.events.chats := by
    ext other
    simp only [RowState.events, Set.mem_ofPred_eq, List.mem_cons, chatEq, Option.mem_def,
      Option.some.injEq, eq_comm]
  rw [RowState.chosenChat, chatEq, folds state.nestedChats (some peer) ?_ valid.nested,
    ← members]
  · exact top
  · rintro other ⟨rfl⟩
    exact peerKey

theorem Valid.key_of_mem_chats
    {peer : Peer}
    (member : peer ∈ state.events.chats) : historyChatKey peer = .ok key := by
  rcases member with isChat | isNested
  · obtain ⟨chat, chatEq, chatKey⟩ := valid.chat
    rw [Option.mem_def, chatEq] at isChat
    cases isChat
    exact chatKey
  · exact valid.nested peer isNested

theorem Valid.chosenChat :
    ∃ peer, state.chosenChat = some peer ∧ historyChatKey peer = .ok key := by
  have top := valid.isTopOf_chosenChat
  obtain ⟨chat, chatEq, -⟩ := valid.chat
  have nonempty : state.events.chats.Nonempty := ⟨chat, .inl chatEq⟩
  obtain ⟨peer, peerEq⟩ := Option.isSome_iff_exists.1 (top.isSome_iff.2 nonempty)
  exact ⟨peer, peerEq, valid.key_of_mem_chats (top.mem peerEq)⟩

end

/-! ## Operations on valid states -/

theorem settle_of_row_none {state : RowState} (noRow : state.row = none) :
    state.settle =
      { target := state.target
        chat := state.chosenChat
        reacts := (state.reacts.foldl putReaction ∅).toList.map Prod.snd
        pinStamp := state.pinStamp
        pinned := state.pinned
        pendingEdits := reducePending
          (state.candidateEdits.map (Edit.withChat state.chosenChat)) Edit.by Edit.stampOf
        pendingGones := reducePending
          (state.candidateGones.map (Gone.withChat state.chosenChat))
          (goneKey (state.chosenChat.bind chatKindOf)) Gone.stampOf } := by
  unfold RowState.settle
  rw [noRow]

/-- The latest edit that is valid for an author. -/
def RowState.chosenEdit (state : RowState) (author : String) : Option Edit :=
  latest ((state.candidateEdits.map (Edit.withChat state.chosenChat)).filter
    fun edit => editValid edit author) Edit.stampOf

/-- The latest deletion that is valid for an author. -/
def RowState.chosenGone (state : RowState) (author : String) : Option Gone :=
  latest ((state.candidateGones.map (Gone.withChat state.chosenChat)).filter
    fun gone => goneValid gone author (state.chosenChat.bind chatKindOf)) Gone.stampOf

/-- The canonical form of a message that was not deleted. -/
theorem settle_of_chosenGone_none {row : MessageRow}
    (isRow : state.row = some row) (noGone : state.chosenGone row.from = none) :
    state.settle =
      { target := state.target
        chat := state.chosenChat
        row := some (row.withChat state.chosenChat)
        reacts := (state.reacts.foldl putReaction ∅).toList.map Prod.snd
        pinStamp := state.pinStamp
        pinned := state.pinned
        editStamp := (state.chosenEdit row.from).map Edit.stampOf
        editBody := ((state.chosenEdit row.from).map Edit.body).getD [] } := by
  rw [RowState.chosenGone] at noGone
  unfold RowState.settle RowState.bury
  rw [isRow]
  simp only [noGone]
  rfl

/-- The canonical form of a message that was deleted. -/
theorem settle_of_chosenGone_some {row : MessageRow} {gone : Gone}
    (isRow : state.row = some row) (isGone : state.chosenGone row.from = some gone) :
    state.settle =
      { target := state.target
        chat := state.chosenChat
        row := some (row.head.withChat state.chosenChat)
        gone := some gone } := by
  rw [RowState.chosenGone] at isGone
  unfold RowState.settle RowState.bury
  rw [isRow]
  simp only [isGone]
  rfl

theorem target_settle (state : RowState) : state.settle.target = state.target := by
  cases isRow : state.row with
  | none => rw [settle_of_row_none isRow]
  | some row =>
      cases isGone : state.chosenGone row.from with
      | none => rw [settle_of_chosenGone_none isRow isGone]
      | some gone => rw [settle_of_chosenGone_some isRow isGone]

theorem chat_settle (state : RowState) : state.settle.chat = state.chosenChat := by
  cases isRow : state.row with
  | none => rw [settle_of_row_none isRow]
  | some row =>
      cases isGone : state.chosenGone row.from with
      | none => rw [settle_of_chosenGone_none isRow isGone]
      | some gone => rw [settle_of_chosenGone_some isRow isGone]

theorem mem_of_chosenEdit {author : String} {edit : Edit}
    (chosen : state.chosenEdit author = some edit) :
    ∃ original ∈ state.candidateEdits, edit = original.withChat state.chosenChat ∧
      editValid edit author = true := by
  have member := (isTopOf_latest Edit.stampOf _).mem chosen
  obtain ⟨inside, valid⟩ := List.mem_filter.1 member
  obtain ⟨original, candidate, rfl⟩ := List.mem_map.1 inside
  exact ⟨original, candidate, rfl, valid⟩

theorem mem_of_chosenGone {author : String} {gone : Gone}
    (chosen : state.chosenGone author = some gone) :
    ∃ original ∈ state.candidateGones, gone = original.withChat state.chosenChat := by
  have member := (isTopOf_latest Gone.stampOf _).mem chosen
  obtain ⟨original, candidate, rfl⟩ := List.mem_map.1 (List.mem_filter.1 member).1
  exact ⟨original, candidate, rfl⟩

theorem goneValid_of_chosenGone {state : RowState} {author : String} {gone : Gone}
    (chosen : state.chosenGone author = some gone) :
    goneValid gone author (state.chosenChat.bind chatKindOf) = true :=
  (List.mem_filter.1 ((isTopOf_latest Gone.stampOf _).mem chosen)).2

theorem candidateGones_settle {state : RowState} {row : MessageRow}
    (isRow : state.row = some row) :
    state.settle.candidateGones = (state.chosenGone row.from).toList := by
  cases isGone : state.chosenGone row.from with
  | none =>
      rw [settle_of_chosenGone_none isRow isGone]
      rfl
  | some gone =>
      rw [settle_of_chosenGone_some isRow isGone]
      rfl

theorem ValidEdit.withChat {target : Bytes} {edit : Edit}
    (valid : ValidEdit isJsonObject target edit)
    (chat : Option Peer) : ValidEdit isJsonObject target (edit.withChat chat) :=
  ⟨valid.target, valid.stamp, valid.body, valid.by⟩

theorem ValidGone.withChat {target : Bytes} {gone : Gone}
    (valid : ValidGone target gone)
    (chat : Option Peer) : ValidGone target (gone.withChat chat) :=
  ⟨valid.target, valid.stamp, valid.scope, valid.by⟩

theorem mem_foldl_putReaction
    (reacts : List Reaction) (byUser : Std.ExtTreeMap String Reaction)
    {user : String} {reaction : Reaction}
    (held : (reacts.foldl putReaction byUser)[user]? = some reaction) :
    reaction ∈ reacts ∨ byUser[user]? = some reaction := by
  induction reacts generalizing byUser with
  | nil => exact .inr held
  | cons next reacts inductionHypothesis =>
      rcases inductionHypothesis _ held with later | earlier
      · exact .inl (List.mem_cons_of_mem _ later)
      · rw [putReaction, Std.ExtTreeMap.getElem?_alter] at earlier
        split at earlier
        · next same =>
            have users : next.user = user := Std.LawfulEqCmp.eq_of_compare same
            rw [← users]
            revert earlier
            cases before : byUser[next.user]? with
            | none =>
                intro found
                exact .inl (by simp [Option.some.inj found])
            | some current =>
                intro found
                simp only at found
                split at found
                · split at found
                  · exact .inl (by simp [Option.some.inj found])
                  · exact .inr found
                · exact .inr found
        · exact .inr earlier

theorem mem_settled_reacts {reacts : List Reaction} {reaction : Reaction}
    (member : reaction ∈ (reacts.foldl putReaction ∅).toList.map Prod.snd) : reaction ∈ reacts := by
  obtain ⟨⟨user, found⟩, inside, rfl⟩ := List.mem_map.1 member
  have held := Std.ExtTreeMap.mem_toList_iff_getElem?_eq_some.1 inside
  rcases mem_foldl_putReaction reacts ∅ held with listed | absent
  · exact listed
  · simp at absent

/-- The state names one chat only. -/
def RowState.Uniform (state : RowState) : Prop :=
  ∀ peer ∈ state.nestedChats, state.chat = some peer

theorem uniform_settle (state : RowState) : state.settle.Uniform := by
  intro peer member
  rw [RowState.nestedChats, List.reduceOption_mem_iff] at member
  cases isRow : state.row with
  | none =>
      rw [settle_of_row_none isRow] at member ⊢
      simp only [Option.toList_none, List.map_nil, List.nil_append, List.append_nil,
        List.mem_append, List.mem_map] at member
      rcases member with ⟨edit, inside, chatEq⟩ | ⟨gone, inside, chatEq⟩
      · obtain ⟨original, -, rfl⟩ := List.mem_map.1 (mem_of_mem_reducePending _ _ _ inside)
        exact chatEq
      · obtain ⟨original, -, rfl⟩ := List.mem_map.1 (mem_of_mem_reducePending _ _ _ inside)
        exact chatEq
  | some row =>
      cases isGone : state.chosenGone row.from with
      | none =>
          rw [settle_of_chosenGone_none isRow isGone] at member ⊢
          simp only [Option.toList_some, Option.toList_none, List.map_cons, List.map_nil,
            List.append_nil, List.mem_singleton] at member
          exact member.symm
      | some gone =>
          obtain ⟨original, -, rfl⟩ := mem_of_chosenGone isGone
          rw [settle_of_chosenGone_some isRow isGone] at member ⊢
          simp only [Option.toList_some, List.map_cons, List.map_nil, List.append_nil,
            List.cons_append, List.nil_append, List.mem_cons, List.not_mem_nil, or_false] at member
          rcases member with chatEq | chatEq <;> exact chatEq.symm

theorem chosenChat_settle (state : RowState) : state.settle.chosenChat = state.chosenChat := by
  rw [← chat_settle state, RowState.chosenChat]
  refine List.foldlRecOn (motive := fun held => held = state.settle.chat) _ _ rfl ?_
  intro held heldEq peer member
  rw [heldEq, uniform_settle state peer member]
  simp only [pickChat]
  split <;> simp

/-- The canonical form of a valid state is valid. -/
theorem Valid.settle
    (valid : Valid isJsonObject key state) : Valid isJsonObject key state.settle := by
  have chat := valid.chosenChat
  have nested : state.settle.chat = state.chosenChat ->
      ∀ peer ∈ state.settle.nestedChats, historyChatKey peer = .ok key := by
    intro settled peer member
    obtain ⟨chosen, chosenEq, chosenKey⟩ := chat
    have same := uniform_settle state peer member
    rw [settled, chosenEq] at same
    cases same
    exact chosenKey
  have reacts : ∀ reaction ∈ (state.reacts.foldl putReaction ∅).toList.map Prod.snd,
      ValidReaction reaction :=
    fun reaction member => valid.reacts reaction (mem_settled_reacts member)
  cases isRow : state.row with
  | none =>
      rw [settle_of_row_none isRow] at nested ⊢
      refine ⟨valid.target, chat, nested rfl, by simp, by simp, ?_, ?_, valid.unpinned, valid.pin,
        reacts⟩
      · intro edit member
        simp only [RowState.candidateEdits, Option.toList_none, List.map_nil,
          List.append_nil] at member
        obtain ⟨original, candidate, rfl⟩ :=
          List.mem_map.1 (mem_of_mem_reducePending _ _ _ member)
        exact (valid.edits original candidate).withChat _
      · intro gone member
        simp only [RowState.candidateGones, Option.toList_none, List.append_nil] at member
        obtain ⟨original, candidate, rfl⟩ :=
          List.mem_map.1 (mem_of_mem_reducePending _ _ _ member)
        exact (valid.gones original candidate).withChat _
  | some row =>
      have rowValid := valid.row row isRow
      cases isGone : state.chosenGone row.from with
      | none =>
          rw [settle_of_chosenGone_none isRow isGone] at nested ⊢
          refine ⟨valid.target, chat, nested rfl, ?_, ?_, ?_, by simp [RowState.candidateGones],
            valid.unpinned, valid.pin, reacts⟩
          · rintro other ⟨rfl⟩
            exact ⟨rowValid.id, rowValid.from, rowValid.body⟩
          · intro unedited
            simp only [Option.map_eq_none_iff] at unedited
            simp [unedited]
          · intro edit member
            simp only [RowState.candidateEdits, List.nil_append, List.mem_map,
              Option.mem_toList, Option.map_eq_some_iff] at member
            obtain ⟨stamp, ⟨chosen, chosenEq, rfl⟩, rfl⟩ := member
            obtain ⟨original, candidate, rfl, -⟩ := mem_of_chosenEdit chosenEq
            have originalValid := valid.edits original candidate
            obtain ⟨originalStamp, stampEq, length⟩ := originalValid.stamp
            refine ⟨rfl, ⟨originalStamp, ?_, length⟩, ?_, rfl⟩
            · simp [Edit.stampOf, Edit.withChat, stampEq]
            · simpa [chosenEq, Edit.withChat] using originalValid.body
      | some gone =>
          obtain ⟨original, candidate, goneEq⟩ := mem_of_chosenGone isGone
          rw [settle_of_chosenGone_some isRow isGone] at nested ⊢
          refine ⟨valid.target, chat, nested rfl, ?_, by simp, by simp [RowState.candidateEdits],
            ?_, by simp, by simp, by simp⟩
          · rintro other ⟨rfl⟩
            exact ⟨rowValid.id, rowValid.from, rfl⟩
          · intro other member
            simp only [RowState.candidateGones, List.nil_append, Option.toList_some,
              List.mem_singleton] at member
            rw [member, goneEq]
            exact (valid.gones original candidate).withChat _

theorem mergeRow_eq_some {first second : Option MessageRow} {row : MessageRow}
    (merged : mergeRow first second = some row) : first = some row ∨ second = some row := by
  unfold mergeRow at merged
  split at merged
  · split at merged
    · exact .inr merged
    · exact .inl merged
  · next x y =>
      cases first with
      | none => exact .inr (by simpa using merged)
      | some inner => exact .inl (by simpa using merged)

theorem mergePin_spec (first second : Option Stamp × Bool) :
    (mergePin first second = (none, false) ∧ first.1 = none ∧ second.1 = none) ∨
      ((mergePin first second).1.isSome ∧
        (mergePin first second = first ∨ mergePin first second = second)) := by
  obtain ⟨_ | x, firstPinned⟩ := first <;> obtain ⟨_ | y, secondPinned⟩ := second
  · exact .inl ⟨rfl, rfl, rfl⟩
  · exact .inr ⟨rfl, .inr rfl⟩
  · exact .inr ⟨rfl, .inl rfl⟩
  · right
    unfold mergePin
    dsimp only
    split
    · exact ⟨rfl, .inr rfl⟩
    · exact ⟨rfl, .inl rfl⟩

theorem mem_candidateEdits_pile {first second : RowState}
    (targets : first.target = second.target) {edit : Edit} :
    edit ∈ (first.pile second).candidateEdits ↔
      edit ∈ first.candidateEdits ∨ edit ∈ second.candidateEdits := by
  simp only [RowState.candidateEdits, RowState.pile, editOf, Option.toList_none, List.map_nil,
    List.append_nil, List.mem_append, targets]
  tauto

theorem mem_candidateGones_pile {first second : RowState} {gone : Gone} :
    gone ∈ (first.pile second).candidateGones ↔
      gone ∈ first.candidateGones ∨ gone ∈ second.candidateGones := by
  simp only [RowState.candidateGones, RowState.pile, Option.toList_none, List.append_nil,
    List.mem_append]
  tauto

/-- Two states piled together name the chats of the one and of the other. -/
theorem mem_nestedChats_pile {first second : RowState} {peer : Peer}
    (member : peer ∈ (first.pile second).nestedChats) :
    peer ∈ first.nestedChats ∨ peer ∈ second.nestedChats := by
  simp only [RowState.nestedChats, List.reduceOption_mem_iff, List.mem_append, List.mem_map,
    Option.mem_toList] at member ⊢
  rcases member with ((⟨row, isRow, chatEq⟩ | ⟨edit, isEdit, chatEq⟩) | ⟨gone, isGone, chatEq⟩) |
    ⟨gone, isGone, -⟩
  · rcases mergeRow_eq_some isRow with fromFirst | fromSecond
    · exact .inl (.inl (.inl (.inl ⟨row, fromFirst, chatEq⟩)))
    · exact .inr (.inl (.inl (.inl ⟨row, fromSecond, chatEq⟩)))
  · simp only [RowState.pile, editOf, List.mem_append, List.mem_map, Option.mem_toList] at isEdit
    rcases isEdit with ((fromFirst | fromSecond) | ⟨stamp, -, rfl⟩) | ⟨stamp, -, rfl⟩
    · exact .inl (.inl (.inl (.inr ⟨edit, fromFirst, chatEq⟩)))
    · exact .inr (.inl (.inl (.inr ⟨edit, fromSecond, chatEq⟩)))
    · cases chatEq
    · cases chatEq
  · simp only [RowState.pile, List.mem_append, Option.mem_toList] at isGone
    rcases isGone with ((fromFirst | fromSecond) | fromFirst) | fromSecond
    · exact .inl (.inl (.inr ⟨gone, fromFirst, chatEq⟩))
    · exact .inr (.inl (.inr ⟨gone, fromSecond, chatEq⟩))
    · exact .inl (.inr ⟨gone, fromFirst, chatEq⟩)
    · exact .inr (.inr ⟨gone, fromSecond, chatEq⟩)
  · cases isGone

/-- Two valid states of one message, piled together, are valid. -/
theorem Valid.pile {first second : RowState}
    (firstValid : Valid isJsonObject key first) (secondValid : Valid isJsonObject key second)
    (targets : first.target = second.target) : Valid isJsonObject key (first.pile second) := by
  obtain ⟨firstPeer, firstChat, firstKey⟩ := firstValid.chat
  obtain ⟨secondPeer, secondChat, secondKey⟩ := secondValid.chat
  have pins := mergePin_spec (first.pinStamp, first.pinned) (second.pinStamp, second.pinned)
  refine ⟨firstValid.target, ?_, ?_, ?_, fun _ => rfl, ?_, ?_, ?_, ?_, ?_⟩
  · have picked : (first.pile second).chat = keepGreatest chatRank first.chat secondPeer := by
      simp only [RowState.pile, secondChat]
      refine pickChat_eq_keepGreatest ?_ secondKey
      rw [firstChat]
      rintro peer ⟨rfl⟩
      exact firstKey
    obtain ⟨kept, keptEq, fromSecond | fromFirst⟩ :=
      keepGreatest_eq_some chatRank first.chat secondPeer
    · exact ⟨kept, picked.trans keptEq, fromSecond ▸ secondKey⟩
    · rw [firstChat] at fromFirst
      cases fromFirst
      exact ⟨_, picked.trans keptEq, firstKey⟩
  · intro peer member
    rcases mem_nestedChats_pile member with fromFirst | fromSecond
    · exact firstValid.nested peer fromFirst
    · exact secondValid.nested peer fromSecond
  · intro row isRow
    rcases mergeRow_eq_some isRow with fromFirst | fromSecond
    · exact firstValid.row row fromFirst
    · have valid := secondValid.row row fromSecond
      rw [← targets] at valid
      exact valid
  · intro edit member
    rcases (mem_candidateEdits_pile targets).1 member with fromFirst | fromSecond
    · exact firstValid.edits edit fromFirst
    · have valid := secondValid.edits edit fromSecond
      rw [← targets] at valid
      exact valid
  · intro gone member
    rcases mem_candidateGones_pile.1 member with fromFirst | fromSecond
    · exact firstValid.gones gone fromFirst
    · have valid := secondValid.gones gone fromSecond
      rw [← targets] at valid
      exact valid
  · intro unpinned
    have noStamp : (mergePin (first.pinStamp, first.pinned)
        (second.pinStamp, second.pinned)).1 = none := unpinned
    rcases pins with ⟨none, -, -⟩ | ⟨isSome, -⟩
    · exact congrArg Prod.snd none
    · rw [noStamp] at isSome
      cases isSome
  · intro stamp isStamp
    have merged : (mergePin (first.pinStamp, first.pinned)
        (second.pinStamp, second.pinned)).1 = some stamp := isStamp
    rcases pins with ⟨none, -, -⟩ | ⟨-, fromFirst | fromSecond⟩
    · rw [none] at merged
      cases merged
    · rw [fromFirst] at merged
      exact firstValid.pin stamp merged
    · rw [fromSecond] at merged
      exact secondValid.pin stamp merged
  · intro reaction member
    rcases List.mem_append.1 member with fromFirst | fromSecond
    · exact firstValid.reacts reaction fromFirst
    · exact secondValid.reacts reaction fromSecond

/-- Merging piles the canonical forms and chooses again. -/
theorem Valid.merge_eq {first second : RowState}
    (firstValid : Valid isJsonObject key first) (secondValid : Valid isJsonObject key second)
    (targets : first.target = second.target) :
    merge isJsonObject first second = .ok (first.settle.pile second.settle).settle ∧
      Valid isJsonObject key (first.settle.pile second.settle) := by
  have settledTargets : first.settle.target = second.settle.target := by
    rw [target_settle, target_settle, targets]
  have valid := firstValid.settle.pile secondValid.settle settledTargets
  refine ⟨?_, valid⟩
  simp only [History.merge, canonical_eq_ok.2 ⟨firstValid, rfl⟩,
    canonical_eq_ok.2 ⟨secondValid, rfl⟩, canonical_eq_ok.2 ⟨valid, rfl⟩, bind, Except.bind, pure,
    Except.pure, settledTargets, require, beq_self_eq_true, Bool.and_self, if_true]

end Parvane.History
