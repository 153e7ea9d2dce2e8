import Parvane.History.Validity

/-!
# Canonical states describe their events

The canonical form of a valid state describes the events of the state.  A state that
describes some events can stand for them: its own events are few of them, but enough.
-/

namespace Parvane.History

open Wire State Convergence

variable {isJsonObject : Bytes -> Bool} {author : String} {kind : Option ChatKind}

/-! ## Uniqueness -/

variable {events : Events} {target : Bytes}

/-- There is one state that describes some events. -/
theorem Describes.unique
    (about : events.About target) (chats : Set.InjOn chatRank events.chats)
    (ties : events.rows.Nonempty -> Set.InjOn chosenRank (events.validEdits author))
    {first second : RowState} (firstDescribes : Describes author kind target events first)
    (secondDescribes : Describes author kind target events second) : first = second := by
  have targetEq := firstDescribes.target.trans secondDescribes.target.symm
  have chatEq := firstDescribes.chat.unique chats secondDescribes.chat
  have pinEq : first.pin = second.pin ->
      (first.pinStamp = none -> first.pinned = false) ->
      (second.pinStamp = none -> second.pinned = false) ->
      first.pinStamp = second.pinStamp ∧ first.pinned = second.pinned := by
    intro pins firstUnpinned secondUnpinned
    cases firstPin : first.pinStamp <;> cases secondPin : second.pinStamp <;>
      simp_all [RowState.pin]
  rcases Set.eq_empty_or_nonempty events.rows with noRow | someRow
  · have firstOrphan := firstDescribes.orphan noRow
    have secondOrphan := secondDescribes.orphan noRow
    obtain ⟨firstEdits, firstEditsEq, firstEditsTop⟩ := firstOrphan.edits
    obtain ⟨secondEdits, secondEditsEq, secondEditsTop⟩ := secondOrphan.edits
    obtain ⟨firstGones, firstGonesEq, firstGonesTop⟩ := firstOrphan.gones
    obtain ⟨secondGones, secondGonesEq, secondGonesTop⟩ := secondOrphan.gones
    have editsEq := firstEditsTop.unique (eventRank_injective _).injOn secondEditsTop
    have gonesEq := firstGonesTop.unique (eventRank_injective _).injOn secondGonesTop
    obtain ⟨pinStampEq, pinnedEq⟩ :=
      pinEq (firstOrphan.pin.unique pinRank_injective.injOn secondOrphan.pin)
        firstOrphan.unpinned secondOrphan.unpinned
    apply RowState.ext targetEq chatEq
    · rw [firstOrphan.row, secondOrphan.row]
    · rw [firstOrphan.editStamp, secondOrphan.editStamp]
    · rw [firstOrphan.editBody, secondOrphan.editBody]
    · exact firstOrphan.reacts.unique reactRank_injective.injOn secondOrphan.reacts
    · exact pinStampEq
    · exact pinnedEq
    · rw [firstOrphan.gone, secondOrphan.gone]
    · rw [firstEditsEq, secondEditsEq, editsEq, chatEq]
    · rw [firstGonesEq, secondGonesEq, gonesEq, chatEq]
  · obtain ⟨firstEdits, firstGones, firstKnown⟩ := firstDescribes.known someRow
    obtain ⟨secondEdits, secondGones, secondKnown⟩ := secondDescribes.known someRow
    have exclusive {living buried : RowState}
        (alive : DescribesAlive author kind events living)
        (deleted : DescribesGone author kind events buried) : False := by
      obtain ⟨gone, -, goneTop⟩ := deleted.gone
      have member := goneTop.1
      rw [alive.gones] at member
      exact member
    rcases firstKnown with firstAlive | firstGone <;>
      rcases secondKnown with secondAlive | secondGone
    · obtain ⟨firstRow, firstRowEq, firstRowTop⟩ := firstAlive.row
      obtain ⟨secondRow, secondRowEq, secondRowTop⟩ := secondAlive.row
      have rowsInj : Set.InjOn rowRank events.rows :=
        rowRank_injOn.mono fun row member => (about.rows row member).2
      have rowEq := Option.some.inj (firstRowTop.unique rowsInj secondRowTop)
      have editEq := firstAlive.edit.unique (ties someRow) secondAlive.edit
      obtain ⟨pinStampEq, pinnedEq⟩ :=
        pinEq (firstAlive.pin.unique pinRank_injective.injOn secondAlive.pin)
          firstAlive.unpinned secondAlive.unpinned
      have edits : first.editStamp = second.editStamp ∧ first.editBody = second.editBody := by
        have firstUnedited := firstAlive.unedited
        have secondUnedited := secondAlive.unedited
        cases firstStamp : first.editStamp <;> cases secondStamp : second.editStamp <;>
          simp_all [RowState.edit]
      apply RowState.ext targetEq chatEq
      · rw [firstRowEq, secondRowEq, rowEq, chatEq]
      · exact edits.1
      · exact edits.2
      · exact firstAlive.reacts.unique reactRank_injective.injOn secondAlive.reacts
      · exact pinStampEq
      · exact pinnedEq
      · rw [firstAlive.gone, secondAlive.gone]
      · rw [firstEdits, secondEdits]
      · rw [firstGones, secondGones]
    · exact (exclusive firstAlive secondGone).elim
    · exact (exclusive secondAlive firstGone).elim
    · obtain ⟨firstInner, firstGoneEq, firstGoneTop⟩ := firstGone.gone
      obtain ⟨secondInner, secondGoneEq, secondGoneTop⟩ := secondGone.gone
      obtain ⟨firstHead, firstRowEq, firstHeadTop⟩ := firstGone.row
      obtain ⟨secondHead, secondRowEq, secondHeadTop⟩ := secondGone.row
      have goneEq := Option.some.inj
        (firstGoneTop.unique (eventRank_injective _).injOn secondGoneTop)
      have headEq := Option.some.inj
        (firstHeadTop.unique headRank_injective.injOn secondHeadTop)
      apply RowState.ext targetEq chatEq
      · rw [firstRowEq, secondRowEq, headEq, chatEq]
      · rw [firstGone.editStamp, secondGone.editStamp]
      · rw [firstGone.editBody, secondGone.editBody]
      · rw [firstGone.reacts, secondGone.reacts]
      · rw [firstGone.pinStamp, secondGone.pinStamp]
      · rw [firstGone.pinned, secondGone.pinned]
      · rw [firstGoneEq, secondGoneEq, goneEq, chatEq]
      · rw [firstEdits, secondEdits]
      · rw [firstGones, secondGones]

/-! ## The canonical form of a canonical state -/

variable {state : RowState} {key : String}

theorem Valid.about
    (valid : Valid isJsonObject key state) : state.events.About state.target := by
  refine ⟨?_, ?_, ?_⟩
  · rintro _ ⟨row, isRow, rfl⟩
    exact ⟨(valid.row row isRow).id, rfl⟩
  · rintro _ ⟨edit, candidate, rfl⟩
    exact ⟨(valid.edits edit candidate).target, rfl⟩
  · rintro _ ⟨gone, candidate, rfl⟩
    exact ⟨(valid.gones gone candidate).target, rfl⟩

theorem Events.About.editRank_le_of_withChat
    (about : events.About target) {first second : Edit} (firstMember : first ∈ events.edits)
    (secondMember : second ∈ events.edits) {chat : Option Peer}
    (ordered : editRank (first.withChat chat) ≤ editRank (second.withChat chat)) :
    editRank first ≤ editRank second := by
  obtain ⟨firstTarget, firstBare⟩ := about.edits first firstMember
  obtain ⟨secondTarget, secondBare⟩ := about.edits second secondMember
  have bare := (editRank_withChat_le_iff (firstTarget.trans secondTarget.symm) chat none).1 ordered
  rwa [Edit.withChat_of_chat firstBare, Edit.withChat_of_chat secondBare] at bare

theorem Events.About.goneRank_le_of_withChat
    (about : events.About target) {first second : Gone} (firstMember : first ∈ events.gones)
    (secondMember : second ∈ events.gones) {chat : Option Peer}
    (ordered : goneRank (first.withChat chat) ≤ goneRank (second.withChat chat)) :
    goneRank first ≤ goneRank second := by
  obtain ⟨firstTarget, firstBare⟩ := about.gones first firstMember
  obtain ⟨secondTarget, secondBare⟩ := about.gones second secondMember
  have bare := (goneRank_withChat_le_iff (firstTarget.trans secondTarget.symm) chat none).1 ordered
  rwa [Gone.withChat_of_chat firstBare, Gone.withChat_of_chat secondBare] at bare

/-- Reactions with stamps are registers, one for each user. -/
theorem isTopList_settled_reacts {reacts : List Reaction}
    (stamped : ∀ reaction ∈ reacts, reaction.stamp.isSome = true) :
    KeyedList.IsTopList Reaction.user reactRank { reaction | reaction ∈ reacts }
      ((reacts.foldl putReaction ∅).toList.map Prod.snd) := by
  have run (reacts : List Reaction) (byUser : Std.ExtTreeMap String Reaction)
      (stamped : ∀ reaction ∈ reacts, reaction.stamp.isSome = true)
      (held : ∀ (user : String) (reaction : Reaction), byUser[user]? = some reaction ->
        reaction.stamp.isSome = true) :
      reacts.foldl putReaction byUser =
        reacts.foldl (alterAt (fun reaction => some reaction.user) (keepGreatest reactRank))
          byUser := by
    induction reacts generalizing byUser with
    | nil => rfl
    | cons reaction reacts inductionHypothesis =>
        have step : putReaction byUser reaction =
            alterAt (fun reaction => some reaction.user) (keepGreatest reactRank) byUser
              reaction := by
          obtain ⟨second, secondEq⟩ :=
            Option.isSome_iff_exists.1 (stamped reaction List.mem_cons_self)
          apply Std.ExtTreeMap.ext_getElem?
          intro user
          rw [getElem?_alterAt, putReaction, Std.ExtTreeMap.getElem?_alter]
          by_cases same : reaction.user = user
          · subst same
            simp only [Std.ReflCmp.compare_self, if_true]
            cases before : byUser[reaction.user]? with
            | none => rfl
            | some current =>
                obtain ⟨first, firstEq⟩ :=
                  Option.isSome_iff_exists.1 (held reaction.user current before)
                have ranks : later (first, current) (second, reaction) = true ↔
                    reactRank current < reactRank reaction := by
                  simp [later, reactRank, firstEq, secondEq]
                simp only [firstEq, secondEq, keepGreatest_some, ranks]
          · have different : some reaction.user ≠ some user := by
              simpa using same
            have notSame : compare reaction.user user ≠ .eq :=
              fun equal => same (Std.LawfulEqCmp.eq_of_compare equal)
            rw [if_neg notSame, if_neg different]
        rw [List.foldl_cons, List.foldl_cons, ← step]
        apply inductionHypothesis _ fun other member => stamped other (List.mem_cons_of_mem _ member)
        intro user found isFound
        have merged : (([reaction].foldl putReaction byUser))[user]? = some found := isFound
        rcases mem_foldl_putReaction [reaction] byUser merged with isNew | isOld
        · rw [List.mem_singleton.1 isNew]
          exact stamped reaction List.mem_cons_self
        · exact held user found isOld
  rw [run reacts ∅ stamped (by simp)]
  refine KeyedList.isTopList_values fun user => ?_
  rw [ConvergesFrom.getElem?_foldl_alterAt, Std.ExtTreeMap.getElem?_empty]
  have top := isTopOf_foldl_keepGreatest reactRank
    (reacts.filter fun reaction => some reaction.user = some user)
  simpa only [List.mem_filter, decide_eq_true_eq, Option.some.injEq, Set.mem_ofPred_eq] using top

theorem isTopOf_pin (state : RowState) : IsTopOf pinRank state.events.pins state.pin := by
  unfold RowState.pin
  cases isPin : state.pinStamp with
  | none =>
      rw [Option.map_none, IsTopOf, Set.eq_empty_iff_forall_notMem]
      rintro pin ⟨stamped, -⟩
      rw [isPin] at stamped
      cases stamped
  | some stamp =>
      refine ⟨⟨isPin, rfl⟩, ?_⟩
      rintro ⟨other, pinned⟩ ⟨stamped, same⟩
      rw [isPin] at stamped
      cases stamped
      cases same
      exact le_rfl

section

variable (valid : Valid isJsonObject key state)

include valid

/-- The chosen edit is the latest valid one. -/
theorem Valid.isTopOf_ownEdits
    (author : String) :
    ∃ edit, state.chosenEdit author = edit.map (Edit.withChat state.chosenChat) ∧
      IsTopOf editRank { edit | edit ∈ state.events.edits ∧ editValid edit author = true }
        edit := by
  have about := valid.about
  have top := isTopOf_latest Edit.stampOf
    ((state.candidateEdits.map (Edit.withChat state.chosenChat)).filter
      fun edit => editValid edit author)
  have images : { edit | edit ∈ (state.candidateEdits.map (Edit.withChat state.chosenChat)).filter
        fun edit => editValid edit author } =
      Edit.withChat state.chosenChat ''
        { edit | edit ∈ state.events.edits ∧ editValid edit author = true } := by
    ext edit
    simp only [Set.mem_ofPred_eq, List.mem_filter, List.mem_map, Set.mem_image]
    constructor
    · rintro ⟨⟨original, candidate, rfl⟩, isValid⟩
      exact ⟨original.withChat none, ⟨⟨original, candidate, rfl⟩, isValid⟩, rfl⟩
    · rintro ⟨_, ⟨⟨original, candidate, rfl⟩, isValid⟩, rfl⟩
      exact ⟨⟨original, candidate, rfl⟩, isValid⟩
  have bare : ∀ edit ∈ { edit | edit ∈ state.events.edits ∧ editValid edit author = true },
      (edit.withChat state.chosenChat).withChat none = edit :=
    fun edit member => Edit.withChat_of_chat (about.edits edit member.1).2
  rw [images] at top
  exact ⟨_, top.unmap editRank (Edit.withChat none) bare
    fun first firstMember second secondMember ordered =>
      about.editRank_le_of_withChat firstMember.1 secondMember.1 ordered⟩

theorem Valid.isTopOf_chosenEdit
    (author : String) :
    IsTopOf chosenRank (state.events.validEdits author)
      ((state.chosenEdit author).map Edit.chosen) := by
  obtain ⟨edit, editEq, editTop⟩ := valid.isTopOf_ownEdits author
  have chosenTop := editTop.image chosenRank Edit.chosen
    fun first _ second _ ordered => Prod.Lex.monotone_fst _ _ ordered
  have same : (state.chosenEdit author).map Edit.chosen = edit.map Edit.chosen := by
    rw [editEq, Option.map_map]
    rfl
  rw [same]
  exact chosenTop

/-- The chosen deletion is the latest valid one. -/
theorem Valid.isTopOf_chosenGone
    (kindEq : state.chosenChat.bind chatKindOf = kind)
    (author : String) :
    ∃ gone, state.chosenGone author = gone.map (Gone.withChat state.chosenChat) ∧
      IsTopOf goneRank (state.events.validGones author kind) gone := by
  have about := valid.about
  have top := isTopOf_latest Gone.stampOf
    ((state.candidateGones.map (Gone.withChat state.chosenChat)).filter
      fun gone => goneValid gone author (state.chosenChat.bind chatKindOf))
  have images : { gone | gone ∈ (state.candidateGones.map (Gone.withChat state.chosenChat)).filter
        fun gone => goneValid gone author (state.chosenChat.bind chatKindOf) } =
      Gone.withChat state.chosenChat '' state.events.validGones author kind := by
    ext gone
    simp only [Events.validGones, Set.mem_ofPred_eq, List.mem_filter, List.mem_map, Set.mem_image,
      kindEq]
    constructor
    · rintro ⟨⟨original, candidate, rfl⟩, isValid⟩
      exact ⟨original.withChat none, ⟨⟨original, candidate, rfl⟩, isValid⟩, rfl⟩
    · rintro ⟨_, ⟨⟨original, candidate, rfl⟩, isValid⟩, rfl⟩
      exact ⟨⟨original, candidate, rfl⟩, isValid⟩
  have bare : ∀ gone ∈ state.events.validGones author kind,
      (gone.withChat state.chosenChat).withChat none = gone :=
    fun gone member => Gone.withChat_of_chat (about.gones gone member.1).2
  rw [images] at top
  exact ⟨_, top.unmap goneRank (Gone.withChat none) bare
    fun first firstMember second secondMember ordered =>
      about.goneRank_le_of_withChat firstMember.1 secondMember.1 ordered⟩

end

/-- Not too many authors of edits and deletions wait for the row. -/
structure FewAuthors (kind : Option ChatKind) (events : Events) : Prop where
  edits : ∃ authors : List String, authors.length ≤ maxPendingAuthors ∧
    ∀ edit ∈ events.edits, edit.by = "" ∨ edit.by ∈ authors
  gones : ∃ authors : List String, authors.length ≤ maxPendingAuthors ∧
    ∀ gone ∈ events.gones, goneKey kind gone = "" ∨ goneKey kind gone ∈ authors

theorem Valid.describesOrphan_settle
    (valid : Valid isJsonObject key state) (kindEq : state.chosenChat.bind chatKindOf = kind)
    (noRow : state.row = none) (few : FewAuthors kind state.events) :
    DescribesOrphan kind state.events state.settle := by
  have about := valid.about
  obtain ⟨editAuthors, fewEditAuthors, editAuthorsCover⟩ := few.edits
  obtain ⟨goneAuthors, fewGoneAuthors, goneAuthorsCover⟩ := few.gones
  rw [settle_of_row_none noRow, kindEq]
  refine ⟨rfl, rfl, rfl, rfl, ?_, ?_, ?_, valid.unpinned, isTopOf_pin state⟩
  · have top := isTopList_reducePending
      (state.candidateEdits.map (Edit.withChat state.chosenChat)) Edit.by Edit.stampOf
      fewEditAuthors ?_
    · have images : { edit | edit ∈ state.candidateEdits.map (Edit.withChat state.chosenChat) } =
          Edit.withChat state.chosenChat '' state.events.edits := by
        ext edit
        simp only [RowState.events, Set.mem_ofPred_eq, List.mem_map, Set.mem_image,
          exists_exists_and_eq_and, Edit.withChat_withChat]
      have bare : ∀ edit ∈ state.events.edits,
          (edit.withChat state.chosenChat).withChat none = edit :=
        fun edit member => Edit.withChat_of_chat (about.edits edit member).2
      rw [images] at top
      exact ⟨_, top.unmap Edit.by editRank (Edit.withChat none) bare (fun _ _ => rfl)
        fun first firstMember second secondMember ordered =>
          about.editRank_le_of_withChat firstMember secondMember ordered⟩
    · intro edit member
      obtain ⟨original, candidate, rfl⟩ := List.mem_map.1 member
      exact editAuthorsCover (original.withChat none) ⟨original, candidate, rfl⟩
  · have top := isTopList_reducePending
      (state.candidateGones.map (Gone.withChat state.chosenChat)) (goneKey kind) Gone.stampOf
      fewGoneAuthors ?_
    · have images : { gone | gone ∈ state.candidateGones.map (Gone.withChat state.chosenChat) } =
          Gone.withChat state.chosenChat '' state.events.gones := by
        ext gone
        simp only [RowState.events, Set.mem_ofPred_eq, List.mem_map, Set.mem_image,
          exists_exists_and_eq_and, Gone.withChat_withChat]
      have bare : ∀ gone ∈ state.events.gones,
          (gone.withChat state.chosenChat).withChat none = gone :=
        fun gone member => Gone.withChat_of_chat (about.gones gone member).2
      rw [images] at top
      exact ⟨_, top.unmap (goneKey kind) goneRank (Gone.withChat none) bare (fun _ _ => rfl)
        fun first firstMember second secondMember ordered =>
          about.goneRank_le_of_withChat firstMember secondMember ordered⟩
    · intro gone member
      obtain ⟨original, candidate, rfl⟩ := List.mem_map.1 member
      exact goneAuthorsCover (original.withChat none) ⟨original, candidate, rfl⟩
  · exact isTopList_settled_reacts fun reaction member => by
      obtain ⟨stamp, stampEq, -⟩ := (valid.reacts reaction member).stamp
      rw [stampEq]
      rfl

/-- A single row is the least one. -/
theorem isTopOf_row {state : RowState} {row : MessageRow} (isRow : state.row = some row) :
    IsTopOf rowRank state.events.rows (some (row.withChat none)) := by
  refine ⟨⟨row, isRow, rfl⟩, ?_⟩
  rintro _ ⟨other, isOther, rfl⟩
  rw [Set.mem_ofPred_eq, isRow] at isOther
  cases isOther
  exact le_rfl

theorem Valid.describesKnown_settle
    (valid : Valid isJsonObject key state) (kindEq : state.chosenChat.bind chatKindOf = kind)
    {row : MessageRow} (isRow : state.row = some row) (isAuthor : row.from = author) :
    DescribesKnown author kind state.events state.settle := by
  obtain ⟨gone, goneEq, goneTop⟩ := valid.isTopOf_chosenGone kindEq row.from
  have rowTop := isTopOf_row isRow
  rw [isAuthor] at goneTop
  cases gone with
  | none =>
      have editTop := valid.isTopOf_chosenEdit row.from
      rw [settle_of_chosenGone_none isRow goneEq]
      refine ⟨rfl, rfl, .inl ⟨rfl, goneTop, ⟨row.withChat none, rfl, rowTop⟩, ?_, ?_, ?_,
        valid.unpinned, isTopOf_pin state⟩⟩
      · intro unedited
        simp only [Option.map_eq_none_iff] at unedited
        simp [unedited]
      · rw [isAuthor] at editTop ⊢
        have chosen : ∀ edit : Option Edit,
            ((edit.map Edit.stampOf).map fun stamp => (stamp, (edit.map Edit.body).getD [])) =
              edit.map Edit.chosen := by
          intro edit
          cases edit <;> rfl
        rw [RowState.edit, chosen]
        exact editTop
      · exact isTopList_settled_reacts fun reaction member => by
          obtain ⟨stamp, stampEq, -⟩ := (valid.reacts reaction member).stamp
          rw [stampEq]
          rfl
  | some gone =>
      rw [settle_of_chosenGone_some isRow goneEq]
      refine ⟨rfl, rfl, .inr ⟨⟨gone, rfl, goneTop⟩, ⟨(row.withChat none).head, rfl, ?_⟩, rfl, rfl,
        rfl, rfl, rfl⟩⟩
      refine ⟨⟨_, rowTop.1, rfl⟩, ?_⟩
      rintro _ ⟨_, ⟨other, isOther, rfl⟩, rfl⟩
      rw [Set.mem_ofPred_eq, isRow] at isOther
      cases isOther
      exact le_rfl

/-- The canonical form of a valid state describes its events. -/
theorem Valid.describes_settle
    (valid : Valid isJsonObject key state) (kindEq : state.chosenChat.bind chatKindOf = kind)
    (oneAuthor : ∀ row ∈ state.row, row.from = author)
    (few : state.row = none -> FewAuthors kind state.events) :
    Describes author kind state.target state.events state.settle := by
  refine ⟨target_settle state, ?_, ?_, ?_⟩
  · rw [chat_settle]
    exact valid.isTopOf_chosenChat
  · intro noRows
    have noRow : state.row = none := by
      cases isRow : state.row with
      | none => rfl
      | some row =>
          have member : row.withChat none ∈ state.events.rows := ⟨row, isRow, rfl⟩
          rw [noRows] at member
          cases member
    exact valid.describesOrphan_settle kindEq noRow (few noRow)
  · rintro ⟨_, row, isRow, rfl⟩
    exact valid.describesKnown_settle kindEq isRow (oneAuthor row isRow)

/-! ## States that stand for events -/

theorem goneValid_iff_goneKey {gone : Gone} :
    goneValid gone author kind = true ↔ goneKey kind gone = "" ∨ goneKey kind gone = author := by
  unfold goneValid goneKey
  by_cases always : goneAlwaysValid gone kind = true
  · simp [always]
  · have parts := always
    simp only [goneAlwaysValid, Bool.or_eq_true, not_or] at parts
    obtain ⟨⟨⟨notMe, notEmpty⟩, -⟩, -⟩ := parts
    have named : gone.by ≠ "" := by
      intro empty
      rw [empty] at notEmpty
      exact notEmpty rfl
    simp [always, notMe, named]

theorem editValid_iff {edit : Edit} :
    editValid edit author = true ↔ edit.by = "" ∨ edit.by = author := by
  simp [editValid]

/-- Valid deletions are kept with the deletions of each author. -/
theorem cofinal_validGones {few many : Events}
    (cofinal : KeyedList.KeyCofinal (goneKey kind) goneRank few.gones many.gones) :
    Cofinal goneRank (few.validGones author kind) (many.validGones author kind) := by
  refine ⟨fun gone member => ⟨cofinal.1 member.1, member.2⟩, ?_⟩
  rintro gone ⟨member, valid⟩
  obtain ⟨other, inside, sameKey, ordered⟩ := cofinal.2 gone member
  rw [goneValid_iff_goneKey, ← sameKey, ← goneValid_iff_goneKey] at valid
  exact ⟨other, ⟨inside, valid⟩, ordered⟩

/-- Valid edits are kept with the edits of each author. -/
theorem cofinal_validEdits {few many : Events}
    (cofinal : KeyedList.KeyCofinal Edit.by editRank few.edits many.edits) :
    Cofinal chosenRank (few.validEdits author) (many.validEdits author) := by
  refine ⟨Set.image_mono fun edit member => ⟨cofinal.1 member.1, member.2⟩, ?_⟩
  rintro _ ⟨edit, ⟨member, valid⟩, rfl⟩
  obtain ⟨other, inside, sameKey, ordered⟩ := cofinal.2 edit member
  rw [editValid_iff, ← sameKey, ← editValid_iff] at valid
  exact ⟨other.chosen, ⟨other, ⟨inside, valid⟩, rfl⟩, Prod.Lex.monotone_fst _ _ ordered⟩

theorem RowState.Uniform.events_chats
    (uniform : state.Uniform) : state.events.chats = { peer | peer ∈ state.chat } := by
  ext peer
  constructor
  · rintro (isChat | isNested)
    · exact isChat
    · exact uniform peer isNested
  · exact .inl

theorem events_rows (state : RowState) :
    state.events.rows = { row | row ∈ state.row.map (MessageRow.withChat none) } := by
  ext row
  simp [RowState.events]

theorem events_pins (state : RowState) : state.events.pins = { pin | pin ∈ state.pin } := by
  ext ⟨stamp, pinned⟩
  simp only [RowState.events, RowState.pin, Set.mem_ofPred_eq, Option.mem_def,
    Option.map_eq_some_iff, Prod.mk.injEq]
  constructor
  · rintro ⟨isStamp, isPinned⟩
    exact ⟨stamp, isStamp, rfl, isPinned⟩
  · rintro ⟨_, isStamp, rfl, isPinned⟩
    exact ⟨isStamp, isPinned⟩

section

variable (about : events.About target)

include about

/-- The edits of a state without a row are the latest of each author. -/
theorem DescribesOrphan.isTopList_edits
    (orphan : DescribesOrphan kind events state) :
    ∃ edits, state.events.edits = { edit | edit ∈ edits } ∧
      KeyedList.IsTopList Edit.by editRank events.edits edits := by
  obtain ⟨edits, editsEq, top⟩ := orphan.edits
  refine ⟨edits, ?_, top⟩
  ext edit
  simp only [RowState.events, RowState.candidateEdits, orphan.editStamp, editsEq,
    Option.toList_none, List.map_nil, List.append_nil, Set.mem_image, Set.mem_ofPred_eq,
    List.mem_map, exists_exists_and_eq_and, Edit.withChat_withChat]
  constructor
  · rintro ⟨original, member, rfl⟩
    rw [Edit.withChat_of_chat (about.edits original (top.mem member)).2]
    exact member
  · intro member
    exact ⟨edit, member, Edit.withChat_of_chat (about.edits edit (top.mem member)).2⟩

theorem DescribesOrphan.isTopList_gones
    (orphan : DescribesOrphan kind events state) :
    ∃ gones, state.events.gones = { gone | gone ∈ gones } ∧
      KeyedList.IsTopList (goneKey kind) goneRank events.gones gones := by
  obtain ⟨gones, gonesEq, top⟩ := orphan.gones
  refine ⟨gones, ?_, top⟩
  ext gone
  simp only [RowState.events, RowState.candidateGones, orphan.gone, gonesEq,
    Option.toList_none, List.append_nil, Set.mem_image, Set.mem_ofPred_eq,
    List.mem_map, exists_exists_and_eq_and, Gone.withChat_withChat]
  constructor
  · rintro ⟨original, member, rfl⟩
    rw [Gone.withChat_of_chat (about.gones original (top.mem member)).2]
    exact member
  · intro member
    exact ⟨gone, member, Gone.withChat_of_chat (about.gones gone (top.mem member)).2⟩

theorem DescribesOrphan.reduces
    (noRows : events.rows = ∅)
    (orphan : DescribesOrphan kind events state) (chat : IsTopOf chatRank events.chats state.chat)
    (uniform : state.Uniform) : Reduces author kind state.events events := by
  have rows : state.events.rows = ∅ := by
    rw [events_rows, orphan.row]
    simp
  have edits : KeyedList.KeyCofinal Edit.by editRank state.events.edits events.edits := by
    obtain ⟨edits, same, top⟩ := orphan.isTopList_edits about
    rw [same]
    exact top.keyCofinal
  have gones : KeyedList.KeyCofinal (goneKey kind) goneRank state.events.gones events.gones := by
    obtain ⟨gones, same, top⟩ := orphan.isTopList_gones about
    rw [same]
    exact top.keyCofinal
  refine ⟨?_, ?_, fun _ => edits, fun _ => gones, cofinal_validGones gones, fun _ => ?_,
    fun _ => cofinal_validEdits edits, fun _ => orphan.reacts.keyCofinal, fun _ => ?_⟩
  · rw [uniform.events_chats]
    exact chat.cofinal
  · rw [rows, noRows]
    exact Cofinal.refl _
  · rw [rows, noRows]
    exact Cofinal.refl _
  · rw [events_pins]
    exact orphan.pin.cofinal

theorem DescribesKnown.reduces
    (someRow : events.rows.Nonempty) (known : DescribesKnown author kind events state)
    (chat : IsTopOf chatRank events.chats state.chat) (uniform : state.Uniform) :
    Reduces author kind state.events events := by
  have notOrphan : ¬ events.rows = ∅ := someRow.ne_empty
  obtain ⟨noEdits, noGones, living | buried⟩ := known
  · obtain ⟨row, rowEq, rowTop⟩ := living.row
    have bare := (about.rows row rowTop.1).2
    have rows : state.events.rows = { other | other ∈ some row } := by
      rw [events_rows, rowEq, Option.map_some, MessageRow.withChat_withChat,
        MessageRow.withChat_of_chat bare]
    have gones : state.events.validGones author kind = ∅ := by
      rw [Set.eq_empty_iff_forall_notMem]
      rintro gone ⟨⟨original, candidate, -⟩, -⟩
      simp [RowState.candidateGones, noGones, living.gone] at candidate
    have edits : state.events.validEdits author = { edit | edit ∈ state.edit } := by
      ext ⟨stamp, body⟩
      simp only [Events.validEdits, RowState.events, RowState.candidateEdits, noEdits,
        List.nil_append, Set.mem_image, Set.mem_ofPred_eq, List.mem_map, Option.mem_toList,
        RowState.edit, Option.mem_def, Option.map_eq_some_iff, Prod.mk.injEq]
      constructor
      · rintro ⟨_, ⟨⟨_, ⟨found, isStamp, rfl⟩, rfl⟩, -⟩, chosen⟩
        cases chosen
        exact ⟨found, isStamp, rfl, rfl⟩
      · rintro ⟨found, isStamp, rfl, rfl⟩
        exact ⟨_, ⟨⟨_, ⟨found, isStamp, rfl⟩, rfl⟩, rfl⟩, rfl⟩
    refine ⟨?_, ?_, fun noRow => absurd noRow notOrphan, fun noRow => absurd noRow notOrphan,
      ?_, fun _ => ?_, fun _ => ?_, fun _ => living.reacts.keyCofinal, fun _ => ?_⟩
    · rw [uniform.events_chats]
      exact chat.cofinal
    · have headTop := rowTop.image headRank MessageRow.head
        fun first firstMember second secondMember ordered =>
          OrderDual.toDual_le_toDual.2 (encode_head_le_of_rowKey_le
            (about.rows second secondMember).2 (about.rows first firstMember).2
            (OrderDual.toDual_le_toDual.1 ordered))
      have heads : MessageRow.head '' state.events.rows = { head | head ∈ some row.head } := by
        ext head
        simp [rows, eq_comm]
      rw [heads]
      exact headTop.cofinal
    · rw [gones, living.gones]
      exact Cofinal.refl _
    · rw [rows]
      exact rowTop.cofinal
    · rw [edits]
      exact living.edit.cofinal
    · rw [events_pins]
      exact living.pin.cofinal
  · obtain ⟨gone, goneEq, goneTop⟩ := buried.gone
    obtain ⟨head, headEq, headTop⟩ := buried.row
    have dead : ¬ events.Alive author kind := by
      rintro (noRow | noGone)
      · exact notOrphan noRow
      · have member := goneTop.1
        rw [noGone] at member
        exact member
    have gones : state.events.validGones author kind = { other | other ∈ some gone } := by
      have bare := Gone.withChat_of_chat (about.gones gone goneTop.1.1).2
      ext other
      simp only [Events.validGones, RowState.events, RowState.candidateGones, noGones, goneEq,
        List.nil_append, Option.toList_some, Set.mem_image, Set.mem_ofPred_eq,
        List.mem_singleton, exists_eq_left, Gone.withChat_withChat, bare, Option.mem_def,
        Option.some.injEq]
      constructor
      · rintro ⟨same, -⟩
        exact same
      · rintro rfl
        exact ⟨rfl, goneTop.1.2⟩
    have heads : MessageRow.head '' state.events.rows = { other | other ∈ some head } := by
      obtain ⟨row, rowMember, rfl⟩ := headTop.1
      have bare := (about.rows row rowMember).2
      have same : (row.head.withChat none).head = row.head := by
        rw [MessageRow.withChat_of_chat (by exact bare)]
        rfl
      ext other
      simp only [events_rows, headEq, Option.map_some, MessageRow.withChat_withChat,
        Option.mem_def, Option.some.injEq, Set.mem_image, Set.mem_ofPred_eq, exists_eq_left', same]
    refine ⟨?_, ?_, fun noRow => absurd noRow notOrphan, fun noRow => absurd noRow notOrphan,
      ?_, fun alive => absurd alive dead, fun alive => absurd alive dead,
      fun alive => absurd alive dead, fun alive => absurd alive dead⟩
    · rw [uniform.events_chats]
      exact chat.cofinal
    · rw [heads]
      exact headTop.cofinal
    · rw [gones]
      exact goneTop.cofinal

/-- A state that describes events can stand for them. -/
theorem Describes.reduces
    (describes : Describes author kind target events state)
    (uniform : state.Uniform) : Reduces author kind state.events events := by
  rcases Set.eq_empty_or_nonempty events.rows with noRow | someRow
  · exact (describes.orphan noRow).reduces about noRow describes.chat uniform
  · exact (describes.known someRow).reduces about someRow describes.chat uniform

end

/-! ## The canonical form of a canonical state -/

/-- What was chosen is chosen again. -/
theorem Valid.settle_settle {key : String} {state : RowState}
    (valid : Valid isJsonObject key state) : state.settle.settle = state.settle := by
  have stamped (reaction : Reaction) (member : reaction ∈ state.reacts) :
      reaction.stamp.isSome = true := by
    obtain ⟨stamp, stampEq, -⟩ := (valid.reacts reaction member).stamp
    simp [stampEq]
  have top := isTopList_settled_reacts stamped
  have reacts := (isTopList_settled_reacts fun reaction member =>
    stamped reaction (mem_settled_reacts member)).unique reactRank_injective.injOn top.1.isTopList
  cases isRow : state.row with
  | none =>
      have settled := settle_of_row_none isRow
      have noRow : state.settle.row = none := by rw [settled]
      have edits := reducePending_map state.candidateEdits Edit.by Edit.stampOf
        (Edit.withChat_withChat state.chosenChat state.chosenChat)
      have gones := reducePending_map state.candidateGones
        (goneKey (state.chosenChat.bind chatKindOf)) Gone.stampOf
        (Gone.withChat_withChat state.chosenChat state.chosenChat)
      rw [settle_of_row_none noRow, chosenChat_settle, settled]
      simpa [RowState.candidateEdits, RowState.candidateGones, reacts] using And.intro edits gones
  | some row =>
      cases isGone : state.chosenGone row.from with
      | none =>
          have settled := settle_of_chosenGone_none isRow isGone
          have isNext : state.settle.row = some (row.withChat state.chosenChat) := by rw [settled]
          have noGone : state.settle.chosenGone (row.withChat state.chosenChat).from = none := by
            rw [RowState.chosenGone, candidateGones_settle isRow, isGone]
            rfl
          have edit : state.settle.chosenEdit (row.withChat state.chosenChat).from =
              (state.chosenEdit row.from).map fun edit =>
                { target := state.target
                  chat := state.chosenChat
                  stamp := some edit.stampOf
                  body := edit.body } := by
            rw [RowState.chosenEdit, chosenChat_settle, settled, RowState.candidateEdits]
            cases state.chosenEdit row.from <;> rfl
          rw [settle_of_chosenGone_none isNext noGone, chosenChat_settle, edit, settled]
          simp only [Option.map_map, reacts, MessageRow.withChat_withChat]
          rfl
      | some gone =>
          have settled := settle_of_chosenGone_some isRow isGone
          have isNext : state.settle.row = some (row.head.withChat state.chosenChat) := by
            rw [settled]
          have isGoneNext : state.settle.chosenGone (row.head.withChat state.chosenChat).from =
              some gone := by
            have stays := goneValid_of_chosenGone isGone
            obtain ⟨original, -, rfl⟩ := mem_of_chosenGone isGone
            rw [RowState.chosenGone, candidateGones_settle isRow, isGone, chosenChat_settle]
            simp [MessageRow.withChat, MessageRow.head, stays, latest]
          rw [settle_of_chosenGone_some isNext isGoneNext, chosenChat_settle, settled]
          rfl

/-- A canonical state is its own canonical form. -/
theorem canonical_canonical (isJsonObject : Bytes -> Bool) (state : RowState) :
    (canonical isJsonObject state >>= fun held => canonical isJsonObject held.1) =
      canonical isJsonObject state := by
  cases accepted : canonical isJsonObject state with
  | error problem => rfl
  | ok result =>
      obtain ⟨held, key⟩ := result
      obtain ⟨valid, rfl⟩ := canonical_eq_ok.1 accepted
      exact canonical_eq_ok.2 ⟨valid.settle, valid.settle_settle.symm⟩

end Parvane.History
