import Parvane.History.Authors

/-!
# Deleted messages

A deletion counts while it is valid for the author of the row.  Of two rows under one
identifier the lesser stays, so a row of another author can take away what the deletion was
valid for; nothing else brings a deleted message back.
-/

namespace Parvane.History

open Wire State Convergence

variable (isJsonObject : Bytes -> Bool)

/-! ## What is shown -/

/-- The part of a view that tells whether the message is there. -/
structure RowView where
  visible : Bool
  deleted : Bool
  orphan : Bool
  edited : Bool
  pinned : Bool
  deriving DecidableEq

def view (state : RowState) : Result RowView := do
  let (state, _) ← canonical isJsonObject state
  let visible := state.row.isSome && state.gone.isNone
  return {
    visible := visible
    deleted := state.gone.isSome
    orphan := state.row.isNone
    edited := visible && state.editStamp.isSome
    pinned := visible && state.pinned }

/-- Apply events one after the other to a state. -/
def applyFrom (state : RowState) (ops : List HistoryOp) : Result RowState :=
  ops.foldlM (fun state op => apply isJsonObject (some state) op) state

/-- A valid operation on one message in one chat. -/
structure AimedAt (target : Bytes) (key : String) (op : HistoryOp) : Prop where
  valid : ∃ state, opToState isJsonObject op = .ok state
  target : ∃ chat, opTarget op = some (target, chat) ∧ chatKey chat = .ok key

/-- The message is deleted by a deletion not older than the given one, and nothing is left of
it. -/
structure Deleted (since : Int64 ×ₗ Bytes) (state : RowState) : Prop where
  gone : ∃ gone, state.gone = some gone ∧ since ≤ stampKey gone.stampOf
  body : ∀ row ∈ state.row, row.body = []
  edit : state.editStamp = none ∧ state.editBody = [] ∧ state.pendingEdits = []
  reacts : state.reacts = []
  pin : state.pinStamp = none ∧ state.pinned = false
  hidden : ∃ shown, view isJsonObject state = .ok shown ∧ shown.visible = false

/-- A row without its body and its chat, which decides between rows of different authors. -/
def rowHead (row : MessageRow) : Bytes :=
  encode { row with body := [], chat := none }

/-- A row that takes the place of the one that was deleted finds a deletion that is valid for
its author and not older. -/
def Keeps (since : Int64 ×ₗ Bytes) (state : RowState) (op : HistoryOp) : Prop :=
  ∀ raw, rawState op = .ok raw -> ∀ own ∈ state.row, ∀ row ∈ raw.row, rowHead row < rowHead own ->
    ∃ gone ∈ state.gone.toList ++ raw.candidateGones,
      goneValid gone row.from (state.chat.bind chatKindOf) = true ∧
        since ≤ stampKey gone.stampOf

/-! ## The deletion that counts -/

variable {isJsonObject} {key : String} {kind : Option ChatKind} {since : Int64 ×ₗ Bytes}

/-- Some deletion is valid for an author and not older than a stamp. -/
def HasGone (gones : List Gone) (author : String) (kind : Option ChatKind)
    (since : Int64 ×ₗ Bytes) : Prop :=
  ∃ gone ∈ gones, goneValid gone author kind = true ∧ since ≤ stampKey gone.stampOf

theorem HasGone.append {first second : List Gone} {author : String} :
    HasGone (first ++ second) author kind since ↔
      HasGone first author kind since ∨ HasGone second author kind since := by
  simp only [HasGone, List.mem_append, or_and_right, exists_or]

theorem HasGone.pile {first second : RowState} {author : String} :
    HasGone (first.pile second).candidateGones author kind since ↔
      HasGone first.candidateGones author kind since ∨
        HasGone second.candidateGones author kind since := by
  simp only [HasGone, mem_candidateGones_pile, or_and_right, exists_or]

/-- The chosen deletion is as late as any that is valid. -/
theorem hasGone_chosenGone (state : RowState) (author : String) :
    HasGone (state.chosenGone author).toList author (state.chosenChat.bind chatKindOf) since ↔
      HasGone state.candidateGones author (state.chosenChat.bind chatKindOf) since := by
  have top := isTopOf_latest Gone.stampOf
    ((state.candidateGones.map (Gone.withChat state.chosenChat)).filter
      fun gone => goneValid gone author (state.chosenChat.bind chatKindOf))
  constructor
  · rintro ⟨gone, member, valid, later⟩
    obtain ⟨original, candidate, rfl⟩ := mem_of_chosenGone (Option.mem_toList.1 member)
    exact ⟨original, candidate, valid, later⟩
  · rintro ⟨gone, candidate, valid, later⟩
    have cofinal := top.cofinal
    obtain ⟨chosen, isChosen, ordered⟩ := cofinal.2 (gone.withChat state.chosenChat)
      (List.mem_filter.2 ⟨List.mem_map_of_mem candidate, valid⟩)
    refine ⟨chosen, Option.mem_toList.2 isChosen, goneValid_of_chosenGone isChosen, ?_⟩
    exact later.trans (Prod.Lex.monotone_fst _ _ ordered)

/-- The canonical form of a row keeps its author and its head. -/
theorem row_settle {state : RowState} {row : MessageRow} (isRow : state.row = some row) :
    ∃ settled, state.settle.row = some settled ∧ settled.from = row.from ∧
      rowHead settled = rowHead row ∧ (row.body = [] -> settled.body = []) := by
  cases isGone : state.chosenGone row.from with
  | none =>
      refine ⟨row.withChat state.chosenChat, ?_, rfl, rfl, id⟩
      rw [settle_of_chosenGone_none isRow isGone]
  | some gone =>
      refine ⟨row.head.withChat state.chosenChat, ?_, rfl, rfl, fun _ => rfl⟩
      rw [settle_of_chosenGone_some isRow isGone]

variable {state : RowState}

/-- The canonical form of a state with a row has the deletions that are valid for its author. -/
theorem Valid.hasGone_settle
    (kindEq : KindIs key kind)
    (valid : Valid isJsonObject key state) {row : MessageRow} (isRow : state.row = some row) :
    HasGone state.settle.candidateGones row.from kind since ↔
      HasGone state.candidateGones row.from kind since := by
  rw [candidateGones_settle isRow, ← valid.kind_eq kindEq]
  exact hasGone_chosenGone state row.from

/-! ## One step -/

/-- A deleted row in canonical form. -/
structure Buried (isJsonObject : Bytes -> Bool) (key : String) (kind : Option ChatKind) (since : Int64 ×ₗ Bytes)
    (state : RowState) : Prop where
  valid : Valid isJsonObject key state
  bare : ∃ row gone, state =
      { target := state.target, chat := state.chat, row := some row, gone := some gone } ∧
    row.body = [] ∧ goneValid gone row.from kind = true ∧ since ≤ stampKey gone.stampOf

/-- A canonical form that has a row and a deletion is that of a deleted row. -/
theorem Valid.buried
    (kindEq : KindIs key kind)
    (valid : Valid isJsonObject key state) {row : MessageRow} (isRow : state.row = some row)
    (hasGone : HasGone state.candidateGones row.from kind since) :
    Buried isJsonObject key kind since state.settle := by
  rw [← valid.kind_eq kindEq, ← hasGone_chosenGone] at hasGone
  obtain ⟨gone, isGone, isValid, later⟩ := hasGone
  rw [Option.mem_toList] at isGone
  refine ⟨valid.settle, row.head.withChat state.chosenChat, gone, ?_, rfl, ?_, later⟩
  · rw [settle_of_chosenGone_some isRow isGone]
  · rwa [valid.kind_eq kindEq] at isValid

theorem Buried.view_eq
    (kindEq : KindIs key kind) (buried : Buried isJsonObject key kind since state) :
    view isJsonObject state = .ok ⟨false, true, false, false, false⟩ := by
  obtain ⟨valid, row, gone, bare, -, isValid, later⟩ := buried
  have isRow : state.row = some row := by rw [bare]
  have hasGone : HasGone state.candidateGones row.from kind since :=
    ⟨gone, by rw [bare]; exact List.mem_singleton.2 rfl, isValid, later⟩
  obtain ⟨-, settledRow, settledGone, settled, -⟩ := valid.buried kindEq isRow hasGone
  unfold view
  rw [canonical_eq_ok.2 ⟨valid, rfl⟩, settled]
  rfl

theorem Buried.deleted
    (kindEq : KindIs key kind)
    (buried : Buried isJsonObject key kind since state) : Deleted isJsonObject since state := by
  have hidden := buried.view_eq kindEq
  obtain ⟨valid, row, gone, bare, empty, isValid, later⟩ := buried
  refine ⟨⟨gone, by rw [bare], later⟩, ?_, ?_, ?_, ?_, _, hidden, rfl⟩
  · intro other isRow
    rw [bare] at isRow
    cases isRow
    exact empty
  · rw [bare]
    exact ⟨rfl, rfl, rfl⟩
  · rw [bare]
  · rw [bare]
    exact ⟨rfl, rfl⟩

/-- Without a body, the head decides which row is the lesser. -/
theorem rowKey_lt_iff {own other : MessageRow} (bare : own.body = []) :
    rowKey other < rowKey own ↔ rowHead other < rowHead own := by
  have least : ¬other.body < own.body := by
    rw [bare]
    exact List.not_lt_nil _
  simp only [rowKey, rowHead, Prod.Lex.toLex_lt_toLex, least, and_false, or_false]

/-- What a step makes of a deleted message, before a choice among the candidates. -/
structure Piled (isJsonObject : Bytes -> Bool) (key : String) (kind : Option ChatKind)
    (since : Int64 ×ₗ Bytes) (state : RowState) (op : HistoryOp) (pile : RowState)
    (winner : MessageRow) : Prop where
  applied : apply isJsonObject (some state) op = .ok pile.settle
  valid : Valid isJsonObject key pile
  target : pile.target = state.target
  row : pile.row = some winner
  hasGone : HasGone pile.candidateGones winner.from kind since ↔ Keeps since state op

theorem Buried.piled
    (kindEq : KindIs key kind)
    (buried : Buried isJsonObject key kind since state) {op : HistoryOp}
    (aimed : AimedAt isJsonObject state.target key op) :
    ∃ pile winner, Piled isJsonObject key kind since state op pile winner := by
  obtain ⟨chat, chatAimed, chatEq⟩ := aimed.target
  obtain ⟨one, ran⟩ := aimed.valid
  obtain ⟨raw, rawEq, rawValid, rawTarget, rfl⟩ := valid_of_opToState ran chatAimed chatEq
  obtain ⟨valid, own, gone, bare, empty, isValid, later⟩ := buried
  have isOwn : state.row = some own := by rw [bare]
  have stateKind : state.chat.bind chatKindOf = kind := by
    obtain ⟨peer, isPeer, peerKey⟩ := valid.chat
    rw [isPeer]
    exact kindEq peer peerKey
  have ownGones : state.candidateGones = [gone] := by
    rw [bare]
    rfl
  have settledGones : state.settle.candidateGones = [gone.withChat state.chosenChat] := by
    have stays : goneValid (gone.withChat state.chosenChat) own.from
        (state.chosenChat.bind chatKindOf) = true := by
      rw [valid.kind_eq kindEq]
      exact isValid
    rw [candidateGones_settle isOwn, RowState.chosenGone, ownGones]
    simp only [List.map_singleton, List.filter_cons, stays, if_true, List.filter_nil]
    rfl
  obtain ⟨merged, pileValid⟩ := valid.merge_eq rawValid.settle
    ((target_settle raw).trans rawTarget).symm
  obtain ⟨settledOwn, isSettledOwn, ownFrom, ownHead, ownBare⟩ := row_settle isOwn
  have applied : apply isJsonObject (some state) op =
      .ok (state.settle.pile raw.settle.settle).settle := by
    simp only [apply, ran, bind, Except.bind]
    exact merged
  have held : ∀ author, HasGone state.settle.candidateGones author kind since ↔
      goneValid gone author kind = true := by
    intro author
    rw [settledGones]
    constructor
    · rintro ⟨other, member, isValid, -⟩
      rw [List.mem_singleton.1 member] at isValid
      exact isValid
    · exact fun isValid => ⟨_, List.mem_singleton.2 rfl, isValid, later⟩
  cases isRaw : raw.row with
  | none =>
      have noRow : raw.settle.settle.row = none := by
        rw [← Option.not_isSome_iff_eq_none, isSome_settle_row, isSome_settle_row, isRaw]
        exact Bool.false_ne_true
      refine ⟨_, settledOwn, applied, pileValid, target_settle state, ?_, iff_of_true ?_ ?_⟩
      · simp only [RowState.pile, isSettledOwn, noRow]
        rfl
      · rw [HasGone.pile, held, ownFrom]
        exact .inl isValid
      · intro other otherEq own _ row isRow
        cases rawEq.symm.trans otherEq
        rw [isRaw] at isRow
        cases isRow
  | some other =>
      obtain ⟨once, isOnce, onceFrom, onceHead, -⟩ := row_settle isRaw
      obtain ⟨twice, isTwice, twiceFrom, twiceHead, -⟩ := row_settle isOnce
      have brought : HasGone raw.settle.settle.candidateGones other.from kind since ↔
          HasGone raw.candidateGones other.from kind since := by
        rw [← onceFrom, rawValid.settle.hasGone_settle kindEq isOnce, onceFrom,
          rawValid.hasGone_settle kindEq isRaw]
      have lesser : rowKey twice < rowKey settledOwn ↔ rowHead other < rowHead own := by
        rw [rowKey_lt_iff (ownBare empty), twiceHead, onceHead, ownHead]
      have keeps : Keeps since state op ↔ (rowHead other < rowHead own ->
          HasGone (state.gone.toList ++ raw.candidateGones) other.from kind since) := by
        rw [← stateKind]
        constructor
        · exact fun keeps less => keeps raw rawEq own isOwn other isRaw less
        · intro found raw' rawEq' own' isOwn' other' isRaw' less
          cases rawEq.symm.trans rawEq'
          cases isOwn.symm.trans isOwn'
          cases isRaw.symm.trans isRaw'
          exact found less
      refine ⟨_, if rowKey twice < rowKey settledOwn then twice else settledOwn, applied,
        pileValid, target_settle state, ?_, ?_⟩
      · simp only [RowState.pile, isSettledOwn, isTwice]
        rfl
      · rw [HasGone.pile, keeps]
        split
        · next less =>
            have isGone : state.gone.toList = [gone] := by
              rw [bare]
              rfl
            have own' : HasGone [gone] other.from kind since ↔
                goneValid gone other.from kind = true := by
              simp [HasGone, later]
            rw [twiceFrom, onceFrom, held, brought, isGone, HasGone.append, own']
            exact ⟨fun found _ => found, fun found => found (lesser.1 less)⟩
        · next least =>
            refine iff_of_true ?_ fun less => absurd (lesser.2 less) least
            rw [ownFrom, held]
            exact .inl isValid

/-- The deletion stays exactly if the step keeps it. -/
theorem Piled.keeps_iff
    (kindEq : KindIs key kind)
    {state pile : RowState} {op : HistoryOp} {winner : MessageRow}
    (piled : Piled isJsonObject key kind since state op pile winner) :
    (Keeps since state op -> Buried isJsonObject key kind since pile.settle) ∧
      (Deleted isJsonObject since pile.settle -> Keeps since state op) := by
  constructor
  · intro keeps
    exact piled.valid.buried kindEq piled.row (piled.hasGone.2 keeps)
  · intro deleted
    obtain ⟨gone, isGone, later⟩ := deleted.gone
    rw [← piled.hasGone, ← piled.valid.hasGone_settle kindEq piled.row]
    have member : gone ∈ pile.settle.candidateGones :=
      List.mem_append_right _ (Option.mem_toList.2 isGone)
    refine ⟨gone, member, ?_, later⟩
    rw [candidateGones_settle piled.row, Option.mem_toList] at member
    rw [← piled.valid.kind_eq kindEq]
    exact goneValid_of_chosenGone member

/-! ## Runs -/

theorem applyFrom_cons {state after : RowState} {op : HistoryOp} {ops : List HistoryOp}
    (applied : apply isJsonObject (some state) op = .ok after) :
    applyFrom isJsonObject state (op :: ops) = applyFrom isJsonObject after ops := by
  simp only [applyFrom, List.foldlM_cons, applied, bind, Except.bind]

/-- The message stays deleted after each step exactly if each step keeps the deletion. -/
theorem Buried.run
    (kindEq : KindIs key kind)
    {ops : List HistoryOp} (buried : Buried isJsonObject key kind since state)
    (aimed : ∀ op ∈ ops, AimedAt isJsonObject state.target key op) :
    (∀ done, done <+: ops -> ∃ after, applyFrom isJsonObject state done = .ok after ∧
        Deleted isJsonObject since after) ↔
      ∀ done op rest, ops = done ++ op :: rest -> ∀ before,
        applyFrom isJsonObject state done = .ok before -> Keeps since before op := by
  induction ops generalizing state with
  | nil =>
      refine iff_of_true ?_ fun done op rest parts => by simp at parts
      intro done begins
      rw [List.prefix_nil.1 begins]
      exact ⟨state, rfl, buried.deleted kindEq⟩
  | cons op ops inductionHypothesis =>
      obtain ⟨pile, winner, piled⟩ := buried.piled kindEq (aimed op List.mem_cons_self)
      obtain ⟨kept, keeps⟩ := piled.keeps_iff kindEq
      have targets : pile.settle.target = state.target :=
        (target_settle pile).trans piled.target
      have later : Buried isJsonObject key kind since pile.settle -> _ := fun buried =>
        inductionHypothesis buried
          fun other member => targets ▸ aimed other (List.mem_cons_of_mem _ member)
      constructor
      · intro deleted
        have first : Keeps since state op := by
          obtain ⟨after, applied, isDeleted⟩ := deleted [op] (List.prefix_iff_eq_take.2 rfl)
          rw [applyFrom_cons piled.applied] at applied
          cases applied
          exact keeps isDeleted
        have rest := (later (kept first)).1 fun done begins => by
          obtain ⟨after, applied, isDeleted⟩ := deleted (op :: done)
            (List.cons_prefix_cons.2 ⟨rfl, begins⟩)
          rw [applyFrom_cons piled.applied] at applied
          exact ⟨after, applied, isDeleted⟩
        intro done other others parts before applied
        cases done with
        | nil =>
            cases parts
            cases applied
            exact first
        | cons head done =>
            cases parts
            rw [applyFrom_cons piled.applied] at applied
            exact rest done other others rfl before applied
      · intro steps
        have first : Keeps since state op := steps [] op ops rfl state rfl
        have rest := (later (kept first)).2 fun done other others parts before applied => by
          rw [← applyFrom_cons piled.applied] at applied
          exact steps (op :: done) other others (congrArg (op :: ·) parts) before applied
        intro done begins
        cases done with
        | nil => exact ⟨state, rfl, buried.deleted kindEq⟩
        | cons head done =>
            obtain ⟨rfl, inner⟩ := List.cons_prefix_cons.1 begins
            rw [applyFrom_cons piled.applied]
            exact rest done inner

/-- A deleted message stays deleted after every beginning of a list of operations exactly if
no operation replaces the row by one whose author neither the held deletion nor a new one is
valid for. -/
theorem deletion_stays_iff
    (isJsonObject : Bytes -> Bool)
    (state held : RowState)
    (key : String)
    (accepted : canonical isJsonObject state = .ok (held, key))
    (row : MessageRow)
    (gone : Gone)
    (isRow : held.row = some row)
    (isGone : held.gone = some gone)
    (ops : List HistoryOp)
    (aimed : ∀ op ∈ ops, AimedAt isJsonObject held.target key op) :
    (∀ done, done <+: ops -> ∃ after, applyFrom isJsonObject held done = .ok after ∧
        Deleted isJsonObject (stampKey gone.stampOf) after) ↔
      ∀ done op rest, ops = done ++ op :: rest -> ∀ before,
        applyFrom isJsonObject held done = .ok before ->
          Keeps (stampKey gone.stampOf) before op := by
  obtain ⟨valid, rfl⟩ := canonical_eq_ok.1 accepted
  obtain ⟨peer, -, peerKey⟩ := valid.chat
  have kindEq : ∀ other, historyChatKey other = .ok key -> chatKindOf other = chatKindOf peer :=
    fun other otherKey => chatKindOf_eq_of_historyChatKey otherKey peerKey
  obtain ⟨original, isOriginal, -⟩ := from_of_mem_settle_row isRow
  have member : gone ∈ state.settle.candidateGones :=
    List.mem_append_right _ (Option.mem_toList.2 isGone)
  have isValid : goneValid gone original.from (chatKindOf peer) = true := by
    rw [candidateGones_settle isOriginal, Option.mem_toList] at member
    rw [← valid.kind_eq kindEq]
    exact goneValid_of_chosenGone member
  have hasGone : HasGone state.candidateGones original.from (chatKindOf peer)
      (stampKey gone.stampOf) := by
    rw [← valid.hasGone_settle kindEq isOriginal]
    exact ⟨gone, member, isValid, le_rfl⟩
  exact (valid.buried kindEq isOriginal hasGone).run kindEq aimed

/-- A message of a group that its author deleted. -/
def sampleDeleted : RowState :=
  { target := sampleTarget
    chat := some (sampleGroup "a.org")
    row := some
      { id := sampleTarget, chat := some (sampleGroup "a.org"), «from» := "v@b.org", tsMs := 1 }
    gone := some
      { target := sampleTarget, chat := some (sampleGroup "a.org")
        stamp := some (sampleStamp 5), scope := scopeEveryone, «by» := "v@b.org" } }

def sampleKey : String :=
  "g:" ++ String.ofList (hex (List.replicate 16 7))

/-- The only body of the samples. -/
def sampleObject (bytes : Bytes) : Bool :=
  bytes == utf8 "\x7b\x7d"

theorem sampleDeleted_canonical :
    canonical sampleObject sampleDeleted = .ok (sampleDeleted, sampleKey) := by
  decide +kernel

theorem aimedAt_sample {op : HistoryOp} (ran : (opToState sampleObject op).isOk = true)
    (aimed : (opTarget op).map Prod.fst = some sampleTarget)
    (chat : ((opTarget op).bind Prod.snd).map historyChatKey = some (.ok sampleKey)) :
    AimedAt sampleObject sampleTarget sampleKey op := by
  constructor
  · exact exists_of_isOk ran
  · obtain ⟨⟨target, peer⟩, isTarget, rfl⟩ := Option.map_eq_some_iff.1 aimed
    rw [isTarget] at chat
    obtain ⟨peer, isPeer, keyed⟩ := Option.map_eq_some_iff.1 chat
    exact ⟨_, isTarget, chatKey_eq_ok.2 ⟨peer, isPeer, keyed⟩⟩

/-- A later edit does not bring the message back. -/
theorem deletion_stays_sample :
    ∃ after, applyFrom sampleObject sampleDeleted [sampleEdit "v@b.org" 9] = .ok after ∧
      Deleted sampleObject (stampKey (sampleStamp 5)) after := by
  have stays := (deletion_stays_iff sampleObject sampleDeleted sampleDeleted sampleKey
    sampleDeleted_canonical _ _ rfl rfl [sampleEdit "v@b.org" 9] ?_).2 ?_
  · exact stays _ (List.prefix_refl _)
  · intro op member
    rw [List.mem_singleton.1 member]
    exact aimedAt_sample (by decide +kernel) (by decide +kernel) (by decide +kernel)
  · intro done op rest parts before _ raw rawEq own _ row isRow
    obtain ⟨rfl, rfl, -⟩ : done = [] ∧ op = sampleEdit "v@b.org" 9 ∧ rest = [] := by
      cases done with
      | nil =>
          cases parts
          exact ⟨rfl, rfl, rfl⟩
      | cons head done => simp at parts
    cases rawEq
    cases isRow

/-- A row of another author under the same identifier brings it back. -/
theorem deletion_undone :
    canonical sampleObject sampleDeleted = .ok (sampleDeleted, sampleKey) ∧
      AimedAt sampleObject sampleTarget sampleKey sampleRow ∧
      ∃ after, applyFrom sampleObject sampleDeleted [sampleRow] = .ok after ∧
        after.gone = none ∧ view sampleObject after = .ok ⟨true, false, false, false, false⟩ := by
  refine ⟨sampleDeleted_canonical,
    aimedAt_sample (by decide +kernel) (by decide +kernel) (by decide +kernel),
    { target := sampleTarget
      chat := some (sampleGroup "a.org")
      row := some
        { id := sampleTarget, chat := some (sampleGroup "a.org"), «from» := "u@a.org", tsMs := 1
          body := utf8 "\x7b\x7d" } }, ?_, rfl, ?_⟩
  · decide +kernel
  · decide +kernel

end Parvane.History
