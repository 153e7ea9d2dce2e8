import Parvane.History.Convergence

/-!
# Forged edits and deletions

Others may send edits and deletions of a message under their own names.  Once the row
is known, they are not valid and have no effect.  Before that they wait among the
candidates; they do no harm there as long as they do not push out a candidate of the
author.
-/

namespace Parvane.History

open Wire State Convergence

/-- The edits that are valid for a row of the author. -/
def Events.ownEdits (author : String) (events : Events) : Set Edit :=
  { edit | edit ∈ events.edits ∧ editValid edit author = true }

/-- The states have the same edit, and the same deletion apart from the chat that is
written into it. -/
def Agrees (first second : RowState) : Prop :=
  first.editStamp = second.editStamp ∧ first.editBody = second.editBody ∧
    first.gone.map (Gone.withChat none) = second.gone.map (Gone.withChat none)

/-- The state of a known row that results from valid edits and deletions. -/
structure Outcome
    (author : String) (kind : Option ChatKind) (edits : Set Edit) (gones : Set Gone)
    (state : RowState) : Prop where
  row : ∃ row, state.row = some row ∧ row.from = author
  noEdits : state.pendingEdits = []
  noGones : state.pendingGones = []
  goneValid : ∀ gone ∈ state.gone, goneValid gone author kind = true
  gone : IsTopOf goneRank gones (state.gone.map (Gone.withChat none))
  buried : state.gone.isSome = true -> state.editStamp = none
  unedited : state.editStamp = none -> state.editBody = []
  edit : state.gone = none ->
    ∃ edit, state.edit = edit.map Edit.chosen ∧ IsTopOf editRank edits edit

variable {isJsonObject : Bytes -> Bool} {author : String} {kind : Option ChatKind}
  {target : Bytes} {key : String}

variable {first second : RowState}

/-- Equal edits and deletions give equal results. -/
theorem Outcome.agrees {edits : Set Edit} {gones : Set Gone}
    (firstOutcome : Outcome author kind edits gones first)
    (secondOutcome : Outcome author kind edits gones second) : Agrees first second := by
  have goneEq := firstOutcome.gone.unique (eventRank_injective _).injOn secondOutcome.gone
  have deleted : first.gone.isSome = second.gone.isSome := by
    simpa using congrArg Option.isSome goneEq
  have stamps : first.editStamp = second.editStamp ∧
      (first.editStamp.isSome = true -> first.editBody = second.editBody) := by
    cases firstGone : first.gone with
    | some gone =>
        rw [firstGone] at deleted
        rw [firstOutcome.buried (by simp [firstGone]), secondOutcome.buried deleted.symm]
        exact ⟨rfl, by simp⟩
    | none =>
        rw [firstGone] at deleted
        have secondGone : second.gone = none := by
          simpa using deleted.symm
        obtain ⟨firstEdit, firstEq, firstTop⟩ := firstOutcome.edit firstGone
        obtain ⟨secondEdit, secondEq, secondTop⟩ := secondOutcome.edit secondGone
        have editEq := firstTop.unique (eventRank_injective _).injOn secondTop
        rw [← editEq, ← firstEq] at secondEq
        cases firstStamp : first.editStamp <;> cases secondStamp : second.editStamp <;>
          simp_all [RowState.edit]
  refine ⟨stamps.1, ?_, goneEq⟩
  cases firstStamp : first.editStamp with
  | none =>
      have secondStamp := stamps.1.symm.trans firstStamp
      rw [firstOutcome.unedited firstStamp, secondOutcome.unedited secondStamp]
  | some stamp => exact stamps.2 (by simp [firstStamp])

variable {state : RowState}

/-- The canonical form of a known row results from its valid edits and deletions. -/
theorem Valid.outcome_settle
    (valid : Valid isJsonObject key state) (kindEq : state.chosenChat.bind chatKindOf = kind)
    {row : MessageRow} (isRow : state.row = some row) (isAuthor : row.from = author) :
    Outcome author kind (state.events.ownEdits author) (state.events.validGones author kind)
      state.settle := by
  obtain ⟨gone, goneEq, goneTop⟩ := valid.isTopOf_chosenGone kindEq row.from
  have about := valid.about
  rw [isAuthor] at goneTop
  cases gone with
  | none =>
      rw [settle_of_chosenGone_none isRow goneEq]
      refine ⟨⟨_, rfl, isAuthor⟩, rfl, rfl, by simp, goneTop, by simp, ?_, fun _ => ?_⟩
      · intro unedited
        simp only [Option.map_eq_none_iff] at unedited
        simp [unedited]
      · obtain ⟨edit, editEq, editTop⟩ := valid.isTopOf_ownEdits row.from
        refine ⟨edit, ?_, isAuthor ▸ editTop⟩
        rw [RowState.edit, editEq]
        cases edit <;> rfl
  | some gone =>
      have goneValid := goneTop.1.2
      have bare := Gone.withChat_of_chat (about.gones gone goneTop.1.1).2
      rw [settle_of_chosenGone_some isRow goneEq]
      refine ⟨⟨_, rfl, isAuthor⟩, rfl, rfl, ?_, ?_, fun _ => rfl, fun _ => rfl, by simp⟩
      · rintro other ⟨rfl⟩
        exact goneValid
      · rw [Option.map_some, Gone.withChat_withChat, bare]
        exact goneTop

/-- The valid edits of a state with a known row: the one that was chosen. -/
theorem Outcome.events_ownEdits {edits : Set Edit} {gones : Set Gone}
    (outcome : Outcome author kind edits gones state) :
    state.events.ownEdits author =
      { edit | edit ∈ editOf state.editStamp state.editBody state.target } := by
  ext edit
  simp only [Events.ownEdits, RowState.events, RowState.candidateEdits, outcome.noEdits,
    List.nil_append, Set.mem_image, Set.mem_ofPred_eq, List.mem_map, Option.mem_toList, editOf]
  constructor
  · rintro ⟨⟨_, ⟨stamp, isStamp, rfl⟩, rfl⟩, -⟩
    exact ⟨stamp, isStamp, rfl⟩
  · rintro ⟨stamp, isStamp, rfl⟩
    exact ⟨⟨_, ⟨stamp, isStamp, rfl⟩, rfl⟩, rfl⟩

theorem Outcome.events_validGones {edits : Set Edit} {gones : Set Gone}
    (outcome : Outcome author kind edits gones state) :
    state.events.validGones author kind =
      { gone | gone ∈ state.gone.map (Gone.withChat none) } := by
  ext gone
  simp only [Events.validGones, RowState.events, RowState.candidateGones, outcome.noGones,
    List.nil_append, Set.mem_image, Set.mem_ofPred_eq, Option.mem_toList, Option.mem_def,
    Option.map_eq_some_iff]
  constructor
  · rintro ⟨⟨original, isGone, rfl⟩, -⟩
    exact ⟨original, isGone, rfl⟩
  · rintro ⟨original, isGone, rfl⟩
    exact ⟨⟨original, isGone, rfl⟩, outcome.goneValid original isGone⟩

/-- A state with a known row results from its own edit and deletion. -/
theorem Outcome.self {edits : Set Edit} {gones : Set Gone}
    (outcome : Outcome author kind edits gones state) :
    Outcome author kind (state.events.ownEdits author) (state.events.validGones author kind)
      state := by
  refine { outcome with gone := ?_, edit := fun _ => ?_ }
  · rw [outcome.events_validGones]
    cases state.gone <;> simp [IsTopOf]
  · rw [outcome.events_ownEdits]
    cases isStamp : state.editStamp with
    | none =>
        refine ⟨none, ?_, ?_⟩
        · simp [RowState.edit, isStamp]
        · simp [IsTopOf, editOf]
    | some stamp =>
        refine ⟨some { target := state.target, stamp := some stamp, body := state.editBody }, ?_, ?_⟩
        · simp [RowState.edit, isStamp, Edit.chosen, Edit.stampOf]
        · simp [IsTopOf, editOf]

/-- States that agree have the same valid edits and deletions. -/
theorem Outcome.events_eq_of_agrees
    {firstEdits secondEdits : Set Edit} {firstGones secondGones : Set Gone}
    (firstOutcome : Outcome author kind firstEdits firstGones first)
    (secondOutcome : Outcome author kind secondEdits secondGones second)
    (targets : first.target = second.target) (agrees : Agrees first second) :
    first.events.ownEdits author = second.events.ownEdits author ∧
      first.events.validGones author kind = second.events.validGones author kind := by
  obtain ⟨stamps, bodies, gones⟩ := agrees
  rw [firstOutcome.events_ownEdits, secondOutcome.events_ownEdits,
    firstOutcome.events_validGones, secondOutcome.events_validGones, stamps, bodies, targets,
    gones]
  exact ⟨rfl, rfl⟩

/-- A valid state about the message, whose row, if known, is of the author. -/
structure Proper
    (isJsonObject : Bytes -> Bool) (author : String) (target : Bytes) (key : String)
    (state : RowState) : Prop where
  valid : Valid isJsonObject key state
  target : state.target = target
  rows : ∀ row ∈ state.row, row.from = author

theorem from_of_mem_settle_row {row : MessageRow}
    (isRow : state.settle.row = some row) :
    ∃ original, state.row = some original ∧ row.from = original.from := by
  cases found : state.row with
  | none =>
      rw [settle_of_row_none found] at isRow
      cases isRow
  | some original =>
      refine ⟨original, rfl, ?_⟩
      cases isGone : state.chosenGone original.from with
      | none =>
          rw [settle_of_chosenGone_none found isGone] at isRow
          cases isRow
          rfl
      | some gone =>
          rw [settle_of_chosenGone_some found isGone] at isRow
          cases isRow
          rfl

theorem isSome_settle_row (state : RowState) : state.settle.row.isSome = state.row.isSome := by
  cases found : state.row with
  | none => simp [settle_of_row_none found]
  | some original =>
      cases isGone : state.chosenGone original.from with
      | none => simp [settle_of_chosenGone_none found isGone]
      | some gone => simp [settle_of_chosenGone_some found isGone]

theorem Proper.settle
    (proper : Proper isJsonObject author target key state) :
    Proper isJsonObject author target key state.settle := by
  refine ⟨proper.valid.settle, (target_settle state).trans proper.target, ?_⟩
  intro row isRow
  obtain ⟨original, isOriginal, same⟩ := from_of_mem_settle_row isRow
  rw [same]
  exact proper.rows original isOriginal

/-- Merging with a known row: what results comes from the valid edits and deletions of
both canonical forms. -/
theorem Proper.merge
    (kindEq : KindIs key kind) (firstProper : Proper isJsonObject author target key first)
    (secondProper : Proper isJsonObject author target key second)
    (known : first.row.isSome = true ∨ second.row.isSome = true) :
    ∃ merged, History.merge isJsonObject first second = .ok merged ∧
      Proper isJsonObject author target key merged ∧
      Outcome author kind
        (first.settle.events.ownEdits author ∪ second.settle.events.ownEdits author)
        (first.settle.events.validGones author kind ∪
          second.settle.events.validGones author kind) merged := by
  have firstSettled := firstProper.settle
  have secondSettled := secondProper.settle
  have targets : first.settle.target = second.settle.target :=
    firstSettled.target.trans secondSettled.target.symm
  obtain ⟨merged, valid⟩ := firstProper.valid.merge_eq secondProper.valid
    (firstProper.target.trans secondProper.target.symm)
  have rows : ∀ row ∈ (first.settle.pile second.settle).row, row.from = author := by
    intro row isRow
    rcases mergeRow_eq_some isRow with fromFirst | fromSecond
    · exact firstSettled.rows row fromFirst
    · exact secondSettled.rows row fromSecond
  have piled : Proper isJsonObject author target key (first.settle.pile second.settle) :=
    ⟨valid, firstSettled.target, rows⟩
  have someRow : (first.settle.pile second.settle).row.isSome = true := by
    rw [← isSome_settle_row first, ← isSome_settle_row second] at known
    simp only [RowState.pile, mergeRow]
    revert known
    cases first.settle.row <;> cases second.settle.row <;> simp
  obtain ⟨row, isRow⟩ := Option.isSome_iff_exists.1 someRow
  have outcome := valid.outcome_settle (valid.kind_eq kindEq) isRow (rows row isRow)
  have edits : (first.settle.pile second.settle).events.ownEdits author =
      first.settle.events.ownEdits author ∪ second.settle.events.ownEdits author := by
    rw [Events.ownEdits, edits_pile targets]
    exact Set.sep_union
  have gones : (first.settle.pile second.settle).events.validGones author kind =
      first.settle.events.validGones author kind ∪
        second.settle.events.validGones author kind := by
    rw [Events.validGones, gones_pile]
    exact Set.sep_union
  rw [edits, gones] at outcome
  refine ⟨_, ?_, piled.settle, outcome⟩
  exact merged

/-! ## Known rows -/

/-- A state whose row is known. -/
structure Known
    (isJsonObject : Bytes -> Bool) (author : String) (kind : Option ChatKind) (target : Bytes)
    (key : String) (state : RowState) : Prop where
  proper : Proper isJsonObject author target key state
  outcome : Outcome author kind (state.events.ownEdits author)
    (state.events.validGones author kind) state

/-- The canonical form has the same valid edits and deletions. -/
structure Steady (author : String) (kind : Option ChatKind) (state : RowState) : Prop where
  edits : state.settle.events.ownEdits author = state.events.ownEdits author
  gones : state.settle.events.validGones author kind = state.events.validGones author kind

section

variable (kindEq : KindIs key kind)

include kindEq

theorem Known.steady
    (known : Known isJsonObject author kind target key state) : Steady author kind state := by
  obtain ⟨row, isRow, isAuthor⟩ := known.outcome.row
  have settled := known.proper.valid.outcome_settle (known.proper.valid.kind_eq kindEq) isRow
    isAuthor
  obtain ⟨edits, gones⟩ := settled.events_eq_of_agrees known.outcome (target_settle state)
    (settled.agrees known.outcome)
  exact ⟨edits, gones⟩

theorem Proper.known_settle
    (proper : Proper isJsonObject author target key state) (isKnown : state.row.isSome = true) :
    Known isJsonObject author kind target key state.settle := by
  obtain ⟨row, isRow⟩ := Option.isSome_iff_exists.1 isKnown
  exact ⟨proper.settle, (proper.valid.outcome_settle (proper.valid.kind_eq kindEq) isRow
    (proper.rows row isRow)).self⟩

end

/-- The valid edits that a run holds. -/
def heldEdits (author : String) (slot : Option RowState) : Set Edit :=
  { edit | ∃ state ∈ slot, edit ∈ state.events.ownEdits author }

def heldGones (author : String) (kind : Option ChatKind) (slot : Option RowState) : Set Gone :=
  { gone | ∃ state ∈ slot, gone ∈ state.events.validGones author kind }

/-- The valid edits of an operation. -/
def HistoryOp.ownEdits (isJsonObject : Bytes -> Bool) (author : String) (op : HistoryOp) :
    Set Edit :=
  { edit | ∃ one, opToState isJsonObject op = .ok one ∧
    edit ∈ one.settle.events.ownEdits author }

def HistoryOp.validGones (isJsonObject : Bytes -> Bool) (author : String)
    (kind : Option ChatKind) (op : HistoryOp) : Set Gone :=
  { gone | ∃ one, opToState isJsonObject op = .ok one ∧
    gone ∈ one.settle.events.validGones author kind }

variable {ops : List HistoryOp}

variable {op : HistoryOp}

theorem Aimed.proper
    (aimed : Aimed isJsonObject author target key ops) (member : op ∈ ops) :
    ∃ raw, opToState isJsonObject op = .ok raw.settle ∧ op.events = raw.events ∧
      Proper isJsonObject author target key raw := by
  obtain ⟨raw, ran, events, valid, targetEq, rows⟩ := aimed.raw member
  exact ⟨raw, ran, events, valid, targetEq, rows⟩

theorem ownEdits_of_opToState {one : RowState}
    (ran : opToState isJsonObject op = .ok one) :
    op.ownEdits isJsonObject author = one.settle.events.ownEdits author := by
  ext edit
  simp [HistoryOp.ownEdits, ran]

theorem validGones_of_opToState {one : RowState}
    (ran : opToState isJsonObject op = .ok one) :
    op.validGones isJsonObject author kind = one.settle.events.validGones author kind := by
  ext gone
  simp [HistoryOp.validGones, ran]

/-- A step of a run after which the row is known: its state results from what the run
held and from what the operation brings. -/
theorem Aimed.apply_known
    (kindEq : KindIs key kind)
    (aimed : Aimed isJsonObject author target key ops) (member : op ∈ ops) {slot : Option RowState}
    (proper : ∀ state ∈ slot, Proper isJsonObject author target key state)
    (steady : ∀ state ∈ slot, Steady author kind state)
    (isKnown : op.events.rows.Nonempty ∨ ∃ state ∈ slot, state.row.isSome = true) :
    ∃ merged, apply isJsonObject slot op = .ok merged ∧
      Known isJsonObject author kind target key merged ∧
      Outcome author kind (heldEdits author slot ∪ op.ownEdits isJsonObject author)
        (heldGones author kind slot ∪ op.validGones isJsonObject author kind) merged := by
  obtain ⟨raw, ran, events, rawProper⟩ := aimed.proper member
  have brings : op.events.rows.Nonempty -> raw.row.isSome = true := by
    rintro ⟨_, isRow⟩
    rw [events] at isRow
    obtain ⟨row, held, -⟩ := isRow
    exact Option.isSome_iff_exists.2 ⟨row, held⟩
  rw [ownEdits_of_opToState ran, validGones_of_opToState ran]
  cases slot with
  | none =>
      have rawKnown := rawProper.known_settle kindEq (brings (by simpa using isKnown))
      have rawSteady := rawKnown.steady kindEq
      refine ⟨raw.settle, ?_, rawKnown, ?_⟩
      · simp only [apply, ran, bind, Except.bind, pure, Except.pure]
      · rw [rawSteady.edits, rawSteady.gones]
        simpa [heldEdits, heldGones] using rawKnown.outcome
  | some state =>
      have stateProper := proper state rfl
      have stateSteady := steady state rfl
      have eitherKnown : state.row.isSome = true ∨ raw.settle.row.isSome = true := by
        rcases isKnown with byOp | ⟨_, ⟨rfl⟩, byState⟩
        · exact .inr ((isSome_settle_row raw).trans (brings byOp))
        · exact .inl byState
      obtain ⟨merged, mergedEq, mergedProper, outcome⟩ :=
        stateProper.merge kindEq rawProper.settle eitherKnown
      refine ⟨merged, ?_, ⟨mergedProper, outcome.self⟩, ?_⟩
      · simp only [apply, ran, mergedEq, bind, Except.bind]
      · rw [stateSteady.edits, stateSteady.gones] at outcome
        simpa [heldEdits, heldGones] using outcome

/-! ## Forged operations -/

/-- An edit or a deletion for everyone, by somebody other than the author. -/
def Forged (author : String) (kind : Option ChatKind) (op : HistoryOp) : Prop :=
  match op.op with
  | some (.edit edit) => edit.by ≠ "" ∧ edit.by ≠ author
  | some (.gone gone) =>
      kind = some .group ∧ gone.scope = scopeEveryone ∧ gone.by ≠ "" ∧ gone.by ≠ author ∧
        gone.byAdmin = false
  | _ => False

/-- Forged operations bring no row and nothing that is valid. -/
theorem Forged.events
    (forged : Forged author kind op) :
    op.events.rows = ∅ ∧ op.events.ownEdits author = ∅ ∧
      op.events.validGones author kind = ∅ := by
  obtain ⟨_ | body⟩ := op
  · cases forged
  cases body with
  | edit edit =>
      obtain ⟨named, other⟩ := forged
      refine ⟨?_, ?_, ?_⟩
      · simp [HistoryOp.events, rawState, RowState.events]
      · rw [Set.eq_empty_iff_forall_notMem]
        rintro _ ⟨⟨candidate, isCandidate, rfl⟩, valid⟩
        obtain rfl : candidate = edit := by
          simpa [RowState.candidateEdits] using isCandidate
        rcases editValid_iff.1 valid with empty | own
        · exact named empty
        · exact other own
      · simp [HistoryOp.events, rawState, RowState.events, RowState.candidateGones,
          Events.validGones]
  | gone gone =>
      obtain ⟨inGroup, scope, named, other, notAdmin⟩ := forged
      refine ⟨?_, ?_, ?_⟩
      · simp [HistoryOp.events, rawState, RowState.events]
      · simp [HistoryOp.events, rawState, RowState.events, RowState.candidateEdits,
          Events.ownEdits]
      · rw [Set.eq_empty_iff_forall_notMem]
        rintro _ ⟨⟨candidate, isCandidate, rfl⟩, valid⟩
        obtain rfl : candidate = gone := by
          simpa [RowState.candidateGones] using isCandidate
        simp [goneValid, goneAlwaysValid, Gone.withChat, scope, scopeEveryone, scopeMe, named,
          other, notAdmin, inGroup] at valid
  | _ => cases forged

/-- Without a row the canonical form keeps some of the edits and deletions. -/
theorem settle_orphan
    (noRow : state.row = none) :
    state.settle.row = none ∧ state.settle.events.edits ⊆ state.events.edits ∧
      state.settle.events.gones ⊆ state.events.gones := by
  rw [settle_of_row_none noRow]
  refine ⟨rfl, ?_, ?_⟩
  · rintro _ ⟨edit, candidate, rfl⟩
    simp only [RowState.candidateEdits, Option.toList_none, List.map_nil, List.append_nil,
      Set.mem_ofPred_eq] at candidate
    obtain ⟨original, isOriginal, rfl⟩ :=
      List.mem_map.1 (mem_of_mem_reducePending _ _ _ candidate)
    exact ⟨original, isOriginal, rfl⟩
  · rintro _ ⟨gone, candidate, rfl⟩
    simp only [RowState.candidateGones, Option.toList_none, List.append_nil,
      Set.mem_ofPred_eq] at candidate
    obtain ⟨original, isOriginal, rfl⟩ :=
      List.mem_map.1 (mem_of_mem_reducePending _ _ _ candidate)
    exact ⟨original, isOriginal, rfl⟩

theorem Aimed.forged_brings_nothing
    (aimed : Aimed isJsonObject author target key ops) (member : op ∈ ops)
    (forged : Forged author kind op) :
    op.ownEdits isJsonObject author = ∅ ∧ op.validGones isJsonObject author kind = ∅ := by
  obtain ⟨raw, ran, events, -⟩ := aimed.proper member
  obtain ⟨noRows, noEdits, noGones⟩ := forged.events
  rw [events] at noRows noEdits noGones
  have noRow : raw.row = none := by
    rw [events_rows, Set.eq_empty_iff_forall_notMem] at noRows
    refine Option.eq_none_iff_forall_ne_some.2 fun row isRow => noRows (row.withChat none) ?_
    simp [isRow]
  obtain ⟨settledRow, settledEdits, settledGones⟩ := settle_orphan noRow
  obtain ⟨-, twiceEdits, twiceGones⟩ := settle_orphan settledRow
  rw [ownEdits_of_opToState ran, validGones_of_opToState ran]
  constructor
  · refine Set.subset_eq_empty ?_ noEdits
    exact fun edit inside => ⟨settledEdits (twiceEdits inside.1), inside.2⟩
  · refine Set.subset_eq_empty ?_ noGones
    exact fun gone inside => ⟨settledGones (twiceGones inside.1), inside.2⟩

/-! ## Before the row -/

/-- What a run holds that has not met a row. -/
def Waiting
    (isJsonObject : Bytes -> Bool) (author : String) (kind : Option ChatKind) (target : Bytes)
    (key : String) (ops : List HistoryOp) : Option RowState -> Prop
  | none => ops = []
  | some state => Stands isJsonObject author kind target key (eventsOf ops) state

theorem Calm.waiting
    (kindEq : KindIs key kind) (calm : Calm isJsonObject author kind target key ops) :
    ∃ slot, History.applyAll isJsonObject ops = .ok slot ∧
      Waiting isJsonObject author kind target key ops slot := by
  by_cases empty : ops = []
  · subst empty
    exact ⟨none, rfl, rfl⟩
  · obtain ⟨state, ran, stands⟩ := calm.applyAll kindEq empty
    exact ⟨some state, ran, stands⟩

section

variable {slot : Option RowState}
  (calm : Calm isJsonObject author kind target key ops)
  (noRow : (eventsOf ops).rows = ∅)
  (waiting : Waiting isJsonObject author kind target key ops slot)

include calm waiting

theorem Waiting.proper : ∀ state ∈ slot, Proper isJsonObject author target key state := by
  rintro state ⟨rfl⟩
  have stands : Stands isJsonObject author kind target key (eventsOf ops) state := waiting
  exact ⟨stands.valid, stands.describes.target, stands.from_eq calm.consistent⟩

theorem Waiting.steady
    (kindEq : KindIs key kind) : ∀ state ∈ slot, Steady author kind state := by
  rintro state ⟨rfl⟩
  have stands : Stands isJsonObject author kind target key (eventsOf ops) state := waiting
  have canonical := stands.canonical kindEq calm.consistent fun _ => calm.authors
  obtain ⟨-, settled⟩ := canonical_eq_ok.1 canonical
  constructor <;> rw [← settled]

include noRow

/-- The latest edit of each author is held. -/
theorem Waiting.isTopList_edits :
    ∃ edits, heldEdits author slot = { edit | edit ∈ edits ∧ editValid edit author = true } ∧
      KeyedList.IsTopList Edit.by editRank (eventsOf ops).edits edits := by
  cases slot with
  | none =>
      have empty : ops = [] := waiting
      subst empty
      refine ⟨[], by simp [heldEdits], List.Pairwise.nil, fun wanted => ?_⟩
      simp [eventsOf, KeyedList.lookup, IsTopOf]
  | some state =>
      have stands : Stands isJsonObject author kind target key (eventsOf ops) state := waiting
      obtain ⟨edits, same, top⟩ :=
        (stands.describes.orphan noRow).isTopList_edits calm.consistent.about
      refine ⟨edits, ?_, top⟩
      simp [heldEdits, Events.ownEdits, same]

theorem Waiting.isTopList_gones :
    ∃ gones, heldGones author kind slot =
        { gone | gone ∈ gones ∧ goneValid gone author kind = true } ∧
      KeyedList.IsTopList (goneKey kind) goneRank (eventsOf ops).gones gones := by
  cases slot with
  | none =>
      have empty : ops = [] := waiting
      subst empty
      refine ⟨[], by simp [heldGones], List.Pairwise.nil, fun wanted => ?_⟩
      simp [eventsOf, KeyedList.lookup, IsTopOf]
  | some state =>
      have stands : Stands isJsonObject author kind target key (eventsOf ops) state := waiting
      obtain ⟨gones, same, top⟩ :=
        (stands.describes.orphan noRow).isTopList_gones calm.consistent.about
      refine ⟨gones, ?_, top⟩
      simp [heldGones, Events.validGones, same]

end

/-- Two runs that met the same valid edits and deletions hold the same ones. -/
theorem Waiting.held_eq {firstOps secondOps : List HistoryOp} {first second : Option RowState}
    (firstCalm : Calm isJsonObject author kind target key firstOps)
    (secondCalm : Calm isJsonObject author kind target key secondOps)
    (firstNoRow : (eventsOf firstOps).rows = ∅)
    (secondNoRow : (eventsOf secondOps).rows = ∅)
    (firstWaiting : Waiting isJsonObject author kind target key firstOps first)
    (secondWaiting : Waiting isJsonObject author kind target key secondOps second)
    (edits : (eventsOf firstOps).ownEdits author = (eventsOf secondOps).ownEdits author)
    (gones : (eventsOf firstOps).validGones author kind =
      (eventsOf secondOps).validGones author kind) :
    heldEdits author first = heldEdits author second ∧
      heldGones author kind first = heldGones author kind second := by
  obtain ⟨firstEdits, firstEditsEq, firstEditsTop⟩ :=
    firstWaiting.isTopList_edits firstCalm firstNoRow
  obtain ⟨secondEdits, secondEditsEq, secondEditsTop⟩ :=
    secondWaiting.isTopList_edits secondCalm secondNoRow
  obtain ⟨firstGones, firstGonesEq, firstGonesTop⟩ :=
    firstWaiting.isTopList_gones firstCalm firstNoRow
  obtain ⟨secondGones, secondGonesEq, secondGonesTop⟩ :=
    secondWaiting.isTopList_gones secondCalm secondNoRow
  rw [firstEditsEq, secondEditsEq, firstGonesEq, secondGonesEq]
  -- Whether an edit or a deletion is valid depends only on the key it is kept under.
  constructor
  · refine Set.ext fun edit => and_congr_left fun valid => ?_
    refine firstEditsTop.mem_iff_mem (eventRank_injective _) secondEditsTop fun other sameKey => ?_
    have otherValid : editValid other author = true := by
      rw [editValid_iff, sameKey, ← editValid_iff]
      exact valid
    have same := Set.ext_iff.1 edits other
    simpa [Events.ownEdits, otherValid] using same
  · refine Set.ext fun gone => and_congr_left fun valid => ?_
    refine firstGonesTop.mem_iff_mem (eventRank_injective _) secondGonesTop fun other sameKey => ?_
    have otherValid : goneValid other author kind = true := by
      rw [goneValid_iff_goneKey, sameKey, ← goneValid_iff_goneKey]
      exact valid
    have same := Set.ext_iff.1 gones other
    simpa [Events.validGones, otherValid] using same

/-! ## Runs with forged operations -/

/-- The operations of a list in which the forged ones are marked. -/
def allOps (marked : List (Bool × HistoryOp)) : List HistoryOp :=
  marked.map Prod.snd

/-- The operations that are not forged. -/
def genuineOps (marked : List (Bool × HistoryOp)) : List HistoryOp :=
  allOps (marked.filter fun entry => !entry.1)

variable {marked : List (Bool × HistoryOp)}

theorem genuineOps_subset : ∀ op ∈ genuineOps marked, op ∈ allOps marked := by
  intro op member
  obtain ⟨entry, inside, rfl⟩ := List.mem_map.1 member
  exact List.mem_map_of_mem (List.mem_of_mem_filter inside)

section

variable (forged : ∀ op, (true, op) ∈ marked -> Forged author kind op)

include forged

/-- An operation is genuine or forged. -/
theorem genuine_or_forged
    (member : op ∈ allOps marked) : op ∈ genuineOps marked ∨ Forged author kind op := by
  obtain ⟨⟨isForged, inner⟩, inside, rfl⟩ := List.mem_map.1 member
  cases isForged with
  | true => exact .inr (forged inner inside)
  | false => exact .inl (List.mem_map.2 ⟨_, List.mem_filter.2 ⟨inside, rfl⟩, rfl⟩)

/-- What no forged operation brings is brought by a genuine one. -/
theorem exists_genuine_iff {brings : HistoryOp -> Prop}
    (nothing : ∀ op, Forged author kind op -> ¬brings op) :
    (∃ op ∈ allOps marked, brings op) ↔ ∃ op ∈ genuineOps marked, brings op := by
  refine ⟨?_, exists_mem_of_subset genuineOps_subset⟩
  rintro ⟨op, member, inside⟩
  rcases genuine_or_forged forged member with isGenuine | isForged
  · exact ⟨op, isGenuine, inside⟩
  · exact (nothing op isForged inside).elim

theorem eventsOf_genuineOps :
    (eventsOf (allOps marked)).ownEdits author = (eventsOf (genuineOps marked)).ownEdits author ∧
      (eventsOf (allOps marked)).validGones author kind =
        (eventsOf (genuineOps marked)).validGones author kind := by
  constructor
  · ext edit
    refine and_congr_left fun valid => exists_genuine_iff forged fun op isForged inside => ?_
    have none : edit ∈ op.events.ownEdits author := ⟨inside, valid⟩
    rw [isForged.events.2.1] at none
    cases none
  · ext gone
    refine and_congr_left fun valid => exists_genuine_iff forged fun op isForged inside => ?_
    have none : gone ∈ op.events.validGones author kind := ⟨inside, valid⟩
    rw [isForged.events.2.2] at none
    cases none

end

/-- A step of a run that knows the row. -/
theorem Known.apply
    (kindEq : KindIs key kind)
    (aimed : Aimed isJsonObject author target key ops) (member : op ∈ ops)
    (known : Known isJsonObject author kind target key state) :
    ∃ next, History.apply isJsonObject (some state) op = .ok next ∧
      Known isJsonObject author kind target key next ∧
      Outcome author kind
        (state.events.ownEdits author ∪ op.ownEdits isJsonObject author)
        (state.events.validGones author kind ∪ op.validGones isJsonObject author kind) next := by
  obtain ⟨row, isRow, -⟩ := known.outcome.row
  have proper : ∀ other ∈ some state, Proper isJsonObject author target key other := by
    rintro _ ⟨rfl⟩
    exact known.proper
  have steady : ∀ other ∈ some state, Steady author kind other := by
    rintro _ ⟨rfl⟩
    exact known.steady kindEq
  obtain ⟨next, ran, nextKnown, outcome⟩ := aimed.apply_known kindEq member proper steady
    (.inr ⟨state, rfl, by simp [isRow]⟩)
  refine ⟨next, ran, nextKnown, ?_⟩
  simpa [heldEdits, heldGones] using outcome

/-- Once the row is known, forged operations make no difference. -/
theorem Known.run
    (kindEq : KindIs key kind)
    (marked : List (Bool × HistoryOp))
    (aimed : Aimed isJsonObject author target key (allOps marked))
    (forged : ∀ op, (true, op) ∈ marked -> Forged author kind op)
    (firstKnown : Known isJsonObject author kind target key first)
    (secondKnown : Known isJsonObject author kind target key second)
    (agrees : Agrees first second) :
    ∃ firstFinal secondFinal,
      (allOps marked).foldlM (fun state op => do return some (← History.apply isJsonObject state op))
          (some first) = (.ok (some firstFinal) : Result (Option RowState)) ∧
      (genuineOps marked).foldlM
          (fun state op => do return some (← History.apply isJsonObject state op)) (some second) =
        (.ok (some secondFinal) : Result (Option RowState)) ∧
      Known isJsonObject author kind target key firstFinal ∧
      Known isJsonObject author kind target key secondFinal ∧ Agrees firstFinal secondFinal := by
  induction marked generalizing first second with
  | nil => exact ⟨first, second, rfl, rfl, firstKnown, secondKnown, agrees⟩
  | cons entry marked inductionHypothesis =>
      obtain ⟨isForged, op⟩ := entry
      have restAimed : Aimed isJsonObject author target key (allOps marked) :=
        aimed.mono fun other member => List.mem_cons_of_mem _ member
      have restForged : ∀ other, (true, other) ∈ marked -> Forged author kind other :=
        fun other member => forged other (List.mem_cons_of_mem _ member)
      obtain ⟨firstNext, firstRan, firstNextKnown, firstOutcome⟩ :=
        firstKnown.apply kindEq aimed List.mem_cons_self
      cases isForged with
      | true =>
          obtain ⟨noEdits, noGones⟩ :=
            aimed.forged_brings_nothing List.mem_cons_self (forged op List.mem_cons_self)
          rw [noEdits, noGones, Set.union_empty, Set.union_empty] at firstOutcome
          have unchanged := firstOutcome.agrees firstKnown.outcome
          obtain ⟨firstFinal, secondFinal, firstFold, secondFold, rest⟩ :=
            inductionHypothesis restAimed restForged firstNextKnown secondKnown
              ⟨unchanged.1.trans agrees.1, unchanged.2.1.trans agrees.2.1,
                unchanged.2.2.trans agrees.2.2⟩
          refine ⟨firstFinal, secondFinal, ?_, secondFold, rest⟩
          simp only [allOps, List.map_cons, List.foldlM_cons, firstRan, bind, Except.bind, pure,
            Except.pure]
          exact firstFold
      | false =>
          obtain ⟨secondNext, secondRan, secondNextKnown, secondOutcome⟩ :=
            secondKnown.apply kindEq aimed List.mem_cons_self
          obtain ⟨edits, gones⟩ := firstKnown.outcome.events_eq_of_agrees secondKnown.outcome
            (firstKnown.proper.target.trans secondKnown.proper.target.symm) agrees
          rw [edits, gones] at firstOutcome
          obtain ⟨firstFinal, secondFinal, firstFold, secondFold, rest⟩ :=
            inductionHypothesis restAimed restForged firstNextKnown secondNextKnown
              (firstOutcome.agrees secondOutcome)
          refine ⟨firstFinal, secondFinal, ?_, ?_, rest⟩
          · simp only [allOps, List.map_cons, List.foldlM_cons, firstRan, bind, Except.bind, pure,
              Except.pure]
            exact firstFold
          · simp only [genuineOps, allOps, List.filter_cons, Bool.not_false, if_true, List.map_cons,
              List.foldlM_cons, secondRan, bind, Except.bind, pure, Except.pure]
            exact secondFold

theorem applyAll_append {before : List HistoryOp} {slot : Option RowState}
    (ran : applyAll isJsonObject before = .ok slot) (after : List HistoryOp) :
    applyAll isJsonObject (before ++ after) =
      after.foldlM (fun state op => do return some (← apply isJsonObject state op)) slot := by
  rw [applyAll] at ran
  rw [applyAll, List.foldlM_append, ran]
  rfl

theorem applyAll_append_cons
    {before after : List HistoryOp} {slot : Option RowState} {next : RowState}
    (ran : applyAll isJsonObject before = .ok slot)
    (applied : apply isJsonObject slot op = .ok next) :
    applyAll isJsonObject (before ++ op :: after) =
      after.foldlM (fun state op => do return some (← apply isJsonObject state op))
        (some next) := by
  rw [applyAll_append ran]
  simp only [List.foldlM_cons, applied, bind, Except.bind, pure, Except.pure]

/-- Forged edits and deletions change neither the edit nor the deletion of a message,
wherever they stand among its operations, if not too many authors wait for the row. -/
theorem forged_harmless
    (isJsonObject : Bytes -> Bool)
    (author : String)
    (target : Bytes)
    (chat : Peer)
    (key : String)
    (before after : List (Bool × HistoryOp))
    (brought : HistoryOp)
    (chatEq : historyChatKey chat = .ok key)
    (aimed : Aimed isJsonObject author target key (allOps before ++ brought :: allOps after))
    (forged : ∀ op, (true, op) ∈ before ++ after -> Forged author (chatKindOf chat) op)
    (noRow : (eventsOf (allOps before)).rows = ∅)
    (isRow : brought.events.rows.Nonempty)
    (few : FewAuthors (chatKindOf chat) (eventsOf (allOps before))) :
    ∃ mixed clean,
      applyAll isJsonObject (allOps before ++ brought :: allOps after) = .ok (some mixed) ∧
      applyAll isJsonObject (genuineOps before ++ brought :: genuineOps after) =
        .ok (some clean) ∧
      mixed.row.isSome = true ∧ clean.row.isSome = true ∧ Agrees mixed clean := by
  have kindEq : ∀ peer, historyChatKey peer = .ok key -> chatKindOf peer = chatKindOf chat :=
    fun peer peerKey => chatKindOf_eq_of_historyChatKey peerKey chatEq
  have calm : Calm isJsonObject author (chatKindOf chat) target key (allOps before) :=
    ⟨aimed.mono fun op member => List.mem_append_left _ member,
      fun someRow => absurd noRow someRow.ne_empty, few⟩
  have genuineCalm := calm.mono fun op => genuineOps_subset op
  have genuineNoRow : (eventsOf (genuineOps before)).rows = ∅ :=
    Set.subset_eq_empty (fun row => exists_mem_of_subset genuineOps_subset) noRow
  have forgedBefore : ∀ op, (true, op) ∈ before -> Forged author (chatKindOf chat) op :=
    fun op member => forged op (List.mem_append_left _ member)
  obtain ⟨edits, gones⟩ := eventsOf_genuineOps forgedBefore
  obtain ⟨first, firstRan, firstWaiting⟩ := calm.waiting kindEq
  obtain ⟨second, secondRan, secondWaiting⟩ := genuineCalm.waiting kindEq
  obtain ⟨heldEditsEq, heldGonesEq⟩ := firstWaiting.held_eq calm genuineCalm noRow genuineNoRow
    secondWaiting edits gones
  -- The row arrives in both runs with the same operation.
  have member : brought ∈ allOps before ++ brought :: allOps after := by simp
  obtain ⟨firstNext, firstApplied, firstKnown, firstOutcome⟩ := aimed.apply_known kindEq member
    (firstWaiting.proper calm) (firstWaiting.steady calm kindEq) (.inl isRow)
  obtain ⟨secondNext, secondApplied, secondKnown, secondOutcome⟩ := aimed.apply_known kindEq member
    (secondWaiting.proper genuineCalm) (secondWaiting.steady genuineCalm kindEq) (.inl isRow)
  rw [heldEditsEq, heldGonesEq] at firstOutcome
  obtain ⟨mixed, clean, mixedFold, cleanFold, mixedKnown, cleanKnown, agrees⟩ :=
    Known.run kindEq after
      (aimed.mono fun op inside => List.mem_append_right _ (List.mem_cons_of_mem _ inside))
      (fun op inside => forged op (List.mem_append_right _ inside)) firstKnown secondKnown
      (firstOutcome.agrees secondOutcome)
  obtain ⟨mixedRow, mixedRowEq, -⟩ := mixedKnown.outcome.row
  obtain ⟨cleanRow, cleanRowEq, -⟩ := cleanKnown.outcome.row
  refine ⟨mixed, clean, ?_, ?_, by simp [mixedRowEq], by simp [cleanRowEq], agrees⟩
  · rw [applyAll_append_cons firstRan firstApplied]
    exact mixedFold
  · rw [applyAll_append_cons secondRan secondApplied]
    exact cleanFold

/-- An edit that waits for the row, and one by somebody else. -/
theorem forged_harmless_sample :
    ∃ mixed clean,
      applyAll (fun _ => true) [sampleEdit "v@b.org" 4, sampleEdit "u@a.org" 3, sampleRow] =
        .ok (some mixed) ∧
      applyAll (fun _ => true) [sampleEdit "u@a.org" 3, sampleRow] = .ok (some clean) ∧
      mixed.row.isSome = true ∧ clean.row.isSome = true ∧ Agrees mixed clean := by
  have aimed : Aimed (fun _ => true) "u@a.org" sampleTarget
      ("g:" ++ String.ofList (hex (List.replicate 16 7)))
      [sampleEdit "v@b.org" 4, sampleEdit "u@a.org" 3, sampleRow] := by
    refine ⟨?_, ?_, ?_⟩
    · have checked : ∀ op ∈ [sampleEdit "v@b.org" 4, sampleEdit "u@a.org" 3, sampleRow],
          (opToState (fun _ => true) op).isOk = true := by decide +kernel
      exact fun op member => exists_of_isOk (checked op member)
    · simp only [List.forall_mem_cons, List.not_mem_nil, false_implies, implies_true, and_true]
      exact ⟨⟨_, rfl, by decide +kernel⟩, ⟨_, rfl, by decide +kernel⟩, ⟨_, rfl, by decide +kernel⟩⟩
    · simp [eventsOf, HistoryOp.events, rawState, RowState.events, sampleEdit, sampleRow,
        MessageRow.withChat]
  refine forged_harmless (fun _ => true) "u@a.org" sampleTarget (sampleGroup "a.org") _
    [(true, sampleEdit "v@b.org" 4), (false, sampleEdit "u@a.org" 3)] [] sampleRow
    (by decide +kernel) aimed ?_ ?_ ?_ ?_
  · intro op member
    obtain rfl : op = sampleEdit "v@b.org" 4 := by
      simpa using member
    exact ⟨by decide, by decide⟩
  · simp [allOps, eventsOf, HistoryOp.events, rawState, RowState.events, sampleEdit]
  · simp [HistoryOp.events, rawState, RowState.events, sampleRow]
  · refine ⟨⟨["u@a.org", "v@b.org"], by decide, ?_⟩, [], by decide, ?_⟩
    · simp [allOps, eventsOf, HistoryOp.events, rawState, RowState.events, RowState.candidateEdits,
        sampleEdit, Edit.withChat]
    · simp [allOps, eventsOf, HistoryOp.events, rawState, RowState.events, RowState.candidateGones,
        sampleEdit]

/-- A deletion for everyone by the given author. -/
def sampleGone (author : String) : HistoryOp :=
  ⟨some (.gone
    { target := sampleTarget, chat := some (sampleGroup "a.org"), stamp := some (sampleStamp 5)
      scope := scopeEveryone, «by» := author })⟩

/-- A row of the same message under another name. -/
def sampleOtherRow : HistoryOp :=
  ⟨some (.row
    { id := sampleTarget, chat := some (sampleGroup "a.org"), «from» := "o@a.org", tsMs := 1
      body := utf8 "\x7b\x7d" })⟩

/-- Eight others, who edit later than the author. -/
def sampleCrowd : List HistoryOp :=
  ["1@b.org", "2@b.org", "3@b.org", "4@b.org", "5@b.org", "6@b.org", "7@b.org", "8@b.org"].map
    fun author => sampleEdit author 4

/-- The edit and the deletion of the resulting state, if its row is known. -/
def finalOf (ops : List HistoryOp) : Option (Option Stamp × Bytes × Option Gone) :=
  ((applyAll (fun _ => true) ops).toOption.join.filter fun state => state.row.isSome).map
    fun state => (state.editStamp, state.editBody, state.gone)

/-- The state in which edits wait for the row. -/
def sampleWaiting (edits : List HistoryOp) : RowState where
  target := sampleTarget
  chat := some (sampleGroup "b.org")
  pendingEdits := edits.flatMap fun op => (rawState op).toOption.elim [] RowState.pendingEdits

/-- The crowd pushes the edit of the author out. -/
theorem applyAll_sampleCrowd :
    applyAll (fun _ => true) (sampleEdit "u@a.org" 3 :: sampleCrowd) =
      .ok (some (sampleWaiting sampleCrowd)) := by
  -- The run is cut where each part is small enough to be evaluated at once.
  have four : applyAll (fun _ => true) (sampleEdit "u@a.org" 3 :: sampleCrowd.take 4) =
      .ok (some (sampleWaiting (sampleCrowd.take 4 ++ [sampleEdit "u@a.org" 3]))) := by
    decide +kernel
  have six : applyAll (fun _ => true) (sampleEdit "u@a.org" 3 :: sampleCrowd.take 6) =
      .ok (some (sampleWaiting (sampleCrowd.take 6 ++ [sampleEdit "u@a.org" 3]))) := by
    refine (applyAll_append four ((sampleCrowd.drop 4).take 2)).trans ?_
    decide +kernel
  have seven : applyAll (fun _ => true) (sampleEdit "u@a.org" 3 :: sampleCrowd.take 7) =
      .ok (some (sampleWaiting (sampleCrowd.take 7 ++ [sampleEdit "u@a.org" 3]))) := by
    refine (applyAll_append six ((sampleCrowd.drop 6).take 1)).trans ?_
    decide +kernel
  refine (applyAll_append seven (sampleCrowd.drop 7)).trans ?_
  decide +kernel

/-- Forged operations that do make a difference: later edits of many others while the row
is unknown, a deletion without an author, an edit by the author of another row of the same
message, and an edit that names a greater domain of the chat. -/
theorem forged_makes_difference :
    (finalOf [sampleEdit "u@a.org" 3, sampleRow] =
        some (some (sampleStamp 3), utf8 "\x7b\x7d", none) ∧
      finalOf (sampleEdit "u@a.org" 3 :: sampleCrowd ++ [sampleRow]) = some (none, [], none)) ∧
    (finalOf [sampleRow] = some (none, [], none) ∧
      (finalOf [sampleRow, sampleGone ""]).map (fun final => final.2.2.isSome) = some true) ∧
    (finalOf [sampleRow, sampleOtherRow] = some (none, [], none) ∧
      finalOf [sampleRow, sampleOtherRow, sampleEdit "o@a.org" 4] =
        some (some (sampleStamp 4), utf8 "\x7b\x7d", none)) ∧
    ((finalOf [sampleRow, sampleGone "u@a.org"]).map (fun final => final.2.2.bind Gone.chat) =
        some (some (sampleGroup "a.org")) ∧
      (finalOf [sampleRow, sampleGone "u@a.org", sampleEdit "v@b.org" 4]).map
          (fun final => final.2.2.bind Gone.chat) = some (some (sampleGroup "b.org"))) := by
  refine ⟨⟨by decide +kernel, ?_⟩, ⟨?_, ?_⟩, ⟨?_, ?_⟩, ?_, ?_⟩
  · rw [finalOf, applyAll_append applyAll_sampleCrowd]
    decide +kernel
  all_goals decide +kernel

end Parvane.History
