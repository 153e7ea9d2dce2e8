import Parvane.HistoryServer.Invariants

/-!
# Pulling the log

A device pulls the log page by page, while others append records and put checkpoints.
Chunks are not on the pages: they are loaded with the checkpoint that names them.
-/

namespace Parvane.HistoryServer

/-- What a device has pulled, and the number up to which it did. -/
structure Puller where
  cursor : Nat := 0
  pulled : List Row := []
  deriving DecidableEq

namespace Puller

variable (puller : Puller) (response : SyncResponse)

/-- The checkpoint that a page comes with is loaded before the page. -/
def load : Puller :=
  { puller with cursor := max puller.cursor (response.compacted.elim 0 Checkpoint.uptoSeq) }

/-- Take a page in; the last one reaches the head. -/
def take : Puller :=
  let cursor := (response.records.map Row.seq).foldl max (puller.load response).cursor
  { cursor := if response.more then cursor else max cursor response.headSeq
    pulled := puller.pulled ++ response.records }

end Puller

/-- The server does something else, or the device pulls a page, which may break off when the
checkpoint is loaded. -/
inductive PullEvent
  | other (label : Event × Reply)
  | pull (maxBytes : Nat) (taken : Bool)

def PullStep (limits : HistoryLimits) (before : Server × Puller) :
    PullEvent -> Server × Puller -> Prop
  | .other label, after => Step limits before.1 label after.1 ∧ after.2 = before.2
  | .pull maxBytes taken, after =>
      ∃ response, Step limits before.1
          (.sync ⟨before.2.cursor, maxBytes, true⟩, .page response) after.1 ∧
        after.2 = if taken then before.2.take response else before.2.load response

/-! ## One page -/

/-- A page is a beginning of the rows, cut only where more are left. -/
theorem fillPage_spec {budget used : Nat} {rows page records : List Row} {more : Bool}
    (filled : fillPage budget rows page used = (records, more)) :
    ∃ taken rest, rows = taken ++ rest ∧ records = page ++ taken ∧
      (more = false -> rest = []) ∧ (more = true -> records ≠ []) ∧
      records.length ≤ max pageItems page.length := by
  induction rows generalizing page used with
  | nil =>
      cases filled
      exact ⟨[], [], rfl, by simp, by simp, by simp, by simp⟩
  | cons row rows inductionHypothesis =>
      rw [fillPage] at filled
      split at filled
      · next full =>
          cases filled
          refine ⟨[], row :: rows, rfl, by simp, by simp, ?_, by simp⟩
          rintro - rfl
          simp [pageItems] at full
      · next room =>
          obtain ⟨taken, rest, rfl, rfl, whole, some, short⟩ := inductionHypothesis filled
          refine ⟨row :: taken, rest, rfl, by simp, whole, some, ?_⟩
          simp only [Bool.or_eq_true, decide_eq_true_eq, not_or] at room
          simp only [List.length_append, List.length_cons, List.length_nil] at short ⊢
          omega

/-- The records of a log that are still to be pulled. -/
def unpulled (tables : Tables) (cursor : Nat) : List Row :=
  tables.log.filter fun row => cursor < row.seq && !row.chunk

/-- A page begins the records that are still to be pulled once its checkpoint is loaded. -/
theorem sync_spec {tables : Tables} {puller : Puller} {maxBytes : Nat} {response : SyncResponse}
    (consistent : Consistent tables)
    (synced : sync tables ⟨puller.cursor, maxBytes, true⟩ = .ok response) :
    (∃ rest, unpulled tables (puller.load response).cursor = response.records ++ rest ∧
      (response.more = false -> rest = [])) ∧
      (response.more = true -> response.records ≠ []) ∧ response.headSeq = headSeq tables ∧
      response.compacted.elim 0 Checkpoint.uptoSeq ≤ checkpointUpto tables := by
  simp only [sync, bind_eq_ok, toI64_eq_ok, pure, Except.pure] at synced
  obtain ⟨cursor, ⟨-, isCursor⟩, after, isAfter, answered⟩ := synced
  rw [Puller.load, ← isCursor]
  generalize isCompacted : (tables.checkpoint.filter fun checkpoint =>
    puller.cursor < checkpoint.uptoSeq) = compacted at isAfter answered
  have loaded : after = max cursor (compacted.elim 0 Checkpoint.uptoSeq) ∧
      compacted.elim 0 Checkpoint.uptoSeq ≤ checkpointUpto tables := by
    cases compacted with
    | none =>
        cases isAfter
        exact ⟨(max_eq_left (Nat.zero_le _)).symm, Nat.zero_le _⟩
    | some checkpoint =>
        obtain ⟨present, behind⟩ := Option.filter_eq_some_iff.1 isCompacted
        obtain ⟨-, rfl⟩ := (toI64_eq_ok _ _).1 isAfter
        rw [← isCursor] at behind
        refine ⟨(max_eq_right (of_decide_eq_true behind).le).symm, ?_⟩
        rw [checkpointUpto, present]
  have sorted : orderBySeq (unpulled tables after) = unpulled tables after :=
    ((consistent.ordered.filter _).imp le_of_lt).insertionSort_eq
  rw [Bool.not_true] at answered
  simp only [Bool.false_or] at answered
  rw [← unpulled, sorted] at answered
  generalize filled : fillPage _ _ [] 0 = page at answered
  obtain ⟨records, more⟩ := page
  cases answered
  obtain ⟨records, rest, isRows, rfl, whole, some, short⟩ := fillPage_spec filled
  refine ⟨⟨rest ++ (unpulled tables after).drop (pageItems + 1), ?_, fun last => ?_⟩, some, rfl,
    loaded.2⟩
  · rw [← loaded.1]
    change unpulled tables after = records ++ _
    rw [← List.append_assoc, ← isRows, List.take_append_drop]
  · have length := congrArg List.length isRows
    rw [whole last, List.length_take, List.append_nil] at length
    rw [whole last, List.nil_append, List.drop_eq_nil_iff]
    simp only [List.length_nil] at short
    omega

/-! ## The invariant -/

/-- Only chunks are left below a checkpoint. -/
def Compact (tables : Tables) : Prop :=
  ∀ row ∈ tables.log, row.chunk = false -> checkpointUpto tables < row.seq

/-- What was pulled is in order, and nothing up to the cursor is missing. -/
structure Pulled (state : Server × Puller) : Prop where
  consistent : Consistent state.1.tables
  compact : Compact state.1.tables
  cursor : state.2.cursor ≤ headSeq state.1.tables
  ordered : state.2.pulled.Pairwise fun first second => first.seq < second.seq
  below : ∀ row ∈ state.2.pulled, row.seq ≤ state.2.cursor
  complete : ∀ row ∈ state.1.tables.log, row.chunk = false -> row.seq ≤ state.2.cursor ->
    row ∈ state.2.pulled

/-- A checkpoint leaves only chunks below it. -/
theorem Compact.step {limits : HistoryLimits} {label : Event × Reply} {server next : Server}
    (step : Step limits server label next) (consistent : Consistent server.tables)
    (compact : Compact server.tables) :
    Compact next.tables ∧ ∀ row ∈ next.tables.log, row ∈ server.tables.log ∨
      headSeq server.tables < row.seq := by
  rcases step.tables with ⟨same, -⟩ | ⟨request, seq, -, inserted⟩ |
    ⟨request, nowUnix, id, -, committed⟩
  · rw [same]
    exact ⟨compact, fun row member => .inl member⟩
  · obtain ⟨rfl, -, isNext⟩ := insertRecord_spec inserted
    have members : ∀ row ∈ next.tables.log, row ∈ server.tables.log ∨
        headSeq server.tables < row.seq := by
      intro row member
      rw [isNext] at member
      rcases List.mem_append.1 member with member | member
      · exact .inl member
      · rw [List.mem_singleton.1 member]
        exact .inr (Nat.lt_succ_self _)
    refine ⟨fun row member isRecord => ?_, members⟩
    rw [show checkpointUpto next.tables = checkpointUpto server.tables by rw [isNext]; rfl]
    rcases members row member with old | above
    · exact compact row old isRecord
    · exact consistent.bounded.trans_lt above
  · have spec := commit_spec committed
    obtain ⟨chunkSeqs, -, isCheckpoint⟩ := spec.checkpoint
    have members : ∀ row ∈ next.tables.log, row ∈ server.tables.log ∧ request.leaves row :=
      fun row member => List.mem_filter.1 (spec.log ▸ member)
    refine ⟨fun row member isRecord => ?_, fun row member => .inl (members row member).1⟩
    obtain ⟨stored, left⟩ := members row member
    have nodup : (server.tables.log.map Row.seq).Nodup :=
      List.pairwise_map.2 (consistent.ordered.imp ne_of_lt)
    have kept : ¬ (row.seq = request.summarySeq ∨ row.seq ∈ request.chunkSeqs) := by
      intro named
      obtain ⟨-, -, chunk, inside, same, isChunk⟩ := spec.chunks row.seq named
      rw [List.inj_on_of_nodup_map nodup inside stored same, isRecord] at isChunk
      cases isChunk
    have positive := (consistent.numbered row stored).1
    simp only [CommitRequest.leaves, Bool.or_eq_true, beq_iff_eq, List.contains_iff_mem,
      decide_eq_true_eq] at left
    rw [checkpointUpto, isCheckpoint]
    rcases left with ((none | isSummary) | isChunk) | late
    · omega
    · exact absurd (.inl isSummary) kept
    · exact absurd (.inr isChunk) kept
    · exact late

theorem foldl_max_le {numbers : List Nat} {first bound : Nat} :
    numbers.foldl max first ≤ bound ↔ first ≤ bound ∧ ∀ number ∈ numbers, number ≤ bound := by
  induction numbers generalizing first with
  | nil => simp
  | cons number numbers inductionHypothesis =>
      rw [List.foldl_cons, inductionHypothesis, max_le_iff, List.forall_mem_cons, and_assoc]

/-- What a checkpoint covers need not be pulled. -/
theorem Pulled.load {server : Server} {puller : Puller} {response : SyncResponse}
    (pulled : Pulled (server, puller))
    (upto : response.compacted.elim 0 Checkpoint.uptoSeq ≤ checkpointUpto server.tables) :
    Pulled (server, puller.load response) := by
  refine ⟨pulled.consistent, pulled.compact, ?_, pulled.ordered, ?_, ?_⟩
  · exact max_le pulled.cursor (upto.trans pulled.consistent.bounded)
  · exact fun row member => (pulled.below row member).trans (le_max_left _ _)
  · intro row stored isRecord low
    rcases le_max_iff.1 low with low | low
    · exact pulled.complete row stored isRecord low
    · exact absurd (low.trans upto) (not_le.2 (pulled.compact row stored isRecord))

/-- A page that is taken leaves nothing behind the new cursor. -/
theorem Pulled.take {server : Server} {puller : Puller} {maxBytes : Nat} {response : SyncResponse}
    (pulled : Pulled (server, puller))
    (synced : sync server.tables ⟨puller.cursor, maxBytes, true⟩ = .ok response) :
    Pulled (server, puller.take response) ∧
      (response.more = true -> puller.cursor < (puller.take response).cursor) ∧
      (response.more = false -> (puller.take response).cursor = headSeq server.tables) := by
  obtain ⟨⟨rest, rows, whole⟩, some, isHead, upto⟩ := sync_spec pulled.consistent synced
  obtain ⟨consistent, compact, cursor, ordered, below, complete⟩ := pulled.load upto
  have isRow : ∀ row, row ∈ response.records ++ rest ↔
      row ∈ server.tables.log ∧ (puller.load response).cursor < row.seq ∧ row.chunk = false := by
    simp [← rows, unpulled]
  have sorted := consistent.ordered.filter fun row =>
    (puller.load response).cursor < row.seq && !row.chunk
  rw [← unpulled, rows, List.pairwise_append] at sorted
  obtain ⟨recordsSorted, -, apart⟩ := sorted
  -- The number that the records of the page reach.
  generalize isReached : (response.records.map Row.seq).foldl max (puller.load response).cursor =
    reached
  have bound : ∀ bound, reached ≤ bound ↔ (puller.load response).cursor ≤ bound ∧
      ∀ row ∈ response.records, row.seq ≤ bound := by
    intro bound
    rw [← isReached, foldl_max_le, List.forall_mem_map]
  obtain ⟨loadedLe, recordsLe⟩ := (bound reached).1 le_rfl
  have inHead : reached ≤ headSeq server.tables := (bound _).2 ⟨cursor, fun row member =>
    (consistent.numbered row ((isRow row).1 (List.mem_append_left _ member)).1).2⟩
  have next : puller.take response = ⟨if response.more then reached else headSeq server.tables,
      puller.pulled ++ response.records⟩ := by
    rw [Puller.take, isReached, isHead, max_eq_right inHead]
  have reachedLe : reached ≤ (if response.more then reached else headSeq server.tables) := by
    split
    · exact le_rfl
    · exact inHead
  rw [next]
  refine ⟨⟨consistent, compact, ?_, ?_, ?_, ?_⟩, fun more => ?_, fun last => by rw [last]; rfl⟩
  · dsimp only
    split
    · exact inHead
    · exact le_rfl
  · refine List.pairwise_append.2 ⟨ordered, recordsSorted, fun old isOld row member => ?_⟩
    exact (below old isOld).trans_lt ((isRow row).1 (List.mem_append_left _ member)).2.1
  · intro row member
    refine le_trans ?_ reachedLe
    rcases List.mem_append.1 member with old | member
    · exact (below row old).trans loadedLe
    · exact recordsLe row member
  · intro row stored isRecord low
    by_cases old : row.seq ≤ (puller.load response).cursor
    · exact List.mem_append_left _ (complete row stored isRecord old)
    · rcases List.mem_append.1 ((isRow row).2 ⟨stored, not_le.1 old, isRecord⟩) with here | later
      · exact List.mem_append_right _ here
      · -- What is left comes after the records of the page.
        have more : response.more = true := by
          by_contra last
          rw [whole (Bool.eq_false_of_not_eq_true last)] at later
          cases later
        have above : reached ≤ row.seq - 1 := (bound _).2 ⟨by omega, fun record member =>
          Nat.le_sub_one_of_lt (apart record member row later)⟩
        simp only [if_pos more] at low
        omega
  · obtain ⟨record, records, isRecords⟩ := List.exists_cons_of_ne_nil (some more)
    have member : record ∈ response.records := isRecords ▸ List.mem_cons_self
    have isNew := ((isRow record).1 (List.mem_append_left _ member)).2.1
    rw [if_pos more]
    exact ((le_max_left _ _).trans_lt isNew).trans_le (recordsLe record member)

theorem Pulled.step {limits : HistoryLimits} {event : PullEvent} {before after : Server × Puller}
    (pulled : Pulled before)
    (step : PullStep limits before event after) : Pulled after := by
  obtain ⟨server, puller⟩ := before
  obtain ⟨next, later⟩ := after
  cases event with
  | other label =>
      obtain ⟨step, rfl⟩ := step
      obtain ⟨compact, members⟩ := Compact.step step pulled.consistent pulled.compact
      refine ⟨step.consistent pulled.consistent, compact, pulled.cursor.trans step.forward.1,
        pulled.ordered, pulled.below, fun row stored isRecord low => ?_⟩
      rcases members row stored with old | new
      · exact pulled.complete row old isRecord low
      · exact absurd (low.trans pulled.cursor) (not_le.2 new)
  | pull maxBytes taken =>
      obtain ⟨response, ⟨-, handled⟩, rfl⟩ := step
      simp only [handle] at handled
      split at handled
      · cases handled
      · next synced =>
          cases handled
          cases taken with
          | true => exact (pulled.take synced).1
          | false => exact pulled.load (sync_spec pulled.consistent synced).2.2.2

theorem run_other {limits : HistoryLimits} {labels : List (Event × Reply)} {server final : Server}
    (puller : Puller)
    (run : Run (Step limits) server labels final) :
    Run (PullStep limits) (server, puller) (labels.map .other) (final, puller) := by
  induction run with
  | nil server => exact .nil _
  | cons first rest inductionHypothesis =>
      refine .cons ?_ inductionHypothesis
      exact ⟨first, rfl⟩

def sampleAppended : Server :=
  { tables :=
      { log := [(sampleRequest 1 false).row 1]
        head := some { nextSeq := 1, records := 1, bytes := 28 } } }

def samplePage : SyncResponse := ⟨[(sampleRequest 1 false).row 1], false, 1, none⟩

end Parvane.HistoryServer
