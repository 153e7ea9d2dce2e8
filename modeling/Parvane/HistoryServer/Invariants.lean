import Parvane.HistoryServer.Log

/-!
# What the history log keeps

The numbers in the log grow, the counters describe the rows, and below the checkpoint
nothing is left but what it names.  A step changes the tables in two ways only: an append
adds a row at the end, and an accepted checkpoint deletes rows.
-/

namespace Parvane.HistoryServer

@[simp] theorem demand_eq_ok
    (condition : Bool) (error : ErrorCode) (value : Unit) :
    demand condition error = .ok value ↔ condition = true := by
  cases condition <;> simp [demand]

@[simp] theorem toI64_eq_ok (value result : Nat) :
    toI64 value = .ok result ↔ value ≤ i64Max ∧ result = value := by
  unfold toI64
  split <;> simp_all [eq_comm]

/-! ## What a checkpoint deletes -/

variable {limits : HistoryLimits} {nowUnix : Int}

@[simp] theorem mem_keep (request : CommitRequest) (seq : Nat) :
    seq ∈ request.keep ↔ seq = request.summarySeq ∨ seq ∈ request.chunkSeqs := by
  simp [CommitRequest.keep, Std.ExtTreeSet.mem_ofList]

theorem keep_sorted (request : CommitRequest) : request.keep.Pairwise (· < ·) := by
  simpa [CommitRequest.keep, Nat.compare_eq_lt] using
    (Std.ExtTreeSet.ofList (request.summarySeq :: request.chunkSeqs) compare).ordered_toList

/-- Deleting range by range leaves what was before the first range, the kept numbers and
what comes after the last. -/
theorem deleteRanges_eq_ok {prev : Nat} {kept : List Nat} {log left : List Row}
    (sorted : (prev :: kept).Pairwise (· < ·))
    (deleted : deleteRanges prev kept log = .ok left) :
    left = log.filter fun row =>
      decide (row.seq ≤ prev ∨ row.seq ∈ kept ∨ ∀ next ∈ kept, next < row.seq) := by
  induction kept generalizing prev log with
  | nil =>
      cases deleted
      simp
  | cons next kept inductionHypothesis =>
      obtain ⟨above, sorted'⟩ := List.pairwise_cons.1 sorted
      have later : ∀ other ∈ kept, next < other := (List.pairwise_cons.1 sorted').1
      have first : prev < next := above next List.mem_cons_self
      simp only [deleteRanges] at deleted
      split at deleted
      · simp only [bind_eq_ok, toI64_eq_ok] at deleted
        obtain ⟨_, ⟨-, rfl⟩, _, ⟨-, rfl⟩, deleted⟩ := deleted
        rw [inductionHypothesis sorted' deleted, deleteBetween, List.filter_filter]
        apply List.filter_congr
        intro row _
        grind
      · rw [inductionHypothesis sorted' deleted]
        apply List.filter_congr
        intro row _
        grind

/-- The rows that an accepted checkpoint leaves. -/
def CommitRequest.leaves (request : CommitRequest) (row : Row) : Bool :=
  row.seq == 0 || row.seq == request.summarySeq || request.chunkSeqs.contains row.seq ||
    request.uptoSeq < row.seq

/-- What the server has checked when it accepts a checkpoint, and what it then stores. -/
structure Committed (tables : Tables) (request : CommitRequest) (nowUnix : Int)
    (id : Nat) (next : Tables) : Prop where
  expected : checkpointId tables = request.expectedCheckpointId
  newId : id = checkpointId tables + 1
  inLog : request.uptoSeq ≤ headSeq tables
  forward : checkpointUpto tables ≤ request.uptoSeq
  chunks : ∀ seq, seq = request.summarySeq ∨ seq ∈ request.chunkSeqs ->
    0 < seq ∧ seq ≤ request.uptoSeq ∧ ∃ row ∈ tables.log, row.seq = seq ∧ row.chunk = true
  log : next.log = tables.log.filter request.leaves
  head : next.head = tables.head.map fun head =>
    { head with records := (volume next.log).1, bytes := (volume next.log).2 }
  checkpoint : ∃ chunkSeqs, (∀ seq, seq ∈ chunkSeqs ↔ seq ∈ request.chunkSeqs) ∧
    next.checkpoint = some
      { id, uptoSeq := request.uptoSeq, summarySeq := request.summarySeq, chunkSeqs,
        createdMs := millis nowUnix }

theorem commit_spec {tables next : Tables} {request : CommitRequest} {id : Nat}
    (committed : commit tables request nowUnix = .ok (id, next)) :
    Committed tables request nowUnix id next := by
  simp only [commit, bind_eq_ok, demand_eq_ok, toI64_eq_ok, pure, Except.pure,
    Except.ok.injEq, Prod.mk.injEq, Bool.and_eq_true, decide_eq_true_eq, beq_iff_eq,
    Bool.not_eq_true', List.any_eq_false, List.all_eq_true, List.contains_iff_mem, mem_keep,
    List.mem_map, List.mem_filter, Bool.or_eq_true, not_or, not_lt, bne_iff_ne] at committed
  obtain ⟨_, -, upto, ⟨-, rfl⟩, _, bounds, _, expected, _, ⟨inLog, forward⟩, _, chunks, log,
    deleted, _, ⟨-, rfl⟩, _, ⟨-, rfl⟩, rfl, rfl⟩ := committed
  have sorted : (0 :: (request.keep ++ [request.uptoSeq + 1])).Pairwise (· < ·) := by
    refine List.pairwise_cons.2 ⟨?_, List.pairwise_append.2 ⟨keep_sorted request, by simp, ?_⟩⟩
    · intro seq member
      rcases List.mem_append.1 member with member | member
      · have := bounds seq ((mem_keep request seq).1 member)
        omega
      · simp only [List.mem_singleton] at member
        omega
    · intro seq member last isLast
      have := bounds seq ((mem_keep request seq).1 member)
      simp only [List.mem_singleton] at isLast
      omega
  refine
    { expected := expected
      newId := rfl
      inLog := inLog
      forward := forward
      chunks := fun seq member => ?_
      log := ?_
      head := rfl
      checkpoint := ⟨_, fun seq => ?_, rfl⟩ }
  · obtain ⟨row, ⟨stored, isChunk, -⟩, rfl⟩ := chunks seq member
    have := bounds row.seq member
    exact ⟨by omega, this.2, row, stored, rfl, isChunk⟩
  · rw [deleteRanges_eq_ok sorted deleted]
    apply List.filter_congr
    intro row _
    have low := bounds row.seq
    have last : (∀ next ∈ request.keep ++ [request.uptoSeq + 1], next < row.seq) ↔
        request.uptoSeq + 1 < row.seq := by
      constructor
      · intro all
        exact all _ (by simp)
      · intro above next member
        rcases List.mem_append.1 member with member | member
        · have := bounds next ((mem_keep request next).1 member)
          omega
        · rw [List.mem_singleton.1 member]
          exact above
    rw [Bool.eq_iff_iff]
    simp only [CommitRequest.leaves, List.mem_append, mem_keep, List.mem_singleton,
      decide_eq_true_eq, Bool.or_eq_true, beq_iff_eq, List.contains_iff_mem]
    grind
  · simp only [List.mem_filter, mem_keep, Bool.or_eq_true, bne_iff_ne, List.contains_iff_mem]
    grind

/-! ## What an append adds -/

/-- The row of a record that is stored under a number. -/
def AppendRequest.row (request : AppendRequest) (seq : Nat) : Row :=
  { seq
    opId := request.opId
    record := request.aeadCiphertext
    chunk := request.chunk }

@[simp] theorem count_nextSeq (tables : Tables) (length : Nat) :
    (Head.count tables.head length).nextSeq = headSeq tables + 1 := by
  unfold Head.count headSeq
  cases tables.head <;> rfl

/-- A stored append takes the next number, and its identifier is new in the log. -/
theorem insertRecord_spec {tables next : Tables} {request : AppendRequest} {seq : Nat}
    (inserted : insertRecord limits tables request = .ok (some (seq, next))) :
    seq = headSeq tables + 1 ∧ (∀ row ∈ tables.log, row.opId ≠ request.opId) ∧
      next =
        { tables with
          head := some (Head.count tables.head request.aeadCiphertext.length)
          log := tables.log ++ [request.row seq] } := by
  simp only [insertRecord, bind_eq_ok, demand_eq_ok] at inserted
  obtain ⟨_, -, _, -, inserted⟩ := inserted
  split at inserted
  · cases inserted
  · next fresh =>
      cases inserted
      refine ⟨count_nextSeq tables _, fun row member same => fresh ?_, rfl⟩
      exact List.any_eq_true.2 ⟨row, member, by simp [same]⟩

theorem insertRecord_headSeq {tables next : Tables} {request : AppendRequest} {seq : Nat}
    (inserted : insertRecord limits tables request = .ok (some (seq, next))) :
    headSeq next = headSeq tables + 1 := by
  obtain ⟨rfl, -, rfl⟩ := insertRecord_spec inserted
  exact count_nextSeq tables _

/-- An append whose identifier is stored adds nothing. -/
theorem insertRecord_of_stored {tables : Tables} {request : AppendRequest} {row : Row}
    (stored : row ∈ tables.log) (same : row.opId = request.opId) :
    insertRecord limits tables request = .ok none ∨
      ∃ error, insertRecord limits tables request = .error error := by
  cases inserted : insertRecord limits tables request with
  | error error => exact .inr ⟨error, rfl⟩
  | ok result =>
      cases result with
      | none => exact .inl rfl
      | some result => exact absurd same ((insertRecord_spec inserted).2.1 row stored)

/-! ## The steps of the server -/

variable {label : Event × Reply}

/-- A step leaves the tables as they are, adds a record, or puts a checkpoint. -/
theorem Step.tables {server next : Server}
    (step : Step limits server label next) :
    (next.tables = server.tables ∧ (∀ seq, label.2 ≠ .appended seq true) ∧
        ∀ id, label.2 ≠ .committed id) ∨
      (∃ request seq, label = (.resume (.insert request), .appended seq true) ∧
        insertRecord limits server.tables request = .ok (some (seq, next.tables))) ∨
      ∃ request nowUnix id, label = (.commit request nowUnix, .committed id) ∧
        commit server.tables request nowUnix = .ok (id, next.tables) := by
  obtain ⟨event, reply⟩ := label
  obtain ⟨-, handled⟩ := step
  dsimp only at handled
  cases event with
  | append request =>
      simp only [handle, appendNew] at handled
      split at handled <;> cases handled <;> exact .inl ⟨rfl, by simp, by simp⟩
  | resume call =>
      cases call with
      | insert request =>
          simp only [handle, resume] at handled
          split at handled
          · cases handled
            exact .inl ⟨rfl, by simp, by simp⟩
          · cases handled
            exact .inl ⟨rfl, by simp, by simp⟩
          · next inserted =>
              cases handled
              exact .inr (.inl ⟨request, _, rfl, inserted⟩)
      | reread request =>
          simp only [handle, resume] at handled
          split at handled <;> cases handled <;> exact .inl ⟨rfl, by simp, by simp⟩
  | fail call =>
      cases handled
      exact .inl ⟨rfl, by simp, by simp⟩
  | sync request =>
      simp only [handle] at handled
      split at handled <;> cases handled <;> exact .inl ⟨rfl, by simp, by simp⟩
  | get seqs =>
      simp only [handle] at handled
      split at handled <;> cases handled <;> exact .inl ⟨rfl, by simp, by simp⟩
  | head =>
      cases handled
      exact .inl ⟨rfl, by simp, by simp⟩
  | commit request nowUnix =>
      simp only [handle] at handled
      split at handled
      · cases handled
        exact .inl ⟨rfl, by simp, by simp⟩
      · next committed =>
          cases handled
          exact .inr (.inr ⟨request, nowUnix, _, rfl, committed⟩)

/-! ## The invariant -/

/-- The counters as the head has them. -/
def counters (tables : Tables) : Nat × Nat :=
  tables.head.elim (0, 0) fun head => (head.records, head.bytes)

/-- What the tables of a user satisfy at all times. -/
structure Consistent (tables : Tables) : Prop where
  ordered : tables.log.Pairwise fun first second => first.seq < second.seq
  numbered : ∀ row ∈ tables.log, 0 < row.seq ∧ row.seq ≤ headSeq tables
  named : tables.log.Pairwise fun first second => first.opId ≠ second.opId
  counted : counters tables = volume tables.log
  bounded : checkpointUpto tables ≤ headSeq tables
  compacted : ∀ checkpoint, tables.checkpoint = some checkpoint ->
    ∀ seq ≤ checkpoint.uptoSeq, seq ∈ tables.log.map Row.seq ↔
      seq ∈ checkpoint.chunkSeqs ∨ seq = checkpoint.summarySeq

theorem consistent_empty : Consistent {} where
  ordered := .nil
  numbered := by simp
  named := .nil
  counted := rfl
  bounded := by simp [checkpointUpto]
  compacted := by simp

theorem volume_append (log : List Row) (row : Row) :
    volume (log ++ [row]) = ((volume log).1 + 1, (volume log).2 + row.record.length) := by
  simp [volume]

theorem Consistent.insertRecord {tables next : Tables} {request : AppendRequest} {seq : Nat}
    (consistent : Consistent tables)
    (inserted : insertRecord limits tables request = .ok (some (seq, next))) : Consistent next := by
  have grown := insertRecord_headSeq inserted
  obtain ⟨rfl, fresh, rfl⟩ := insertRecord_spec inserted
  -- The new number is above every stored one and above the checkpoint.
  refine
    { ordered := List.pairwise_append.2 ⟨consistent.ordered, by simp, ?_⟩
      numbered := fun row member => ?_
      named := List.pairwise_append.2 ⟨consistent.named, by simp, ?_⟩
      counted := ?_
      bounded := ?_
      compacted := fun checkpoint isCheckpoint seq low => ?_ }
  · intro row member added isAdded
    rw [List.mem_singleton.1 isAdded]
    exact Nat.lt_succ_of_le (consistent.numbered row member).2
  · rw [grown]
    rcases List.mem_append.1 member with member | member
    · have := consistent.numbered row member
      omega
    · rw [List.mem_singleton.1 member]
      exact ⟨Nat.succ_pos _, le_rfl⟩
  · intro row member added isAdded
    rw [List.mem_singleton.1 isAdded]
    exact fresh row member
  · have counted := consistent.counted
    rw [volume_append, ← counted]
    simp only [counters, Head.count]
    cases tables.head <;> simp [AppendRequest.row]
  · rw [grown]
    exact Nat.le_succ_of_le consistent.bounded
  · have upto : checkpoint.uptoSeq ≤ headSeq tables := by
      have bounded := consistent.bounded
      rwa [checkpointUpto, show tables.checkpoint = some checkpoint from isCheckpoint] at bounded
    rw [← consistent.compacted checkpoint isCheckpoint seq low]
    simp only [List.map_append, List.mem_append, List.map_cons, List.map_nil,
      List.mem_singleton, AppendRequest.row]
    exact or_iff_left (by omega)

theorem Consistent.commit {tables next : Tables} {request : CommitRequest} {id : Nat}
    (consistent : Consistent tables)
    (committed : commit tables request nowUnix = .ok (id, next)) : Consistent next := by
  have spec := commit_spec committed
  obtain ⟨chunkSeqs, same, isCheckpoint⟩ := spec.checkpoint
  have sublist : next.log.Sublist tables.log := by
    rw [spec.log]
    exact List.filter_sublist
  have headKept : headSeq next = headSeq tables := by
    rw [headSeq, spec.head, headSeq]
    cases tables.head <;> rfl
  refine
    { ordered := consistent.ordered.sublist sublist
      numbered := fun row member => ?_
      named := consistent.named.sublist sublist
      counted := ?_
      bounded := ?_
      compacted := fun checkpoint isChosen seq low => ?_ }
  · rw [headKept]
    exact consistent.numbered row (sublist.subset member)
  · rw [counters, spec.head]
    cases isHead : tables.head with
    | some head => rfl
    | none =>
        -- Without a head there is no record, so none is left either.
        have none : tables.log = [] := by
          rw [List.eq_nil_iff_forall_not_mem]
          intro row member
          have := consistent.numbered row member
          simp only [headSeq, isHead, Option.elim] at this
          omega
        rw [none] at sublist
        rw [List.sublist_nil.1 sublist]
        rfl
  · rw [headKept, checkpointUpto, isCheckpoint]
    exact spec.inLog
  · rw [isCheckpoint] at isChosen
    cases isChosen
    simp only [spec.log, same, List.mem_map, List.mem_filter, CommitRequest.leaves,
      Bool.or_eq_true, beq_iff_eq, List.contains_iff_mem, decide_eq_true_eq]
    constructor
    · rintro ⟨row, ⟨member, left⟩, rfl⟩
      have := consistent.numbered row member
      dsimp only at low
      rcases left with ((none | isSummary) | isChunk) | late
      · omega
      · exact .inr isSummary
      · exact .inl isChunk
      · omega
    · intro member
      obtain ⟨-, -, row, stored, rfl, -⟩ := spec.chunks seq member.symm
      exact ⟨row, ⟨stored, by tauto⟩, rfl⟩

/-- A step keeps the tables consistent. -/
theorem Step.consistent {server next : Server}
    (step : Step limits server label next)
    (consistent : Consistent server.tables) : Consistent next.tables := by
  rcases step.tables with ⟨same, -⟩ | ⟨request, seq, -, inserted⟩ |
    ⟨request, nowUnix, id, -, committed⟩
  · rw [same]
    exact consistent
  · exact consistent.insertRecord inserted
  · exact consistent.commit committed

/-- A step takes neither the head nor the checkpoint back. -/
theorem Step.forward {server next : Server}
    (step : Step limits server label next) :
    headSeq server.tables ≤ headSeq next.tables ∧
      checkpointId server.tables ≤ checkpointId next.tables ∧
      checkpointUpto server.tables ≤ checkpointUpto next.tables := by
  rcases step.tables with ⟨same, -⟩ | ⟨request, seq, -, inserted⟩ |
    ⟨request, nowUnix, id, -, committed⟩
  · rw [same]
    exact ⟨le_rfl, le_rfl, le_rfl⟩
  · have grown := insertRecord_headSeq inserted
    obtain ⟨-, -, isNext⟩ := insertRecord_spec inserted
    refine ⟨by omega, ?_, ?_⟩ <;> rw [isNext] <;> exact le_rfl
  · have spec := commit_spec committed
    obtain ⟨chunkSeqs, -, isCheckpoint⟩ := spec.checkpoint
    refine ⟨?_, ?_, ?_⟩
    · rw [headSeq, headSeq, spec.head]
      cases server.tables.head <;> exact le_rfl
    · rw [checkpointId.eq_1 next.tables, isCheckpoint]
      exact spec.newId ▸ Nat.le_succ _
    · rw [checkpointUpto.eq_1 next.tables, isCheckpoint]
      exact spec.forward

/-! ## Runs -/

/-- The numbers that a run gives to new records, in the order of the replies. -/
def assigned (labels : List (Event × Reply)) : List Nat :=
  labels.filterMap fun label =>
    match label.2 with
    | .appended seq true => some seq
    | _ => none

theorem assigned_cons_of_ne
    (labels : List (Event × Reply))
    (other : ∀ seq, label.2 ≠ .appended seq true) :
    assigned (label :: labels) = assigned labels := by
  unfold assigned
  rw [List.filterMap_cons]
  split
  · rfl
  · next isSome =>
      split at isSome
      · next isNew => exact absurd isNew (other _)
      · cases isSome

variable {labels : List (Event × Reply)}

/-- A run numbers new records above the head it starts from, and every record that is
stored at its end was there at the start or has got its number in the run. -/
theorem assigned_of_run {server final : Server}
    (run : Run (Step limits) server labels final) :
    (assigned labels).Pairwise (· < ·) ∧ (∀ seq ∈ assigned labels, headSeq server.tables < seq) ∧
      ∀ row ∈ final.tables.log, row ∈ server.tables.log ∨ row.seq ∈ assigned labels := by
  induction run with
  | nil server => exact ⟨.nil, by simp [assigned], fun row member => .inl member⟩
  | @cons server next final label labels first rest inductionHypothesis =>
      obtain ⟨sorted, above, origin⟩ := inductionHypothesis
      have forward := first.forward.1
      rcases first.tables with ⟨same, notNew, -⟩ | ⟨request, seq, rfl, inserted⟩ |
        ⟨request, nowUnix, id, rfl, committed⟩
      · rw [assigned_cons_of_ne labels notNew]
        rw [same] at above origin
        exact ⟨sorted, above, origin⟩
      · have grown := insertRecord_headSeq inserted
        obtain ⟨isSeq, -, isNext⟩ := insertRecord_spec inserted
        have cons : assigned ((Event.resume (.insert request), Reply.appended seq true) :: labels) =
            seq :: assigned labels := rfl
        rw [cons]
        refine ⟨List.pairwise_cons.2 ⟨fun other member => ?_, sorted⟩, fun other member => ?_, ?_⟩
        · have := above other member
          omega
        · rcases List.mem_cons.1 member with rfl | member
          · omega
          · have := above other member
            omega
        · intro row member
          rcases origin row member with member | member
          · rw [isNext] at member
            rcases List.mem_append.1 member with member | member
            · exact .inl member
            · rw [List.mem_singleton.1 member]
              exact .inr List.mem_cons_self
          · exact .inr (List.mem_cons_of_mem _ member)
      · rw [assigned_cons_of_ne labels (by simp)]
        refine ⟨sorted, fun seq member => ?_, fun row member => ?_⟩
        · have := above seq member
          omega
        · rcases origin row member with member | member
          · rw [(commit_spec committed).log] at member
            exact .inl (List.mem_filter.1 member).1
          · exact .inr member

theorem consistent_of_run {final : Server}
    (run : Run (Step limits) {} labels final) : Consistent final.tables :=
  @Run.invariant _ _ _ (fun server : Server => Consistent server.tables) _ _ _ run
    (fun _ _ _ _ step => step.consistent) consistent_empty

theorem forward_of_run {server final : Server}
    (run : Run (Step limits) server labels final) :
    checkpointId server.tables ≤ checkpointId final.tables ∧
      checkpointUpto server.tables ≤ checkpointUpto final.tables := by
  induction run with
  | nil server => exact ⟨le_rfl, le_rfl⟩
  | cons first rest inductionHypothesis =>
      have forward := first.forward
      omega

/-- The checkpoint in the tables is the one that a step of the run has put there. -/
theorem checkpoint_of_run {final : Server}
    (run : Run (Step limits) {} labels final)
    {checkpoint : Checkpoint} (isCheckpoint : final.tables.checkpoint = some checkpoint) :
    ∃ request nowUnix, (.commit request nowUnix, .committed checkpoint.id) ∈ labels ∧
      checkpoint.uptoSeq = request.uptoSeq ∧ checkpoint.summarySeq = request.summarySeq ∧
      ∀ seq, seq ∈ checkpoint.chunkSeqs ↔ seq ∈ request.chunkSeqs := by
  refine @Run.invariant _ _ _ (fun server : Server => ∀ checkpoint,
    server.tables.checkpoint = some checkpoint -> ∃ request nowUnix,
      (.commit request nowUnix, .committed checkpoint.id) ∈ labels ∧
        checkpoint.uptoSeq = request.uptoSeq ∧ checkpoint.summarySeq = request.summarySeq ∧
        ∀ seq, seq ∈ checkpoint.chunkSeqs ↔ seq ∈ request.chunkSeqs)
    _ _ _ run ?_ (by simp) checkpoint isCheckpoint
  intro server next label member step known checkpoint isCheckpoint
  rcases step.tables with ⟨same, -⟩ | ⟨request, seq, -, inserted⟩ |
    ⟨request, nowUnix, id, rfl, committed⟩
  · exact known checkpoint (same ▸ isCheckpoint)
  · rw [(insertRecord_spec inserted).2.2] at isCheckpoint
    exact known checkpoint isCheckpoint
  · obtain ⟨chunkSeqs, same, put⟩ := (commit_spec committed).checkpoint
    rw [put] at isCheckpoint
    cases isCheckpoint
    exact ⟨request, nowUnix, member, rfl, rfl, same⟩

/-! ## Repeated appends -/

/-- What was asked for when a row was stored. -/
def Row.request (row : Row) : AppendRequest :=
  { opId := row.opId, aeadCiphertext := row.record, chunk := row.chunk }

theorem existing_of_stored {tables : Tables} {request : AppendRequest} {row : Row}
    (consistent : Consistent tables) (stored : row ∈ tables.log) (same : row.opId = request.opId) :
    existing tables request =
      if row.request = request then .ok (some row.seq) else .error .duplicate := by
  -- Identifiers are unique, so the search finds this very row.
  have found : tables.log.find? (fun other => other.opId == request.opId) = some row := by
    cases search : tables.log.find? (fun other => other.opId == request.opId) with
    | none =>
        have := List.find?_eq_none.1 search row stored
        simp [same] at this
    | some other =>
        have isOther : other.opId = request.opId := by simpa using List.find?_some search
        have unique : (tables.log.map Row.opId).Nodup := List.pairwise_map.2 consistent.named
        rw [List.inj_on_of_nodup_map unique (List.mem_of_find?_eq_some search) stored
          (isOther.trans same.symm)]
  rw [existing, found]
  dsimp only
  congr 1
  simp only [Bool.and_eq_true, beq_iff_eq, eq_iff_iff]
  constructor
  · intro equal
    cases request
    simp_all [Row.request]
  · intro equal
    rw [← equal]
    exact ⟨rfl, rfl⟩

def Call.request : Call -> AppendRequest
  | .insert request => request
  | .reread request => request

/-- Everything that is stored or under way has passed the checks of an append. -/
structure Checked (server : Server) : Prop where
  rows : ∀ row ∈ server.tables.log, checkAppend row.request = .ok ()
  calls : ∀ call ∈ server.calls, checkAppend call.request = .ok ()

theorem Checked.finish {server : Server}
    (checked : Checked server)
    (call : Call) : Checked (server.finish call) where
  rows := checked.rows
  calls other member := checked.calls other (List.mem_of_mem_erase member)

theorem Checked.appendNew {server : Server}
    (checked : Checked server)
    (request : AppendRequest) : Checked (appendNew server request).1 := by
  unfold HistoryServer.appendNew
  split
  · exact checked
  · exact checked
  · next searched =>
      obtain ⟨_, passed, -⟩ := (bind_eq_ok _ _ _).1 searched
      refine ⟨checked.rows, fun call member => ?_⟩
      rcases List.mem_cons.1 member with rfl | member
      · exact passed
      · exact checked.calls call member

theorem Checked.resume {server : Server}
    (checked : Checked server) {call : Call}
    (underWay : call ∈ server.calls) : Checked (resume limits server call).1 := by
  have passed := checked.calls call underWay
  have finished := checked.finish call
  cases call with
  | insert request =>
      simp only [HistoryServer.resume]
      split
      · exact finished
      · refine ⟨finished.rows, fun other member => ?_⟩
        rcases List.mem_cons.1 member with rfl | member
        · exact passed
        · exact finished.calls other member
      · next inserted =>
          refine ⟨fun row member => ?_, finished.calls⟩
          rw [(insertRecord_spec inserted).2.2] at member
          rcases List.mem_append.1 member with member | member
          · exact checked.rows row member
          · rw [List.mem_singleton.1 member]
            exact passed
  | reread request =>
      simp only [HistoryServer.resume]
      split <;> exact finished

theorem Step.checked {server next : Server}
    (step : Step limits server label next)
    (checked : Checked server) : Checked next := by
  obtain ⟨event, reply⟩ := label
  obtain ⟨possible, handled⟩ := step
  have isNext : next = (handle limits server event).1 := by rw [handled]
  rw [isNext]
  cases event with
  | append request => exact checked.appendNew request
  | resume call => exact checked.resume possible
  | fail call => exact checked.finish call
  | sync request =>
      simp only [handle]
      split <;> exact checked
  | get seqs =>
      simp only [handle]
      split <;> exact checked
  | head => exact checked
  | commit request nowUnix =>
      simp only [handle]
      split
      · exact checked
      · next committed =>
          refine ⟨fun row member => ?_, checked.calls⟩
          rw [(commit_spec committed).log] at member
          exact checked.rows row (List.mem_filter.1 member).1

theorem checked_of_run {final : Server}
    (run : Run (Step limits) {} labels final) : Checked final :=
  @Run.invariant _ _ _ Checked _ _ _ run (fun _ _ _ _ step => step.checked)
    ⟨by simp, by simp⟩

section

variable {server : Server} {row : Row}
  (consistent : Consistent server.tables) (stored : row ∈ server.tables.log)

include consistent stored

/-- A repeated append of a stored record gives its number and changes nothing. -/
theorem append_of_stored (checked : Checked server) :
    handle limits server (.append row.request) = (server, .appended row.seq false) := by
  have found : existing server.tables row.request = .ok (some row.seq) := by
    rw [existing_of_stored consistent stored rfl, if_pos rfl]
  have passed := checked.rows row stored
  simp only [handle, appendNew, passed, found, bind, Except.bind]

/-- The identifier of a stored record is refused with another content. -/
theorem append_of_other {request : AppendRequest}
    (same : row.opId = request.opId) (other : row.request ≠ request) :
    ∃ error, handle limits server (.append request) = (server, .refused error) := by
  have found : existing server.tables request = .error .duplicate := by
    rw [existing_of_stored consistent stored same, if_neg other]
  cases passed : checkAppend request with
  | error error =>
      refine ⟨error, ?_⟩
      simp only [handle, appendNew, passed, bind, Except.bind]
  | ok _ =>
      refine ⟨.duplicate, ?_⟩
      simp only [handle, appendNew, passed, found, bind, Except.bind]

/-- A repetition that was not seen at first is found after its transaction. -/
theorem reread_of_stored :
    handle limits server (.resume (.reread row.request)) =
      (server.finish (.reread row.request), .appended row.seq false) := by
  have found : existing server.tables row.request = .ok (some row.seq) := by
    rw [existing_of_stored consistent stored rfl, if_pos rfl]
  simp only [handle, resume, found]

omit consistent in
theorem insert_of_stored {request : AppendRequest}
    (same : row.opId = request.opId) :
    (handle limits server (.resume (.insert request))).1.tables = server.tables := by
  simp only [handle, resume]
  rcases insertRecord_of_stored stored same with none | ⟨error, refused⟩
  · rw [none]
    rfl
  · rw [refused]
    rfl

end

/-- Whatever a commit is refused for, it changes nothing; another expected checkpoint is
such a reason. -/
theorem commit_refused {server : Server} {request : CommitRequest}
    (stale : request.expectedCheckpointId ≠ checkpointId server.tables) :
    ∃ error, handle limits server (.commit request nowUnix) = (server, .refused error) := by
  cases committed : commit server.tables request nowUnix with
  | error error =>
      refine ⟨error, ?_⟩
      simp only [handle, committed]
  | ok result => exact absurd (commit_spec committed).expected.symm stale

theorem Step.refused_commit {server next : Server} {request : CommitRequest} {error : ErrorCode}
    (step : Step limits server (.commit request nowUnix, .refused error) next) : next = server := by
  obtain ⟨-, handled⟩ := step
  simp only [handle] at handled
  split at handled <;> cases handled
  rfl

/-- In every run the numbers of new records grow and are never given twice, the counters
are those of the stored records, below the checkpoint exactly what was committed is left,
and the checkpoint never goes back.  A refused commit changes nothing.  A repeated append
of a stored identifier changes no table, and gives the number if the record is the same. -/
theorem history_log_run
    {limits : HistoryLimits}
    {labels : List (Event × Reply)}
    {final : Server}
    (run : Run (Step limits) {} labels final) :
    ((assigned labels).Pairwise (· < ·) ∧
      (final.tables.log.map Row.seq).Pairwise (· < ·) ∧
      ∀ row ∈ final.tables.log, row.seq ∈ assigned labels) ∧
    counters final.tables = (final.tables.log.length,
      (final.tables.log.map fun row => row.record.length).sum) ∧
    (∀ checkpoint, final.tables.checkpoint = some checkpoint ->
      (∃ request nowUnix, (.commit request nowUnix, .committed checkpoint.id) ∈ labels ∧
        checkpoint.uptoSeq = request.uptoSeq ∧ checkpoint.summarySeq = request.summarySeq ∧
        ∀ seq, seq ∈ checkpoint.chunkSeqs ↔ seq ∈ request.chunkSeqs) ∧
      ∀ seq ≤ checkpoint.uptoSeq, seq ∈ final.tables.log.map Row.seq ↔
        seq ∈ checkpoint.chunkSeqs ∨ seq = checkpoint.summarySeq) ∧
    (∀ before after middle, labels = before ++ after -> Run (Step limits) {} before middle ->
      Run (Step limits) middle after final ->
        checkpointId middle.tables ≤ checkpointId final.tables ∧
          checkpointUpto middle.tables ≤ checkpointUpto final.tables) ∧
    (∀ request nowUnix,
      (request.expectedCheckpointId ≠ checkpointId final.tables ->
        ∃ error, handle limits final (.commit request nowUnix) = (final, .refused error)) ∧
      ∀ error next, Step limits final (.commit request nowUnix, .refused error) next ->
        next = final) ∧
    ∀ row ∈ final.tables.log,
      handle limits final (.append row.request) = (final, .appended row.seq false) ∧
      handle limits final (.resume (.reread row.request)) =
        (final.finish (.reread row.request), .appended row.seq false) ∧
      ∀ request, request.opId = row.opId ->
        (request ≠ row.request ->
          ∃ error, handle limits final (.append request) = (final, .refused error)) ∧
        (handle limits final (.resume (.insert request))).1.tables = final.tables := by
  have consistent := consistent_of_run run
  have checked := checked_of_run run
  obtain ⟨sorted, -, origin⟩ := assigned_of_run run
  refine ⟨⟨sorted, List.pairwise_map.2 consistent.ordered, fun row member => ?_⟩,
    consistent.counted, fun checkpoint isCheckpoint => ?_, ?_, fun request nowUnix => ?_,
    fun row stored => ?_⟩
  · rcases origin row member with none | member
    · cases none
    · exact member
  · exact ⟨checkpoint_of_run run isCheckpoint, consistent.compacted checkpoint isCheckpoint⟩
  · intro before after middle _ _ rest
    exact forward_of_run rest
  · exact ⟨commit_refused, fun error next step => step.refused_commit⟩
  · refine ⟨append_of_stored consistent stored checked, reread_of_stored consistent stored,
      fun request same => ⟨fun other => ?_, insert_of_stored stored same.symm⟩⟩
    exact append_of_other consistent stored same.symm other.symm

/-- The next state, if the reply is the given one. -/
def advance (limits : HistoryLimits) (server : Server) (label : Event × Reply) : Option Server :=
  if label.1.possible server ∧ (handle limits server label.1).2 = label.2 then
    some (handle limits server label.1).1
  else none

theorem run_of_advance {server final : Server}
    (computed : labels.foldlM (advance limits) server = some final) :
    Run (Step limits) server labels final := by
  refine Run.of_foldlM (fun state label later advanced => ?_) computed
  unfold advance at advanced
  split at advanced
  · next allowed =>
      cases advanced
      exact ⟨allowed.1, Prod.ext rfl allowed.2⟩
  · cases advanced

/-- The limits, an identifier and requests of a small log. -/
def sampleLimits : HistoryLimits := { maxRecords := 10, maxBytes := 1000 }

def sampleOpId (last : UInt8) : Wire.Bytes :=
  [0, 0, 0, 0, 0, 0, 112, 0, 0, 0, 0, 0, 0, 0, 0, last]

def sampleRequest (last : UInt8) (chunk : Bool) : AppendRequest :=
  { opId := sampleOpId last, aeadCiphertext := List.replicate 28 last, chunk }

/-- A record and a summary are appended, then the summary replaces the record. -/
def sampleLabels : List (Event × Reply) :=
  [(.append (sampleRequest 1 false), .underWay),
    (.resume (.insert (sampleRequest 1 false)), .appended 1 true),
    (.append (sampleRequest 2 true), .underWay),
    (.resume (.insert (sampleRequest 2 true)), .appended 2 true),
    (.commit { expectedCheckpointId := 0, uptoSeq := 2, summarySeq := 2, chunkSeqs := [] } 5,
      .committed 1)]

def sampleFinal : Server :=
  { tables :=
      { log := [(sampleRequest 2 true).row 2]
        head := some { nextSeq := 2, records := 1, bytes := 28 }
        checkpoint := some
          { id := 1, uptoSeq := 2, summarySeq := 2, chunkSeqs := [], createdMs := 5000 } } }

theorem history_log_run_sample :
    counters sampleFinal.tables = (1, 28) ∧ assigned sampleLabels = [1, 2] ∧
      handle sampleLimits sampleFinal (.append (sampleRequest 2 true)) =
        (sampleFinal, .appended 2 false) := by
  have run : Run (Step sampleLimits) {} sampleLabels sampleFinal :=
    run_of_advance (by decide +kernel)
  have all := history_log_run run
  exact ⟨all.2.1, rfl, (all.2.2.2.2.2 ((sampleRequest 2 true).row 2) (by decide)).1⟩

/-- An append of a stored identifier does not always give its number: another ciphertext
is refused. -/
theorem append_stored_refused :
    ¬ ∀ (limits : HistoryLimits) (labels : List (Event × Reply)) (final : Server),
      Run (Step limits) {} labels final -> ∀ row ∈ final.tables.log, ∀ request,
        request.opId = row.opId ->
          (handle limits final (.append request)).2 = .appended row.seq false := by
  intro always
  have run : Run (Step sampleLimits) {} sampleLabels sampleFinal :=
    run_of_advance (by decide +kernel)
  have number := always sampleLimits sampleLabels sampleFinal run ((sampleRequest 2 true).row 2)
    (by decide) { sampleRequest 2 true with aeadCiphertext := List.replicate 28 3 } rfl
  revert number
  decide +kernel

end Parvane.HistoryServer
