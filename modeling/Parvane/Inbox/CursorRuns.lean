import Parvane.Inbox.Cursor
import Mathlib.Data.List.Count

/-!
# Runs of the cursor

A client tells the cursor of every record it applied, of every attempt that failed and of
the numbers the server passed over.  What it told so far accounts for every number the
cursor has moved over.
-/

namespace Parvane.Inbox

/-- What a client tells the cursor. -/
inductive Mark
  | applied (seq : Nat)
  | failed (seq : Nat)
  | gapUntil (pageSeqs : List Nat) (upto : Nat)
  deriving DecidableEq, Repr

/-- The greatest number a mark is about. -/
def Mark.top : Mark -> Nat
  | .applied seq => seq
  | .failed seq => seq
  | .gapUntil _ upto => upto

/-- The marks that let the cursor pass a number. -/
def Accounted (marks : List Mark) (seq : Nat) : Prop :=
  .applied seq ∈ marks ∨ maxAttempts ≤ marks.count (.failed seq) ∨
    ∃ pageSeqs upto, .gapUntil pageSeqs upto ∈ marks ∧ seq ≤ upto ∧ seq ∉ pageSeqs

theorem Accounted.append {marks : List Mark} {seq : Nat}
    (accounted : Accounted marks seq)
    (later : List Mark) : Accounted (marks ++ later) seq := by
  rcases accounted with applied | failed | ⟨pageSeqs, upto, gap, inside⟩
  · exact .inl (List.mem_append_left _ applied)
  · refine .inr (.inl ?_)
    rw [List.count_append]
    omega
  · exact .inr (.inr ⟨pageSeqs, upto, List.mem_append_left _ gap, inside⟩)

theorem Accounted.le_top {marks : List Mark} {seq : Nat}
    (accounted : Accounted marks seq) : ∃ mark ∈ marks, seq ≤ mark.top := by
  rcases accounted with applied | failed | ⟨pageSeqs, upto, gap, low, -⟩
  · exact ⟨_, applied, le_rfl⟩
  · have member : Mark.failed seq ∈ marks := by
      apply List.count_pos_iff.1
      rw [maxAttempts] at failed
      omega
    exact ⟨_, member, le_rfl⟩
  · exact ⟨_, gap, low⟩

namespace Cursor

def mark (cursor : Cursor) : Mark -> Cursor
  | .applied seq => cursor.markApplied seq
  | .failed seq => (cursor.markFailed seq).1
  | .gapUntil pageSeqs upto => cursor.markGapUntil pageSeqs upto

/-- The numbers that marking a gap makes done. -/
theorem markGapUntil_isDone_iff (cursor : Cursor) (pageSeqs : List Nat) (upto seq : Nat) :
    (cursor.markGapUntil pageSeqs upto).isDone seq = true ↔
      cursor.isDone seq = true ∨ seq ≤ upto ∧ seq ∉ pageSeqs := by
  rw [markGapUntil, settle_isDone_iff]
  simp only [isDone_iff, Finset.mem_union, List.mem_toFinset, List.mem_filter,
    List.mem_range'_1, Bool.not_eq_true', List.contains_eq_mem, decide_eq_false_iff_not]
  by_cases passed : seq ≤ cursor.applied
  · simp [passed]
  · have inside : cursor.applied + 1 ≤ seq ∧
        seq < cursor.applied + 1 + (upto - cursor.applied) ↔ seq ≤ upto := by omega
    rw [inside, or_assoc]

/-- No mark takes a number back. -/
theorem isDone_mark {cursor : Cursor} {seq : Nat}
    (done : cursor.isDone seq = true)
    (mark : Mark) : (cursor.mark mark).isDone seq = true := by
  cases mark with
  | applied other => exact (markApplied_isDone_iff cursor other seq).2 (.inr done)
  | failed other => exact isDone_markFailed done
  | gapUntil pageSeqs upto => exact (markGapUntil_isDone_iff cursor pageSeqs upto seq).2 (.inl done)

/-- A settled cursor moves on when more is done. -/
theorem Settled.diskValue_le {cursor later : Cursor}
    (settled : later.Settled) (keeps : ∀ seq, cursor.isDone seq = true -> later.isDone seq = true) :
    cursor.diskValue ≤ later.diskValue := by
  rw [diskValue, diskValue, settled.le_applied_iff]
  intro seq low
  exact keeps seq ((isDone_iff cursor seq).2 (.inl low))

/-! ## What settling leaves alone -/

theorem settleRounds_attempts
    (rounds : Nat) (cursor : Cursor) {seq : Nat} (waiting : ¬ cursor.isDone seq = true) :
    (settleRounds rounds cursor).attempts.getD seq 0 = cursor.attempts.getD seq 0 := by
  induction rounds generalizing cursor with
  | zero => rfl
  | succ rounds inductionHypothesis =>
      rw [settleRounds]
      split
      · next ahead =>
          rw [inductionHypothesis _ (by rwa [next_isDone_iff ahead])]
          have other : cursor.applied + 1 ≠ seq := by
            rintro rfl
            exact waiting ((isDone_iff cursor _).2 (.inr ahead))
          simp [next, Std.ExtTreeMap.getD_erase, other]
      · rfl

theorem settleRounds_skipped (rounds : Nat) (cursor : Cursor) :
    (settleRounds rounds cursor).skipped = cursor.skipped := by
  induction rounds generalizing cursor with
  | zero => rfl
  | succ rounds inductionHypothesis =>
      rw [settleRounds]
      split
      · exact inductionHypothesis _
      · rfl

@[simp] theorem settle_skipped (cursor : Cursor) : cursor.settle.skipped = cursor.skipped :=
  settleRounds_skipped _ cursor

/-! ## What the marks so far account for -/

/-- The cursor after some marks, on a device that had `start` on disk. -/
structure Reached (start : Nat) (marks : List Mark) (cursor : Cursor) : Prop where
  settled : cursor.Settled
  done : ∀ seq, cursor.isDone seq = true -> seq ≤ start ∨ Accounted marks seq
  attempts : ∀ seq, ¬ cursor.isDone seq = true ->
    cursor.attempts.getD seq 0 ≤ marks.count (.failed seq)
  skipped : ∀ seq ∈ cursor.skipped, cursor.isDone seq = true
  once : cursor.skipped.Nodup

namespace Reached

variable {start : Nat} {marks : List Mark} {cursor : Cursor}

theorem fromDisk (start : Nat) : Reached start [] (fromDisk start) where
  settled := fromDisk_settled start
  done seq done := by
    rcases (isDone_iff _ seq).1 done with low | ahead
    · exact .inl low
    · simp [Cursor.fromDisk] at ahead
  attempts := by simp [Cursor.fromDisk]
  skipped := by simp [Cursor.fromDisk]
  once := by simp [Cursor.fromDisk]

section

variable (reached : Reached start marks cursor)

include reached

/-- What was done before, later marks still account for. -/
theorem accounted
    {seq : Nat} (done : cursor.isDone seq = true)
    (later : List Mark) : seq ≤ start ∨ Accounted (marks ++ later) seq :=
  (reached.done seq done).imp_right fun accounted => accounted.append later

theorem markApplied (seq : Nat) :
    Reached start (marks ++ [.applied seq]) (cursor.markApplied seq) := by
  have attempts (other : Nat) (waiting : ¬ (cursor.markApplied seq).isDone other = true) :
      (cursor.markApplied seq).attempts.getD other 0 = cursor.attempts.getD other 0 := by
    have before := waiting
    rw [markApplied_isDone_iff, not_or] at before
    unfold Cursor.markApplied at waiting ⊢
    split
    · rfl
    · rw [settle, settleRounds_attempts]
      · simp [Std.ExtTreeMap.getD_erase, Ne.symm before.1]
      · simpa [isDone_iff, before.1] using before.2
  have skipped : (cursor.markApplied seq).skipped = cursor.skipped := by
    unfold Cursor.markApplied
    split
    · rfl
    · exact settle_skipped _
  refine ⟨reached.settled.markApplied seq, fun other done => ?_, fun other waiting => ?_, ?_, ?_⟩
  · rcases (markApplied_isDone_iff cursor seq other).1 done with rfl | before
    · exact .inr (.inl (by simp))
    · exact reached.accounted before _
  · rw [attempts other waiting, List.count_append]
    have before := reached.attempts other fun done =>
      waiting ((markApplied_isDone_iff cursor seq other).2 (.inr done))
    omega
  · rw [skipped]
    exact fun other member =>
      (markApplied_isDone_iff cursor seq other).2 (.inr (reached.skipped other member))
  · rw [skipped]
    exact reached.once

theorem markGapUntil
    (pageSeqs : List Nat) (upto : Nat) :
    Reached start (marks ++ [.gapUntil pageSeqs upto]) (cursor.markGapUntil pageSeqs upto) := by
  have done (seq : Nat) := markGapUntil_isDone_iff cursor pageSeqs upto seq
  refine ⟨settle_settled _, fun seq now => ?_, fun seq waiting => ?_, fun seq member => ?_, ?_⟩
  · rcases (done seq).1 now with before | ⟨low, absent⟩
    · exact reached.accounted before _
    · exact .inr (.inr (.inr ⟨pageSeqs, upto, by simp, low, absent⟩))
  · have before := waiting
    rw [done, not_or] at before
    rw [Cursor.markGapUntil, settle_isDone_iff] at waiting
    rw [Cursor.markGapUntil, settle, settleRounds_attempts _ _ waiting, List.count_append]
    exact (reached.attempts seq before.1).trans (Nat.le_add_right _ _)
  · rw [Cursor.markGapUntil, settle_skipped] at member
    exact (done seq).2 (.inl (reached.skipped seq member))
  · rw [Cursor.markGapUntil, settle_skipped]
    exact reached.once

theorem markFailed (seq : Nat) :
    Reached start (marks ++ [.failed seq]) (cursor.markFailed seq).1 := by
  have settled := reached.settled.markFailed seq
  unfold Cursor.markFailed at settled ⊢
  split
  · -- The number was done before: nothing happens.
    exact ⟨reached.settled, fun other done => reached.accounted done _,
      fun other waiting => (reached.attempts other waiting).trans (by simp), reached.skipped,
      reached.once⟩
  next waiting =>
  have few := reached.attempts seq waiting
  dsimp only at settled ⊢
  split
  · -- The last attempt: the number is given up, for the first time.
    next many =>
    refine ⟨settle_settled _, fun other done => ?_, fun other still => ?_, ?_, ?_⟩
    · rw [settle_isDone_iff, isDone_iff, Finset.mem_insert, or_left_comm] at done
      rcases done with rfl | before
      · refine .inr (.inr (.inl ?_))
        rw [List.count_append, List.count_singleton_self]
        omega
      · exact reached.accounted ((isDone_iff cursor other).2 before) _
    · rw [settle_isDone_iff] at still
      rw [settle, settleRounds_attempts _ _ still, List.count_append]
      rw [isDone_iff, Finset.mem_insert, or_left_comm, not_or] at still
      have before := reached.attempts other fun done =>
        still.2 ((isDone_iff cursor other).1 done)
      simp only [Std.ExtTreeMap.getD_erase, Nat.compare_eq_eq, Ne.symm still.1, if_false]
      omega
    · intro other member
      rw [settle_skipped, List.mem_append, List.mem_singleton] at member
      rw [settle_isDone_iff, isDone_iff, Finset.mem_insert, or_left_comm]
      exact member.symm.imp_right fun before =>
        (isDone_iff cursor other).1 (reached.skipped other before)
    · rw [settle_skipped]
      refine List.nodup_append.2 ⟨reached.once, List.nodup_singleton seq, ?_⟩
      rintro other before same member rfl
      exact waiting (List.mem_singleton.1 member ▸ reached.skipped other before)
  · -- One more attempt is counted.
    refine ⟨reached.settled, fun other done => reached.accounted done _, fun other still => ?_,
      reached.skipped, reached.once⟩
    rw [List.count_append, Std.ExtTreeMap.getD_insert]
    split
    · next same =>
        cases Nat.compare_eq_eq.1 same
        rw [List.count_singleton_self]
        omega
    · exact (reached.attempts other still).trans (Nat.le_add_right _ _)

theorem mark (mark : Mark) : Reached start (marks ++ [mark]) (cursor.mark mark) := by
  cases mark with
  | applied seq => exact reached.markApplied seq
  | failed seq => exact reached.markFailed seq
  | gapUntil pageSeqs upto => exact reached.markGapUntil pageSeqs upto

theorem foldl_mark
    (later : List Mark) : Reached start (marks ++ later) (later.foldl Cursor.mark cursor) := by
  induction later generalizing marks cursor with
  | nil => simpa using reached
  | cons mark later inductionHypothesis =>
      rw [List.foldl_cons, List.append_cons]
      exact inductionHypothesis (reached.mark mark)

end

end Reached

/-! ## Whole runs -/

/-- The cursor that was read from disk and told of some records. -/
def afterMarks (start : Nat) (marks : List Mark) : Cursor :=
  marks.foldl mark (fromDisk start)

theorem reached_afterMarks (start : Nat) (marks : List Mark) :
    Reached start marks (afterMarks start marks) :=
  (Reached.fromDisk start).foldl_mark marks

theorem diskValue_le_afterMarks
    (start : Nat) {before marks : List Mark} (earlier : before <+: marks) :
    (afterMarks start before).diskValue ≤ (afterMarks start marks).diskValue := by
  obtain ⟨later, rfl⟩ := earlier
  apply (reached_afterMarks start (before ++ later)).settled.diskValue_le
  intro seq done
  rw [afterMarks, List.foldl_append, ← afterMarks]
  exact later.foldlRecOn mark (motive := fun cursor => cursor.isDone seq = true) done
    fun cursor done next _ => isDone_mark done next

theorem foldl_markApplied_isDone_iff (cursor : Cursor) (seqs : List Nat) (seq : Nat) :
    (seqs.foldl markApplied cursor).isDone seq = true ↔
      seq ∈ seqs ∨ cursor.isDone seq = true := by
  induction seqs generalizing cursor with
  | nil => simp
  | cons first seqs inductionHypothesis =>
      rw [List.foldl_cons, inductionHypothesis, markApplied_isDone_iff, List.mem_cons]
      tauto

theorem Settled.foldl_markApplied {cursor : Cursor}
    (settled : cursor.Settled)
    (seqs : List Nat) : (seqs.foldl Cursor.markApplied cursor).Settled :=
  seqs.foldlRecOn Cursor.markApplied settled fun _ settled seq _ => settled.markApplied seq

/-- Where the cursor ends does not depend on the order in which the records were applied. -/
theorem Settled.diskValue_foldl_markApplied {cursor : Cursor}
    (settled : cursor.Settled) {seqs others : List Nat} (same : ∀ seq, seq ∈ seqs ↔ seq ∈ others) :
    (seqs.foldl Cursor.markApplied cursor).diskValue =
      (others.foldl Cursor.markApplied cursor).diskValue := by
  apply le_antisymm
  · apply (settled.foldl_markApplied others).diskValue_le
    intro seq
    simp only [foldl_markApplied_isDone_iff, same, imp_self]
  · apply (settled.foldl_markApplied seqs).diskValue_le
    intro seq
    simp only [foldl_markApplied_isDone_iff, same, imp_self]

/-- The value on disk moves over accounted numbers only, up to the first gap, and only
forward.  It stays below the greatest number of its type, so that looking at the next
number does not overflow. -/
theorem afterMarks_safe
    (start : Nat)
    (startsLow : start < 2 ^ 64 - 1)
    (marks : List Mark)
    (inRange : ∀ mark ∈ marks, mark.top < 2 ^ 64 - 1) :
    (∀ before, before <+: marks ->
      (afterMarks start before).diskValue ≤ (afterMarks start marks).diskValue) ∧
    (∀ seq, start < seq -> seq ≤ (afterMarks start marks).diskValue -> Accounted marks seq) ∧
    (afterMarks start marks).applied + 1 ∉ (afterMarks start marks).doneAhead ∧
    (afterMarks start marks).skipped.Nodup ∧
    (afterMarks start marks).diskValue < 2 ^ 64 - 1 ∧
    ∀ seqs others : List Nat, (∀ seq, seq ∈ seqs ↔ seq ∈ others) ->
      (seqs.foldl markApplied (afterMarks start marks)).diskValue =
        (others.foldl markApplied (afterMarks start marks)).diskValue := by
  have reached := reached_afterMarks start marks
  have passed (seq : Nat) (low : seq ≤ (afterMarks start marks).diskValue) :
      seq ≤ start ∨ Accounted marks seq :=
    reached.done seq ((isDone_iff _ seq).2 (.inl low))
  refine ⟨fun before earlier => diskValue_le_afterMarks start earlier, fun seq high low => ?_,
    reached.settled, reached.once, ?_, fun seqs others same => ?_⟩
  · exact (passed seq low).resolve_left (Nat.not_le.2 high)
  · rcases passed _ le_rfl with low | accounted
    · omega
    · obtain ⟨mark, member, below⟩ := accounted.le_top
      exact lt_of_le_of_lt below (inRange mark member)
  · exact reached.settled.diskValue_foldl_markApplied same

/-- A record is applied ahead, one fails three times, and the server hides one. -/
theorem afterMarks_safe_sample :
    (afterMarks 4 [.applied 6, .failed 5, .failed 5, .failed 5, .gapUntil [8] 8]).diskValue <
      2 ^ 64 - 1 := by
  have safe := afterMarks_safe 4 (by decide)
    [.applied 6, .failed 5, .failed 5, .failed 5, .gapUntil [8] 8] (by decide)
  exact safe.2.2.2.2.1

end Cursor

end Parvane.Inbox
