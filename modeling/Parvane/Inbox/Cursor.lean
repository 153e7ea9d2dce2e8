import Mathlib.Algebra.Order.Ring.Int
import Mathlib.Data.Finset.Card
import Mathlib.Data.Finset.Dedup
import Std.Data.ExtTreeMap.Lemmas

/-!
# The cursor of a log

A client remembers up to which number it has applied the records of a log.  The number
that goes to disk moves over applied records only, and only without gaps; numbers that
were applied behind a gap wait for it to close.
-/

namespace Parvane.Inbox

def pageBudget : Nat := 716800
def maxAttempts : Nat := 3

structure Cursor where
  /-- Everything up to here is applied or given up. -/
  applied : Nat := 0
  /-- Applied numbers with a gap before them. -/
  doneAhead : Finset Nat := ∅
  attempts : Std.ExtTreeMap Nat Nat := ∅
  skipped : List Nat := []

inductive FailOutcome
  | retry
  | skipped
  deriving DecidableEq, Repr

structure InboxSyncRequest where
  afterSeq : Nat
  maxBytes : Nat
  deriving DecidableEq, Repr

namespace Cursor

def fromDisk (applied : Nat) : Cursor := { applied }

def diskValue (cursor : Cursor) : Nat := cursor.applied

def nextRequest (cursor : Cursor) : InboxSyncRequest :=
  { afterSeq := cursor.applied, maxBytes := pageBudget }

def isDone (cursor : Cursor) (seq : Nat) : Bool :=
  seq ≤ cursor.applied || seq ∈ cursor.doneAhead

/-- Move over one number that is done. -/
def next (cursor : Cursor) : Cursor :=
  { cursor with
    applied := cursor.applied + 1
    doneAhead := cursor.doneAhead.erase (cursor.applied + 1)
    attempts := cursor.attempts.erase (cursor.applied + 1) }

/-- Every round takes a number out, so their count bounds the rounds. -/
def settleRounds : Nat -> Cursor -> Cursor
  | 0, cursor => cursor
  | rounds + 1, cursor =>
      if cursor.applied + 1 ∈ cursor.doneAhead then settleRounds rounds cursor.next else cursor

def settle (cursor : Cursor) : Cursor :=
  settleRounds cursor.doneAhead.card cursor

def markApplied (cursor : Cursor) (seq : Nat) : Cursor :=
  if seq ≤ cursor.applied then cursor
  else
    settle
      { cursor with
        doneAhead := insert seq cursor.doneAhead
        attempts := cursor.attempts.erase seq }

def markFailed (cursor : Cursor) (seq : Nat) : Cursor × FailOutcome :=
  if cursor.isDone seq then (cursor, .skipped)
  else
    let attempt := cursor.attempts.getD seq 0 + 1
    if maxAttempts ≤ attempt then
      (settle
        { cursor with
          attempts := cursor.attempts.erase seq
          skipped := cursor.skipped ++ [seq]
          doneAhead := insert seq cursor.doneAhead },
        .skipped)
    else ({ cursor with attempts := cursor.attempts.insert seq attempt }, .retry)

/-- Numbers that are not on a page count as passed. -/
def markGapUntil (cursor : Cursor) (pageSeqs : List Nat) (upto : Nat) : Cursor :=
  settle
    { cursor with
      doneAhead := cursor.doneAhead ∪
        ((List.range' (cursor.applied + 1) (upto - cursor.applied)).filter fun seq =>
          !pageSeqs.contains seq).toFinset }

/-! ## What is done -/

theorem isDone_iff (cursor : Cursor) (seq : Nat) :
    cursor.isDone seq = true ↔ seq ≤ cursor.applied ∨ seq ∈ cursor.doneAhead := by
  simp [isDone]

/-- No number right after the cursor is waiting. -/
def Settled (cursor : Cursor) : Prop :=
  cursor.applied + 1 ∉ cursor.doneAhead

variable {cursor : Cursor}

/-- A settled cursor stands before the first number that is not done. -/
theorem Settled.le_applied_iff
    (settled : cursor.Settled) (seq : Nat) :
    seq ≤ cursor.applied ↔ ∀ earlier ≤ seq, cursor.isDone earlier = true := by
  constructor
  · intro low earlier isEarlier
    rw [isDone_iff]
    exact .inl (isEarlier.trans low)
  · intro done
    by_contra high
    have first := done (cursor.applied + 1) (by omega)
    rw [isDone_iff] at first
    rcases first with low | ahead
    · omega
    · exact settled ahead

theorem next_isDone_iff
    (ahead : cursor.applied + 1 ∈ cursor.doneAhead) (seq : Nat) :
    cursor.next.isDone seq = true ↔ cursor.isDone seq = true := by
  simp only [isDone_iff, next, Finset.mem_erase]
  constructor
  · rintro (low | ⟨-, member⟩)
    · rcases Nat.lt_or_ge cursor.applied seq with high | low
      · rw [show seq = cursor.applied + 1 by omega]
        exact .inr ahead
      · exact .inl low
    · exact .inr member
  · rintro (low | member)
    · exact .inl (by omega)
    · by_cases isNext : seq = cursor.applied + 1
      · exact .inl (by omega)
      · exact .inr ⟨isNext, member⟩

/-- Settling changes where the cursor stands, not what is done. -/
theorem settleRounds_isDone_iff
    (rounds : Nat) (cursor : Cursor) (seq : Nat) :
    (settleRounds rounds cursor).isDone seq = true ↔ cursor.isDone seq = true := by
  induction rounds generalizing cursor with
  | zero => rfl
  | succ rounds inductionHypothesis =>
      rw [settleRounds]
      split
      · next ahead => rw [inductionHypothesis, next_isDone_iff ahead]
      · rfl

theorem settleRounds_settled
    (rounds : Nat) (cursor : Cursor)
    (enough : cursor.doneAhead.card ≤ rounds) : (settleRounds rounds cursor).Settled := by
  induction rounds generalizing cursor with
  | zero =>
      have empty := Finset.card_eq_zero.1 (Nat.le_zero.1 enough)
      simp [settleRounds, Settled, empty]
  | succ rounds inductionHypothesis =>
      rw [settleRounds]
      split
      · next ahead =>
          apply inductionHypothesis
          have := Finset.card_erase_of_mem ahead
          simp only [next]
          omega
      · next settled => exact settled

@[simp] theorem settle_isDone_iff (cursor : Cursor) (seq : Nat) :
    cursor.settle.isDone seq = true ↔ cursor.isDone seq = true :=
  settleRounds_isDone_iff _ cursor seq

theorem settle_settled (cursor : Cursor) : cursor.settle.Settled :=
  settleRounds_settled _ cursor le_rfl

theorem fromDisk_settled (applied : Nat) : (fromDisk applied).Settled := by
  simp [fromDisk, Settled]

theorem Settled.markApplied
    (settled : cursor.Settled)
    (seq : Nat) : (cursor.markApplied seq).Settled := by
  unfold Cursor.markApplied
  split
  · exact settled
  · exact settle_settled _

theorem Settled.markFailed
    (settled : cursor.Settled)
    (seq : Nat) : (cursor.markFailed seq).1.Settled := by
  unfold Cursor.markFailed
  split
  · exact settled
  · dsimp only
    split
    · exact settle_settled _
    · exact settled

/-- Applying a record makes its number done, and no other. -/
@[simp] theorem markApplied_isDone_iff (cursor : Cursor) (seq other : Nat) :
    (cursor.markApplied seq).isDone other = true ↔
      other = seq ∨ cursor.isDone other = true := by
  unfold markApplied
  split
  · next low =>
      refine ⟨.inr, ?_⟩
      rintro (rfl | done)
      · exact (isDone_iff cursor other).2 (.inl low)
      · exact done
  · rw [settle_isDone_iff]
    simp only [isDone_iff, Finset.mem_insert]
    tauto

/-- A failed attempt makes at most this number done. -/
theorem isDone_of_markFailed {seq other : Nat}
    (done : (cursor.markFailed seq).1.isDone other = true) :
    other = seq ∨ cursor.isDone other = true := by
  unfold markFailed at done
  split at done
  · exact .inr done
  · dsimp only at done
    split at done
    · rw [settle_isDone_iff] at done
      simp only [isDone_iff, Finset.mem_insert] at done ⊢
      tauto
    · exact .inr done

/-- A failed attempt takes nothing back. -/
theorem isDone_markFailed {seq other : Nat}
    (done : cursor.isDone other = true) : (cursor.markFailed seq).1.isDone other = true := by
  unfold markFailed
  split
  · exact done
  · dsimp only
    split
    · rw [settle_isDone_iff]
      simp only [isDone_iff, Finset.mem_insert] at done ⊢
      tauto
    · exact done

end Cursor

end Parvane.Inbox
