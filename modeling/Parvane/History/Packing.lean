import Parvane.History.Sealing

/-!
# Operations in batches

The size of a batch is added up from what its operations take, and never measured.  The sum is the
length of the batch all the same, so nothing is lost or too long, and no batch is empty.
-/

namespace Parvane

open Codec

namespace History

open Wire State

section

variable {deviceId : String} {tsMs : Int64} {head used : Nat} {current ops : List HistoryOp}
  {batches : List HistoryBatch}

theorem packFrom_ne_nil
    (packed : packFrom deviceId tsMs head current used ops = .ok batches) :
    ∀ batch ∈ batches, batch.ops ≠ [] := by
  induction ops generalizing current used batches with
  | nil =>
      rw [packFrom] at packed
      cases packed
      intro batch member
      split at member
      · cases member
      · next nonempty =>
          cases List.mem_singleton.1 member
          exact fun empty => nonempty (List.isEmpty_iff.2 empty)
  | cons op ops inductionHypothesis =>
      rw [packFrom] at packed
      split at packed
      · cases packed
      · split at packed
        · next full =>
            obtain ⟨later, packedLater, isBatches⟩ := (bind_eq_ok _ _ _).1 packed
            cases isBatches
            rw [Bool.and_eq_true, Bool.not_eq_true'] at full
            refine List.forall_mem_cons.2 ⟨?_, inductionHypothesis packedLater⟩
            exact List.isEmpty_eq_false_iff.1 full.1
        · exact inductionHypothesis packed

/-- Only an operation that is too long for an empty batch is refused. -/
theorem packFrom_eq_error_iff {error : ProtoError} :
    packFrom deviceId tsMs head current used ops = .error error ↔
      error = .fieldLimit "op" ∧ ∃ op ∈ ops, batchBudget < head + cost op := by
  induction ops generalizing current used with
  | nil =>
      rw [packFrom]
      constructor
      · intro refused
        cases refused
      · rintro ⟨-, op, member, -⟩
        cases member
  | cons op ops inductionHypothesis =>
      rw [packFrom, List.exists_mem_cons_iff]
      by_cases tooLong : batchBudget < head + cost op
      · rw [if_pos tooLong]
        constructor
        · intro refused
          cases refused
          exact ⟨rfl, .inl tooLong⟩
        · rintro ⟨rfl, -⟩
          rfl
      · rw [if_neg tooLong, or_iff_right tooLong]
        split
        · rw [← @inductionHypothesis (head + cost op) [op]]
          constructor
          · intro refused
            cases packedLater : packFrom deviceId tsMs head [op] (head + cost op) ops with
            | error other =>
                rw [packedLater] at refused
                cases refused
                rfl
            | ok later =>
                rw [packedLater] at refused
                cases refused
          · intro refused
            rw [refused]
            rfl
        · exact inductionHypothesis

/-- What is packed is what was given, in batches that are neither empty nor too long; an operation
that does not fit into a batch of its own is the only reason to refuse, besides the device. -/
theorem pack_lossless (ops : List HistoryOp) (deviceId : String) (tsMs : Int64) :
    (∀ batches, pack ops deviceId tsMs = .ok batches ->
      batches.flatMap HistoryBatch.ops = ops ∧
        ∀ batch ∈ batches, batch.ops ≠ [] ∧ (encode batch).length ≤ batchBudget ∧
          batch.ops.length ≤ maxBatchOps) ∧
      ∀ error, pack ops deviceId tsMs = .error error ↔
        (isValidDeviceId deviceId = false ∧ error = .invalidField "device_id") ∨
          (isValidDeviceId deviceId = true ∧ error = .fieldLimit "op" ∧
            ∃ op ∈ ops,
              batchBudget < (encode (⟨deviceId, tsMs, [op]⟩ : HistoryBatch)).length) := by
  constructor
  · intro batches packed
    obtain ⟨whole, -, fits⟩ := pack_spec packed
    refine ⟨whole, fun batch member => ⟨?_, (fits batch member).short, (fits batch member).few⟩⟩
    obtain ⟨_, -, packed⟩ := (bind_eq_ok _ _ _).1 packed
    exact packFrom_ne_nil packed batch member
  · intro error
    have alone (op : HistoryOp) : (encode (⟨deviceId, tsMs, [op]⟩ : HistoryBatch)).length =
        (encode (⟨deviceId, tsMs, []⟩ : HistoryBatch)).length + cost op :=
      length_encode_concat deviceId tsMs [] op
    simp only [alone]
    unfold pack
    cases valid : isValidDeviceId deviceId with
    | true =>
        simp only [reduceCtorEq, false_and, true_and, false_or]
        exact packFrom_eq_error_iff
    | false =>
        simp only [reduceCtorEq, false_and, or_false, true_and]
        constructor
        · intro refused
          cases refused
          rfl
        · rintro rfl
          rfl

end

end History
end Parvane
