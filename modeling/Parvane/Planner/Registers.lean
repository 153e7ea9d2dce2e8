import Parvane.Planner.State
import Parvane.Foundation.Register

/-!
# Convergence of planner fields

A field keeps the greatest of the stamped values it was offered, in the order of
stamp and encoding; values without a stamp are never taken.  Tombstones keep the
greatest stamp.  Occurrences are fields too, one for each day, but a day takes its
first occurrence also when it has no stamp.
-/

namespace Parvane.Planner

open Wire Domain Convergence

/-! ## Stamped fields -/

/-- The value has a stamp. -/
def IsStamped [Stamped α] (value : α) : Prop :=
  (Stamped.stamp value).isSome

instance [Stamped α] : DecidablePred (IsStamped (α := α)) :=
  fun value => inferInstanceAs (Decidable ((Stamped.stamp value).isSome = true))

/-- Stamp and encoding of a value. -/
def regKey [Stamped α] (value : α) : UInt64 ×ₗ String ×ₗ Bytes :=
  match Stamped.stamp value with
  | some stamp => toLex (stamp.lamport, toLex (stamp.deviceId, encode value))
  | none => toLex (0, toLex ("", encode value))

theorem regKey_injective [Stamped α] : Function.Injective (regKey (α := α)) := by
  intro first second equal
  have encodings (value : α) : (ofLex (ofLex (regKey value)).2).2 = encode value := by
    unfold regKey
    split <;> rfl
  apply encode_injective
  rw [← encodings first, ← encodings second, equal]

theorem isNewer_iff_regKey_lt [Stamped α]
    {current incoming : α} (currentStamped : IsStamped current)
    (incomingStamped : IsStamped incoming) :
    isNewer (Stamped.stamp incoming) (encode incoming)
        (Stamped.stamp current) (encode current) = true ↔
      regKey current < regKey incoming := by
  obtain ⟨currentStamp, currentEq⟩ := Option.isSome_iff_exists.1 currentStamped
  obtain ⟨incomingStamp, incomingEq⟩ := Option.isSome_iff_exists.1 incomingStamped
  simp only [regKey, currentEq, incomingEq, isNewer, decide_eq_true_eq]

theorem isNewer_of_not_isStamped [Stamped α]
    {incoming : α} (unstamped : ¬ IsStamped incoming) (current : Option LwwStamp)
    (currentBytes : Bytes) :
    isNewer (Stamped.stamp incoming) (encode incoming) current currentBytes = false := by
  have noStamp : Stamped.stamp incoming = none := by
    simpa [IsStamped] using unstamped
  rw [noStamp]
  rfl

/-- A field keeps the greatest stamped value. -/
theorem mergeReg_eq_elim [Stamped α]
    {current : Option α} (currentStamped : ∀ value ∈ current, IsStamped value)
    (incoming : Option α) :
    mergeReg current incoming =
      (incoming.filter fun value => IsStamped value).elim current
        (keepGreatest regKey current) := by
  cases incoming with
  | none => rfl
  | some value =>
      by_cases valueStamped : IsStamped value
      · simp only [mergeReg, Option.filter_some, valueStamped, decide_true, if_true,
          Option.elim_some]
        cases current with
        | none =>
            obtain ⟨stamp, stampEq⟩ := Option.isSome_iff_exists.1 valueStamped
            simp [isNewer, stampEq]
        | some currentValue =>
            have newer := isNewer_iff_regKey_lt
              (currentStamped currentValue rfl) valueStamped
            simp only [Option.bind_some, Option.elim_some, keepGreatest_some, newer]
      · simp [mergeReg, Option.filter_some, valueStamped,
          isNewer_of_not_isStamped valueStamped]

/-- A field converges whatever it is offered. -/
theorem mergeReg_convergesFrom [Stamped α]
    (view : β -> Option α) :
    ConvergesFrom (fun slot operation => mergeReg slot (view operation)) none
      (fun _ => True) := by
  have greatest := (keepGreatest_commutesOn regKey
    (regKey_injective.injOn (s := { value : α | IsStamped value }))).optional
      fun operation => (view operation).filter fun value => IsStamped value
  refine ((greatest.mono ?_).congr ?_).convergesFrom (by simp)
  · intro operation _ value carried
    exact of_decide_eq_true (Option.mem_filter_iff.1 carried).2
  · intro slot operation holds _
    exact mergeReg_eq_elim holds (view operation)

/-! ## Tombstones -/

theorem not_lt_empty (text : String) : ¬ text < "" := by
  rw [String.lt_iff_toList_lt]
  simp

/-- Nothing comes before the absence of a stamp. -/
theorem not_stampKey_lt_none (stamp : Option LwwStamp) : ¬ stampKey stamp < stampKey none := by
  intro less
  rw [stampKey.eq_2, Prod.Lex.lt_iff] at less
  rcases less with lamportLess | ⟨-, deviceLess⟩
  · exact UInt64.not_lt_zero lamportLess
  · exact not_lt_empty _ deviceLess

/-- Stamps that differ from the absence of a stamp. -/
def IsProper (stamp : LwwStamp) : Prop :=
  stampKey none < stampKey (some stamp)

instance : DecidablePred IsProper :=
  fun stamp => inferInstanceAs (Decidable (stampKey none < stampKey (some stamp)))

theorem stampKey_some_injective :
    Function.Injective fun stamp : LwwStamp => stampKey (some stamp) := by
  intro first second equal
  simp only [stampKey, EmbeddingLike.apply_eq_iff_eq, Prod.mk.injEq] at equal
  exact LwwStamp.ext equal.1 equal.2

/-- A tombstone keeps the greatest proper stamp. -/
theorem mergeDeleted_eq_elim (current incoming : Option LwwStamp) :
    mergeDeleted current incoming =
      (incoming.filter fun stamp => IsProper stamp).elim current
        (keepGreatest (fun stamp => stampKey (some stamp)) current) := by
  cases incoming with
  | none => rfl
  | some stamp =>
      by_cases proper : IsProper stamp
      · simp only [mergeDeleted, Option.filter_some, proper, decide_true, if_true,
          Option.elim_some]
        cases current with
        | none =>
            have fromNone : stampKey none < stampKey (some stamp) := proper
            simp [fromNone]
        | some currentStamp => rfl
      · have notNewer : ¬ stampKey current < stampKey (some stamp) := by
          intro less
          exact proper (lt_of_le_of_lt (not_lt.1 (not_stampKey_lt_none current)) less)
        simp [mergeDeleted, Option.filter_some, proper, notNewer]

theorem mergeDeleted_convergesFrom (view : β -> Option LwwStamp) :
    ConvergesFrom (fun slot operation => mergeDeleted slot (view operation)) none
      (fun _ => True) := by
  have greatest := (keepGreatest_commutesOn (fun stamp => stampKey (some stamp))
    (stampKey_some_injective.injOn (s := Set.univ))).optional
      fun operation => (view operation).filter fun stamp => IsProper stamp
  refine ((greatest.mono ?_).congr ?_).convergesFrom (by simp)
  · intro operation _ stamp _
    trivial
  · intro slot operation _ _
    exact mergeDeleted_eq_elim slot (view operation)

/-! ## Occurrences -/

theorem day_newerOccurrence
    (current incoming : Occurrence) (sameDay : current.day = incoming.day) :
    (newerOccurrence current incoming).day = incoming.day := by
  unfold newerOccurrence
  split
  · rfl
  · exact sameDay

/-- Stamped occurrences converge day by day. -/
theorem mergeOccurrences_convergesFrom :
    ConvergesFrom mergeOccurrences []
      (fun incoming => ∀ occurrence ∈ incoming, IsStamped occurrence) := by
  refine KeyedList.mergeAll_convergesFrom day_newerOccurrence (fun _ => rfl) fun day => ?_
  have greatest := keepGreatest_commutesOn regKey
    (regKey_injective.injOn (s := { occurrence : Occurrence | IsStamped occurrence }))
  refine ((greatest.mono ?_).congr ?_).convergesFrom (by simp)
  · intro occurrence admissible
    exact admissible.1
  · intro slot occurrence holds admissible
    cases slot with
    | none => rfl
    | some current =>
        have newer := isNewer_iff_regKey_lt (holds current rfl) admissible.1
        simp only [KeyedList.slotStep, newerOccurrence, keepGreatest_some]
        simp only [Stamped.stamp] at newer
        by_cases less : regKey current < regKey occurrence
        · rw [if_pos (newer.2 less), if_pos less]
        · rw [if_neg (fun isNew => less (newer.1 isNew)), if_neg less]

end Parvane.Planner
