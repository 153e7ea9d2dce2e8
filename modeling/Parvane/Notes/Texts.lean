import Parvane.Notes.Merge

/-!
# Merged texts

A merge always ends, and its lines are aligned with those of the three texts.  The one
exception is an empty line that the other side appended: when the text of this side has no
end of its last line, the merged text cannot hold it.
-/

namespace Parvane.Notes

open Wire (Bytes utf8)
open Merging

/-- The lines of a text, however they end. -/
def linesOf (text : Bytes) : List Line :=
  splitLines (normalizeEol text)

/-- The texts are the same but for the end of the last line. -/
def SameUpToEol (first second : Bytes) : Prop :=
  first = second ∨ first ++ [newline] = second ∨ first = second ++ [newline]

/-- The other side appended an empty line, and this side has no end of its last line. -/
def LosesBlank (base mine theirs : Bytes) : Prop :=
  normalizeEol mine ≠ normalizeEol base ∧ endsWithEol (normalizeEol mine) = false ∧
    (linesOf theirs).getLast? = some [] ∧ (linesOf base).getLast? ≠ some []

section

variable {base mine theirs : Bytes} {result other : MergeResult}

theorem mergeNotes_mono {rounds more : Nat}
    (done : mergeNotes rounds base mine theirs = some result)
    (le : rounds ≤ more) : mergeNotes more base mine theirs = some result := by
  rw [mergeNotes] at done ⊢
  split
  · next early => rwa [if_pos early] at done
  · next notEarly =>
      rw [if_neg notEarly] at done
      split
      · next early => rwa [if_pos early] at done
      · next different =>
          rw [if_neg different] at done
          dsimp only at done ⊢
          split
          · next mineMatch theirsMatch mineFound theirsFound =>
              rw [mineFound, theirsFound] at done
              obtain ⟨merged, loop, isResult⟩ := Option.map_eq_some_iff.1 done
              rw [mergeLoop_mono loop le, Option.map_some, isResult]
          · next other =>
              split at done
              · next mineFound theirsFound => exact absurd theirsFound (other _ _ mineFound)
              · exact done

theorem Merges.unique
    (first : Merges base mine theirs result)
    (second : Merges base mine theirs other) : result = other := by
  obtain ⟨rounds, first⟩ := first
  obtain ⟨more, second⟩ := second
  have one := mergeNotes_mono first (Nat.le_max_left rounds more)
  have two := mergeNotes_mono second (Nat.le_max_right rounds more)
  rw [one] at two
  exact Option.some.inj two

/-- With different texts the loop decides, if the lines can be matched. -/
theorem mergeNotes_eq
    (rounds : Nat) (mineTheirs : normalizeEol mine ≠ normalizeEol theirs)
    (theirsBase : normalizeEol theirs ≠ normalizeEol base)
    (mineBase : normalizeEol mine ≠ normalizeEol base) :
    mergeNotes rounds base mine theirs =
      match matchLines (linesOf base) (linesOf mine),
        matchLines (linesOf base) (linesOf theirs) with
      | some mineMatch, some theirsMatch =>
          let start : Progress := ⟨rows (linesOf base) mineMatch theirsMatch, 0, 0, []⟩
          (mergeLoop (linesOf mine) (linesOf theirs) rounds start).map
            (resultOf (normalizeEol mine))
      | _, _ => some (resultOf (normalizeEol mine) none) := by
  rw [mergeNotes, if_neg (not_or.2 ⟨mineTheirs, theirsBase⟩), if_neg mineBase]
  rfl

/-- The loop ends, in the same way when the sides are exchanged. -/
theorem exists_mergeLoop {base mine theirs : List Line}
    {mineMatch theirsMatch : List (Option Nat)}
    (mineFound : matchLines base mine = some mineMatch)
    (theirsFound : matchLines base theirs = some theirsMatch) :
    ∃ rounds merged,
      mergeLoop mine theirs rounds ⟨rows base mineMatch theirsMatch, 0, 0, []⟩ = some merged ∧
      mergeLoop theirs mine rounds ⟨rows base theirsMatch mineMatch, 0, 0, []⟩ = some merged ∧
      ∀ lines, merged = some lines -> Aligned base mine theirs lines ∧
        Fits base.getLast? mine.getLast? theirs.getLast? lines.getLast? := by
  obtain ⟨mineLength, mineMatched⟩ := matched_matchLines mineFound
  obtain ⟨theirsLength, theirsMatched⟩ := matched_matchLines theirsFound
  obtain ⟨lines, mines, others⟩ := map_rows mineLength theirsLength
  have start : Invariant base mine theirs [] ⟨rows base mineMatch theirsMatch, 0, 0, []⟩ := by
    refine ⟨lines.symm, Aligned.nil, ?_, ?_, .inl ⟨rfl, rfl, rfl⟩⟩
    · rwa [On, mines]
    · rwa [On, others]
  obtain ⟨merged, isMerged, kept⟩ := start.mergeLoop (Nat.lt_succ_self _)
  refine ⟨_, merged, isMerged, ?_, kept⟩
  rw [rows_swap base mineMatch theirsMatch]
  exact (mergeLoop_swap mine theirs _ _).trans isMerged

/-- How a merge ends: one of the texts is taken, or what the loop merged. -/
theorem merges_cases (base mine theirs : Bytes) :
    (∃ text, Fits (normalizeEol base) (normalizeEol mine) (normalizeEol theirs) text ∧
      Merges base mine theirs ⟨text, false⟩ ∧ Merges base theirs mine ⟨text, false⟩) ∨
    normalizeEol mine ≠ normalizeEol base ∧ normalizeEol theirs ≠ normalizeEol base ∧
      ∃ merged, Merges base mine theirs (resultOf (normalizeEol mine) merged) ∧
        Merges base theirs mine (resultOf (normalizeEol theirs) merged) ∧
        ∀ lines, merged = some lines ->
          Aligned (linesOf base) (linesOf mine) (linesOf theirs) lines ∧
            Fits (linesOf base).getLast? (linesOf mine).getLast? (linesOf theirs).getLast?
              lines.getLast? := by
  by_cases mineTheirs : normalizeEol mine = normalizeEol theirs
  · refine .inl ⟨_, .inr (.inr ⟨mineTheirs, rfl⟩), ⟨0, ?_⟩, ⟨0, ?_⟩⟩
    · rw [mergeNotes, if_pos (.inl mineTheirs)]
    · rw [mergeNotes, if_pos (.inl mineTheirs.symm), mineTheirs]
  by_cases theirsBase : normalizeEol theirs = normalizeEol base
  · have mineBase : normalizeEol mine ≠ normalizeEol base :=
      fun same => mineTheirs (same.trans theirsBase.symm)
    refine .inl ⟨_, .inl ⟨theirsBase, rfl⟩, ⟨0, ?_⟩, ⟨0, ?_⟩⟩
    · rw [mergeNotes, if_pos (.inr theirsBase)]
    · rw [mergeNotes, if_neg (not_or.2 ⟨Ne.symm mineTheirs, mineBase⟩), if_pos theirsBase]
  by_cases mineBase : normalizeEol mine = normalizeEol base
  · refine .inl ⟨_, .inr (.inl ⟨mineBase, rfl⟩), ⟨0, ?_⟩, ⟨0, ?_⟩⟩
    · rw [mergeNotes, if_neg (not_or.2 ⟨mineTheirs, theirsBase⟩), if_pos mineBase]
    · rw [mergeNotes, if_pos (.inr mineBase)]
  refine .inr ⟨mineBase, theirsBase, ?_⟩
  simp only [Merges, mergeNotes_eq _ mineTheirs theirsBase mineBase,
    mergeNotes_eq _ (Ne.symm mineTheirs) mineBase theirsBase]
  cases mineFound : matchLines (linesOf base) (linesOf mine) with
  | none =>
      refine ⟨none, ⟨0, rfl⟩, ⟨0, ?_⟩, fun _ none => by cases none⟩
      cases matchLines (linesOf base) (linesOf theirs) <;> rfl
  | some mineMatch =>
      cases theirsFound : matchLines (linesOf base) (linesOf theirs) with
      | none => exact ⟨none, ⟨0, rfl⟩, ⟨0, rfl⟩, fun _ none => by cases none⟩
      | some theirsMatch =>
          obtain ⟨rounds, merged, one, two, kept⟩ := exists_mergeLoop mineFound theirsFound
          refine ⟨merged, ⟨rounds, ?_⟩, ⟨rounds, ?_⟩, kept⟩
          · dsimp only
            rw [one, Option.map_some]
          · dsimp only
            rw [two, Option.map_some]

variable {lines : List Line}

/-- An empty last line is lost when there is no end of it. -/
theorem splitLines_resultOf
    (clean : ∀ line ∈ lines, newline ∉ line) :
    splitLines (resultOf mine (some lines)).text =
      if endsWithEol mine = false ∧ lines.getLast? = some [] then lines.dropLast else lines := by
  rw [resultOf]
  dsimp only
  by_cases empty : lines = []
  · rw [empty]
    simp [joinLines, splitLines]
  · have notEmpty : lines.isEmpty = false := List.isEmpty_eq_false_iff.2 empty
    cases isEnd : endsWithEol mine with
    | true =>
        rw [notEmpty, Bool.not_false, Bool.and_true, splitLines_joinLines clean empty, if_neg]
        simp
    | false =>
        rw [Bool.false_and, splitLines_joinLines_false clean]
        simp only [true_and]

/-- Only a side without an end of its last line loses an empty line of the other. -/
theorem losesBlank_iff
    (different : normalizeEol mine ≠ normalizeEol base)
    (fits : Fits (linesOf base).getLast? (linesOf mine).getLast? (linesOf theirs).getLast?
      lines.getLast?) :
    LosesBlank base mine theirs ↔
      endsWithEol (normalizeEol mine) = false ∧ lines.getLast? = some [] := by
  constructor
  · rintro ⟨-, noEnd, blank, notBlank⟩
    have notMine : (linesOf mine).getLast? ≠ some [] := by
      intro found
      rw [endsWithEol_of_blank found] at noEnd
      cases noEnd
    exact ⟨noEnd, (fits.eq_iff notMine).2 ⟨blank, notBlank⟩⟩
  · rintro ⟨noEnd, blank⟩
    have notMine : (linesOf mine).getLast? ≠ some [] := by
      intro found
      rw [endsWithEol_of_blank found] at noEnd
      cases noEnd
    exact ⟨different, noEnd, (fits.eq_iff notMine).1 blank⟩

/-- Nothing is lost when one of the texts is taken. -/
theorem not_losesBlank {text : Bytes}
    (fits : Fits (normalizeEol base) (normalizeEol mine) (normalizeEol theirs) text) :
    ¬LosesBlank base mine theirs := by
  rintro ⟨different, noEnd, blank, notBlank⟩
  rcases fits with ⟨same, -⟩ | ⟨same, -⟩ | ⟨same, -⟩
  · rw [linesOf, same] at blank
    exact notBlank blank
  · exact different same
  · rw [same, endsWithEol_of_blank blank] at noEnd
    cases noEnd

theorem clean_of_aligned
    (aligned : Aligned (linesOf base) (linesOf mine) (linesOf theirs) lines) :
    ∀ line ∈ lines, newline ∉ line := by
  intro line member
  rcases aligned.mem member with found | found
  all_goals exact newline_not_mem_splitLines found

theorem dropLast_ne_self {last : Line}
    (isLast : lines.getLast? = some last) : lines.dropLast ≠ lines := by
  intro same
  have length := congrArg List.length same
  obtain ⟨others, rfl⟩ := List.getLast?_eq_some_iff.1 isLast
  simp at length

/-- What the loop merged, as the lines of a text. -/
theorem splitLines_of_fits
    (different : normalizeEol mine ≠ normalizeEol base)
    (aligned : Aligned (linesOf base) (linesOf mine) (linesOf theirs) lines)
    (fits : Fits (linesOf base).getLast? (linesOf mine).getLast? (linesOf theirs).getLast?
      lines.getLast?) :
    (LosesBlank base mine theirs ->
      splitLines (resultOf (normalizeEol mine) (some lines)).text ≠ lines) ∧
    (¬LosesBlank base mine theirs ->
      splitLines (resultOf (normalizeEol mine) (some lines)).text = lines) := by
  rw [splitLines_resultOf (clean_of_aligned aligned), losesBlank_iff different fits]
  constructor
  · intro lost
    rw [if_pos lost]
    exact dropLast_ne_self lost.2
  · intro kept
    rw [if_neg kept]

theorem not_both_losesBlank
    (first : LosesBlank base mine theirs) : ¬LosesBlank base theirs mine := by
  intro second
  have noEnd := second.2.1
  rw [endsWithEol_of_blank first.2.2.1] at noEnd
  cases noEnd

theorem sameUpToEol_joinLines (lines : List Line) (first second : Bool) :
    SameUpToEol (joinLines lines first) (joinLines lines second) := by
  cases first <;> cases second
  · exact .inl rfl
  · exact .inr (.inl (by simp [joinLines]))
  · exact .inr (.inr (by simp [joinLines]))
  · exact .inl rfl

end

/-- A merge ends.  A conflict leaves the text of this side, and the sides may be exchanged.
Without a conflict the lines are aligned, and the same for both sides, unless one of the
sides loses an empty line at the end of the other. -/
theorem merges_aligned (base mine theirs : Bytes) :
    (∃ result, Merges base mine theirs result ∧
      ∀ other, Merges base mine theirs other -> other = result) ∧
    ∀ result swapped, Merges base mine theirs result -> Merges base theirs mine swapped ->
      result.hasConflict = swapped.hasConflict ∧
      (result.hasConflict = true -> result.text = normalizeEol mine) ∧
      (result.hasConflict = false ->
        SameUpToEol result.text swapped.text ∧
        (¬LosesBlank base mine theirs ->
          Aligned (linesOf base) (linesOf mine) (linesOf theirs) (splitLines result.text)) ∧
        (Aligned (linesOf base) (linesOf mine) (linesOf theirs) (splitLines result.text) ∧
            splitLines result.text = splitLines swapped.text ↔
          ¬LosesBlank base mine theirs ∧ ¬LosesBlank base theirs mine)) := by
  rcases merges_cases base mine theirs with ⟨text, fits, one, two⟩ |
    ⟨mineBase, theirsBase, merged, one, two, kept⟩
  · refine ⟨⟨_, one, fun other isOther => isOther.unique one⟩, ?_⟩
    intro result swapped isResult isSwapped
    obtain rfl := isResult.unique one
    obtain rfl := isSwapped.unique two
    have aligned := Aligned.single (fits.map splitLines)
    refine ⟨rfl, fun conflict => absurd conflict Bool.false_ne_true,
      fun _ => ⟨.inl rfl, fun _ => aligned, ?_⟩⟩
    exact ⟨fun _ => ⟨not_losesBlank fits, not_losesBlank fits.swap⟩, fun _ => ⟨aligned, rfl⟩⟩
  · refine ⟨⟨_, one, fun other isOther => isOther.unique one⟩, ?_⟩
    intro result swapped isResult isSwapped
    obtain rfl := isResult.unique one
    obtain rfl := isSwapped.unique two
    cases merged with
    | none => exact ⟨rfl, fun _ => rfl, fun other => absurd other.symm Bool.false_ne_true⟩
    | some lines =>
        obtain ⟨aligned, fits⟩ := kept lines rfl
        obtain ⟨mineLost, mineKept⟩ := splitLines_of_fits mineBase aligned fits
        obtain ⟨theirsLost, theirsKept⟩ := splitLines_of_fits theirsBase aligned.swap fits.swap
        refine ⟨rfl, fun conflict => absurd conflict Bool.false_ne_true,
          fun _ => ⟨sameUpToEol_joinLines _ _ _, ?_, ?_, ?_⟩⟩
        · intro nothingLost
          rwa [mineKept nothingLost]
        · rintro ⟨-, same⟩
          constructor
          · intro lost
            rw [theirsKept (not_both_losesBlank lost)] at same
            exact mineLost lost same
          · intro lost
            rw [mineKept (not_both_losesBlank lost)] at same
            exact theirsLost lost same.symm
        · rintro ⟨notMine, notTheirs⟩
          rw [mineKept notMine, theirsKept notTheirs]
          exact ⟨aligned, rfl⟩

/-- An empty line that was appended on the other side is lost. -/
theorem appended_blank_is_lost :
    Merges (utf8 "a\nb") (utf8 "A\nb") (utf8 "a\nb\n\n") ⟨utf8 "A\nb\n", false⟩ ∧
      ¬Aligned (linesOf (utf8 "a\nb")) (linesOf (utf8 "A\nb")) (linesOf (utf8 "a\nb\n\n"))
        (splitLines (utf8 "A\nb\n")) := by
  refine ⟨⟨5, by decide +kernel⟩, ?_⟩
  intro aligned
  have member : [] ∈ linesOf (utf8 "a\nb\n\n") := by decide +kernel
  rcases aligned.kept member with found | found
  all_goals revert found; decide +kernel

end Parvane.Notes
