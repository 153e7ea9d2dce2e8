import Parvane.Notes.Lines

/-!
# Merging two versions of a note

A note that was changed on two devices is merged line by line with the version that both
started from.  Changes of different places are put together, and when one place was changed
differently there is a conflict, and the text stays as it is on this device.
-/

namespace Parvane.Notes

open Wire (Bytes)
open Merging

/-! ## The loop -/

/-- A line of the base with the indices of its counterparts. -/
structure Row where
  line : Line
  mine : Option Nat
  theirs : Option Nat
  deriving DecidableEq

def rows : List Line -> List (Option Nat) -> List (Option Nat) -> List Row
  | line :: lines, mine :: mines, theirs :: others =>
      ⟨line, mine, theirs⟩ :: rows lines mines others
  | _, _, _ => []

/-- What is left of the base, where the two sides are, and what was merged. -/
structure Progress where
  rest : List Row
  mineAt : Nat
  theirsAt : Nat
  merged : List Line
  deriving DecidableEq

inductive Step
  | done (lines : List Line)
  | conflict
  | next (progress : Progress)
  deriving DecidableEq

/-- How many rows are in their places on both sides. -/
def stable (mineAt theirsAt : Nat) : List Row -> Nat
  | [] => 0
  | row :: rest =>
      if row.mine = some mineAt ∧ row.theirs = some theirsAt then
        stable (mineAt + 1) (theirsAt + 1) rest + 1
      else 0

/-- The row is missing on one of the sides. -/
def Row.isChanged (row : Row) : Bool :=
  row.mine.isNone || row.theirs.isNone

def slice (lines : List Line) (start stop : Nat) : List Line :=
  (lines.drop start).take (stop - start)

/-- The end of a changed part on one side. -/
def endOf (side : Row -> Option Nat) (lines : List Line) : List Row -> Nat
  | [] => lines.length
  | row :: _ => (side row).getD 0

section

variable (mine theirs : List Line)

/-- One round of the loop: either rows that both sides kept, or a part that was changed. -/
def step (progress : Progress) : Step :=
  if progress.rest = [] ∧ mine.length ≤ progress.mineAt ∧ theirs.length ≤ progress.theirsAt then
    .done progress.merged
  else
    let count := stable progress.mineAt progress.theirsAt progress.rest
    if 0 < count then
      .next ⟨progress.rest.drop count, progress.mineAt + count, progress.theirsAt + count,
        progress.merged ++ (progress.rest.take count).map Row.line⟩
    else
      let changed := (progress.rest.takeWhile Row.isChanged).map Row.line
      let rest := progress.rest.dropWhile Row.isChanged
      let mineEnd := endOf Row.mine mine rest
      let theirsEnd := endOf Row.theirs theirs rest
      let mineLines := slice mine progress.mineAt mineEnd
      let theirsLines := slice theirs progress.theirsAt theirsEnd
      if theirsLines = changed ∨ mineLines = theirsLines then
        .next ⟨rest, mineEnd, theirsEnd, progress.merged ++ mineLines⟩
      else if mineLines = changed then
        .next ⟨rest, mineEnd, theirsEnd, progress.merged ++ theirsLines⟩
      else .conflict

/-- The lines that the loop merges, or nothing for a conflict; it may not be done after the
given number of rounds. -/
def mergeLoop : Nat -> Progress -> Option (Option (List Line))
  | 0, _ => none
  | rounds + 1, progress =>
      match step mine theirs progress with
      | .done lines => some (some lines)
      | .conflict => some none
      | .next later => mergeLoop rounds later

end

structure MergeResult where
  text : Bytes
  hasConflict : Bool
  deriving DecidableEq

/-- The result of what the loop merged; with a conflict it is the text of this side. -/
def resultOf (mineText : Bytes) : Option (List Line) -> MergeResult
  | none => ⟨mineText, true⟩
  | some merged => ⟨joinLines merged (endsWithEol mineText && !merged.isEmpty), false⟩

/-- The merge of two texts, if the loop is done after the given number of rounds. -/
def mergeNotes (rounds : Nat) (base mine theirs : Bytes) : Option MergeResult :=
  let baseText := normalizeEol base
  let mineText := normalizeEol mine
  let theirsText := normalizeEol theirs
  if mineText = theirsText ∨ theirsText = baseText then some ⟨mineText, false⟩
  else if mineText = baseText then some ⟨theirsText, false⟩
  else
    let baseLines := splitLines baseText
    let mineLines := splitLines mineText
    let theirsLines := splitLines theirsText
    match matchLines baseLines mineLines, matchLines baseLines theirsLines with
    | some mineMatch, some theirsMatch =>
        let start : Progress := ⟨rows baseLines mineMatch theirsMatch, 0, 0, []⟩
        (mergeLoop mineLines theirsLines rounds start).map (resultOf mineText)
    | _, _ => some (resultOf mineText none)

/-- The merge ends with the result. -/
def Merges (base mine theirs : Bytes) (result : MergeResult) : Prop :=
  ∃ rounds, mergeNotes rounds base mine theirs = some result

/-! ## Rows -/

theorem map_rows {base : List Line}
    {mineMatch theirsMatch : List (Option Nat)}
    (mineLength : mineMatch.length = base.length)
    (theirsLength : theirsMatch.length = base.length) :
    (rows base mineMatch theirsMatch).map Row.line = base ∧
      (rows base mineMatch theirsMatch).map (fun row => (row.line, row.mine)) =
        base.zip mineMatch ∧
      (rows base mineMatch theirsMatch).map (fun row => (row.line, row.theirs)) =
        base.zip theirsMatch := by
  induction base generalizing mineMatch theirsMatch with
  | nil => exact ⟨rfl, rfl, rfl⟩
  | cons line base inductionHypothesis =>
      match mineMatch, theirsMatch with
      | mine :: mineMatch, theirs :: theirsMatch =>
          obtain ⟨lines, mines, others⟩ :=
            inductionHypothesis (Nat.succ.inj mineLength) (Nat.succ.inj theirsLength)
          simp only [rows, List.map_cons, lines, mines, others, List.zip_cons_cons, and_self]

section

variable {side : Row -> Option Nat} {lines : List Line} {start : Nat}

/-- The rows are matched with lines of one side. -/
def On (side : Row -> Option Nat) (lines : List Line) (start : Nat) (rest : List Row) : Prop :=
  Matched lines start (rest.map fun row => (row.line, side row)) lines.length

/-- The rows are matched with consecutive lines. -/
def InPlace (side : Row -> Option Nat) : Nat -> List Row -> Prop
  | _, [] => True
  | start, row :: rest => side row = some start ∧ InPlace side (start + 1) rest

theorem inPlace_stable (mineAt theirsAt : Nat) (rest : List Row) :
    InPlace Row.mine mineAt (rest.take (stable mineAt theirsAt rest)) ∧
      InPlace Row.theirs theirsAt (rest.take (stable mineAt theirsAt rest)) := by
  induction rest generalizing mineAt theirsAt with
  | nil => exact ⟨trivial, trivial⟩
  | cons row rest inductionHypothesis =>
      rw [stable]
      split
      · next kept =>
          obtain ⟨mine, theirs⟩ := inductionHypothesis (mineAt + 1) (theirsAt + 1)
          rw [List.take_succ_cons]
          exact ⟨⟨kept.1, mine⟩, ⟨kept.2, theirs⟩⟩
      · exact ⟨trivial, trivial⟩

theorem stable_le (mineAt theirsAt : Nat) (rest : List Row) :
    stable mineAt theirsAt rest ≤ rest.length := by
  induction rest generalizing mineAt theirsAt with
  | nil => exact Nat.le_refl _
  | cons row rest inductionHypothesis =>
      rw [stable]
      split
      · exact Nat.succ_le_succ (inductionHypothesis _ _)
      · exact Nat.zero_le _

/-- Rows in their places are lines of the side, and the others follow them. -/
theorem On.kept {kept rest : List Row}
    (on : On side lines start (kept ++ rest))
    (inPlace : InPlace side start kept) :
    (lines.drop start).take kept.length = kept.map Row.line ∧
      On side lines (start + kept.length) rest := by
  induction kept generalizing start with
  | nil => exact ⟨rfl, on⟩
  | cons row kept inductionHypothesis =>
      obtain ⟨isStart, others⟩ := inPlace
      rw [On, List.cons_append, List.map_cons, isStart] at on
      obtain ⟨-, found, later⟩ := on
      obtain ⟨same, rest⟩ := inductionHypothesis later others
      have isLine : lines.drop start = row.line :: lines.drop (start + 1) := by
        obtain ⟨inside, isLine⟩ := List.getElem?_eq_some_iff.1 found
        rw [List.drop_eq_getElem_cons inside, isLine]
      refine ⟨?_, ?_⟩
      · rw [isLine, List.length_cons, List.take_succ_cons, same, List.map_cons]
      · rwa [Nat.add_assoc, Nat.add_comm 1] at rest

/-- A changed part ends inside the side, and the rows behind it follow. -/
theorem On.changed {changed rest : List Row}
    (on : On side lines start (changed ++ rest))
    (isSome : ∀ row ∈ rest.head?, (side row).isSome) :
    start ≤ endOf side lines rest ∧ endOf side lines rest ≤ lines.length ∧
      On side lines (endOf side lines rest) rest ∧
        ∀ row ∈ rest.head?, side row = some (endOf side lines rest) := by
  rw [On, List.map_append] at on
  have later := on.of_append
  cases rest with
  | nil => exact ⟨later, Nat.le_refl _, Nat.le_refl _, by simp⟩
  | cons row rest =>
      obtain ⟨index, found⟩ := Option.isSome_iff_exists.1 (isSome row rfl)
      rw [List.map_cons, found] at later
      obtain ⟨notBefore, same, others⟩ := later
      rw [endOf, found, Option.getD_some]
      refine ⟨notBefore, ?_, ?_, ?_⟩
      · exact Nat.le_of_lt (List.getElem?_eq_some_iff.1 same).1
      · rw [On, List.map_cons, found]
        exact ⟨Nat.le_refl _, same, others⟩
      · rintro _ (_ | _)
        exact found

theorem take_append_slice {stop : Nat} (before : start ≤ stop) :
    lines.take stop = lines.take start ++ slice lines start stop := by
  rw [slice, ← List.take_add, Nat.add_sub_cancel' before]

end

/-! ## One round -/

section

variable {base mine theirs before : List Line} {progress later : Progress}

/-- Everything was merged. -/
def Finished (mine theirs : List Line) (progress : Progress) : Prop :=
  progress.rest = [] ∧ mine.length ≤ progress.mineAt ∧ theirs.length ≤ progress.theirsAt

/-- The last lines that were merged are those of the sides: in three equal places, or
right before such a place, or as in a merge of single lines at the end. -/
def Ends (mine theirs before : List Line) (progress : Progress) : Prop :=
  (before.getLast? = progress.merged.getLast? ∧
    (mine.take progress.mineAt).getLast? = progress.merged.getLast? ∧
      (theirs.take progress.theirsAt).getLast? = progress.merged.getLast?) ∨
  0 < stable progress.mineAt progress.theirsAt progress.rest ∨
  Finished mine theirs progress ∧
    Fits before.getLast? (mine.take progress.mineAt).getLast?
      (theirs.take progress.theirsAt).getLast? progress.merged.getLast?

/-- What the loop keeps: the parts before the indices are merged, and the rows that are left
are matched behind the indices. -/
structure Invariant (base mine theirs before : List Line) (progress : Progress) : Prop where
  split : base = before ++ progress.rest.map Row.line
  aligned : Aligned before (mine.take progress.mineAt) (theirs.take progress.theirsAt)
    progress.merged
  onMine : On Row.mine mine progress.mineAt progress.rest
  onTheirs : On Row.theirs theirs progress.theirsAt progress.rest
  ends : Ends mine theirs before progress

/-- How much is left. -/
def Progress.left (mine theirs : List Line) (progress : Progress) : Nat :=
  progress.rest.length + (mine.length - progress.mineAt) + (theirs.length - progress.theirsAt)

/-- A part that one of the sides changed, before some rows and ends, merged to the result. -/
structure Changed (mine theirs : List Line) (progress later : Progress)
    (changed : List Row) (result : List Line) : Prop where
  split : progress.rest = changed ++ later.rest
  heads : ∀ row ∈ later.rest.head?, row.isChanged = false
  mineEnd : later.mineAt = endOf Row.mine mine later.rest
  theirsEnd : later.theirsAt = endOf Row.theirs theirs later.rest
  fits : Fits (changed.map Row.line) (slice mine progress.mineAt later.mineAt)
    (slice theirs progress.theirsAt later.theirsAt) result
  merged : later.merged = progress.merged ++ result

theorem changed_cases (progress : Progress) :
    let changed := progress.rest.takeWhile Row.isChanged
    let rest := progress.rest.dropWhile Row.isChanged
    progress.rest = changed ++ rest ∧ ∀ row ∈ rest.head?, row.isChanged = false := by
  refine ⟨List.takeWhile_append_dropWhile.symm, ?_⟩
  intro row head
  have notChanged := List.head?_dropWhile_not Row.isChanged progress.rest
  rw [show (progress.rest.dropWhile Row.isChanged).head? = some row from head] at notChanged
  exact notChanged

/-- What a round does. -/
theorem step_cases (mine theirs : List Line) (progress : Progress) :
    (Finished mine theirs progress ∧ step mine theirs progress = .done progress.merged) ∨
    ¬Finished mine theirs progress ∧
      ((∃ kept rest, progress.rest = kept ++ rest ∧ 0 < kept.length ∧
          InPlace Row.mine progress.mineAt kept ∧ InPlace Row.theirs progress.theirsAt kept ∧
          step mine theirs progress =
            .next ⟨rest, progress.mineAt + kept.length, progress.theirsAt + kept.length,
              progress.merged ++ kept.map Row.line⟩) ∨
        stable progress.mineAt progress.theirsAt progress.rest = 0 ∧
          (step mine theirs progress = .conflict ∨
            ∃ later changed result, Changed mine theirs progress later changed result ∧
              step mine theirs progress = .next later)) := by
  by_cases finished : Finished mine theirs progress
  · exact .inl ⟨finished, if_pos finished⟩
  refine .inr ⟨finished, ?_⟩
  rw [step, if_neg (show ¬(progress.rest = [] ∧ mine.length ≤ progress.mineAt ∧
    theirs.length ≤ progress.theirsAt) from finished)]
  dsimp only
  by_cases kept : 0 < stable progress.mineAt progress.theirsAt progress.rest
  · obtain ⟨onMine, onTheirs⟩ :=
      inPlace_stable progress.mineAt progress.theirsAt progress.rest
    have length := List.length_take_of_le
      (stable_le progress.mineAt progress.theirsAt progress.rest)
    rw [if_pos kept]
    refine .inl ⟨_, _, (List.take_append_drop _ _).symm, ?_, onMine, onTheirs, ?_⟩
    · rwa [length]
    · rw [length]
  · obtain ⟨split, heads⟩ := changed_cases progress
    refine .inr ⟨Nat.eq_zero_of_not_pos kept, ?_⟩
    rw [if_neg kept]
    split
    · next taken =>
        refine .inr ⟨_, _, _, ⟨split, heads, rfl, rfl, ?_, rfl⟩, rfl⟩
        rcases taken with same | same
        · exact .inl ⟨same, rfl⟩
        · exact .inr (.inr ⟨same, rfl⟩)
    · split
      · next same =>
          exact .inr ⟨_, _, _, ⟨split, heads, rfl, rfl, .inr (.inl ⟨same, rfl⟩), rfl⟩, rfl⟩
      · exact .inl rfl

theorem Row.isSome_of_not_isChanged {row : Row}
    (notChanged : row.isChanged = false) : row.mine.isSome ∧ row.theirs.isSome := by
  rw [Row.isChanged, Bool.or_eq_false_iff] at notChanged
  exact ⟨Option.isNone_eq_false_iff.1 notChanged.1, Option.isNone_eq_false_iff.1 notChanged.2⟩

theorem getLast?_append_of_ne {first second : List Line}
    (notEmpty : second ≠ []) : (first ++ second).getLast? = second.getLast? := by
  obtain ⟨last, isLast⟩ := Option.isSome_iff_exists.1 (List.getLast?_isSome.2 notEmpty)
  rw [List.getLast?_append, isLast]
  rfl

theorem Invariant.done
    (invariant : Invariant base mine theirs before progress)
    (finished : Finished mine theirs progress) :
    Aligned base mine theirs progress.merged ∧
      Fits base.getLast? mine.getLast? theirs.getLast? progress.merged.getLast? := by
  obtain ⟨split, aligned, -, -, ends⟩ := invariant
  obtain ⟨noRest, mineEnd, theirsEnd⟩ := finished
  rw [Ends, List.take_of_length_le mineEnd, List.take_of_length_le theirsEnd, noRest] at ends
  rw [noRest, List.map_nil, List.append_nil] at split
  rw [List.take_of_length_le mineEnd, List.take_of_length_le theirsEnd] at aligned
  rw [split]
  refine ⟨aligned, ?_⟩
  rcases ends with ⟨sameBase, sameMine, sameTheirs⟩ | stable | ⟨-, fits⟩
  · rw [sameBase, sameMine, sameTheirs]
    exact .inl ⟨rfl, rfl⟩
  · exact absurd stable (Nat.lt_irrefl 0)
  · exact fits

/-- Rows that both sides kept are merged. -/
theorem Invariant.kept
    (invariant : Invariant base mine theirs before progress) {kept rest : List Row}
    (split : progress.rest = kept ++ rest) (notEmpty : 0 < kept.length)
    (mineKept : InPlace Row.mine progress.mineAt kept)
    (theirsKept : InPlace Row.theirs progress.theirsAt kept) :
    Invariant base mine theirs (before ++ kept.map Row.line)
      ⟨rest, progress.mineAt + kept.length, progress.theirsAt + kept.length,
        progress.merged ++ kept.map Row.line⟩ := by
  obtain ⟨baseSplit, aligned, onMine, onTheirs, -⟩ := invariant
  rw [split] at onMine onTheirs
  obtain ⟨mineSame, mineRest⟩ := onMine.kept mineKept
  obtain ⟨theirsSame, theirsRest⟩ := onTheirs.kept theirsKept
  have linesNotEmpty : kept.map Row.line ≠ [] := by
    rw [Ne, List.map_eq_nil_iff]
    exact List.ne_nil_of_length_pos notEmpty
  have mineTaken : mine.take (progress.mineAt + kept.length) =
      mine.take progress.mineAt ++ kept.map Row.line := by
    rw [List.take_add, mineSame]
  have theirsTaken : theirs.take (progress.theirsAt + kept.length) =
      theirs.take progress.theirsAt ++ kept.map Row.line := by
    rw [List.take_add, theirsSame]
  refine ⟨?_, ?_, mineRest, theirsRest, .inl ?_⟩
  · rw [baseSplit, split, List.map_append, List.append_assoc]
  · dsimp only
    rw [mineTaken, theirsTaken]
    exact aligned.append (.inl ⟨rfl, rfl⟩)
  · dsimp only
    rw [mineTaken, theirsTaken]
    simp only [getLast?_append_of_ne linesNotEmpty, and_self]

theorem stable_of_head {row : Row} {rest : List Row} {mineAt theirsAt : Nat}
    (mine : row.mine = some mineAt)
    (theirs : row.theirs = some theirsAt) : 0 < stable mineAt theirsAt (row :: rest) := by
  rw [stable, if_pos ⟨mine, theirs⟩]
  exact Nat.succ_pos _

/-- A part that one side changed is merged; behind it the sides agree, or both end. -/
theorem Invariant.changed
    (invariant : Invariant base mine theirs before progress)
    (notStable : stable progress.mineAt progress.theirsAt progress.rest = 0)
    (notFinished : ¬Finished mine theirs progress)
    {changed : List Row} {result : List Line}
    (step : Changed mine theirs progress later changed result) :
    Invariant base mine theirs (before ++ changed.map Row.line) later ∧
      later.left mine theirs < progress.left mine theirs := by
  obtain ⟨baseSplit, aligned, onMine, onTheirs, ends⟩ := invariant
  obtain ⟨split, heads, mineEnd, theirsEnd, fits, merged⟩ := step
  rw [split] at onMine onTheirs
  obtain ⟨mineLe, mineIn, mineRest, mineHead⟩ := onMine.changed fun row head =>
    (Row.isSome_of_not_isChanged (heads row head)).1
  obtain ⟨theirsLe, theirsIn, theirsRest, theirsHead⟩ := onTheirs.changed fun row head =>
    (Row.isSome_of_not_isChanged (heads row head)).2
  rw [← mineEnd] at mineLe mineIn mineRest mineHead
  rw [← theirsEnd] at theirsLe theirsIn theirsRest theirsHead
  have mineTaken := @take_append_slice mine progress.mineAt later.mineAt mineLe
  have theirsTaken := @take_append_slice theirs progress.theirsAt later.theirsAt theirsLe
  constructor
  · refine ⟨?_, ?_, mineRest, theirsRest, ?_⟩
    · rw [baseSplit, split, List.map_append, List.append_assoc]
    · rw [mineTaken, theirsTaken, merged]
      exact aligned.append fits
    · cases rest : later.rest with
      | cons row rows =>
          rw [Ends, rest]
          rw [rest] at mineHead theirsHead
          exact .inr (.inl (stable_of_head (mineHead row rfl) (theirsHead row rfl)))
      | nil =>
          rw [rest] at mineEnd theirsEnd
          refine .inr (.inr ⟨⟨rest, Nat.le_of_eq mineEnd.symm, Nat.le_of_eq theirsEnd.symm⟩, ?_⟩)
          rcases ends with ⟨sameBase, sameMine, sameTheirs⟩ | wasStable | ⟨wasFinished, -⟩
          · rw [mineTaken, theirsTaken, merged, List.getLast?_append, List.getLast?_append,
              List.getLast?_append, List.getLast?_append, sameBase, sameMine, sameTheirs]
            exact fits.map fun part => part.getLast?.or progress.merged.getLast?
          · omega
          · exact absurd wasFinished notFinished
  · have length := congrArg List.length split
    rw [List.length_append] at length
    rw [Progress.left, Progress.left, length]
    cases changed with
    | cons row rows =>
        rw [List.length_cons]
        omega
    | nil =>
        rw [List.nil_append] at split
        cases rest : later.rest with
        | nil =>
            rw [rest] at mineEnd theirsEnd split
            have short : ¬(mine.length ≤ progress.mineAt ∧ theirs.length ≤ progress.theirsAt) :=
              fun both => notFinished ⟨split, both⟩
            simp only [endOf] at mineEnd theirsEnd
            simp only [List.length_nil]
            omega
        | cons row rows =>
            rw [rest] at mineHead theirsHead split
            have moved : ¬(later.mineAt = progress.mineAt ∧
                later.theirsAt = progress.theirsAt) := by
              rintro ⟨mineSame, theirsSame⟩
              have positive : 0 < stable later.mineAt later.theirsAt (row :: rows) :=
                stable_of_head (mineHead row rfl) (theirsHead row rfl)
              rw [mineSame, theirsSame, ← split, notStable] at positive
              exact Nat.lt_irrefl 0 positive
            simp only [List.length_nil, List.length_cons]
            omega

/-- Every round keeps the invariant, and less is left after it. -/
theorem Invariant.next
    (invariant : Invariant base mine theirs before progress)
    (stepped : step mine theirs progress = .next later) :
    (∃ more, Invariant base mine theirs more later) ∧
      later.left mine theirs < progress.left mine theirs := by
  rcases step_cases mine theirs progress with ⟨-, isDone⟩ | ⟨notFinished, outcome⟩
  · rw [isDone] at stepped
    cases stepped
  · rcases outcome with ⟨kept, rest, split, notEmpty, onMine, onTheirs, isNext⟩ |
      ⟨notStable, isConflict | ⟨other, changed, result, isChanged, isNext⟩⟩
    · rw [isNext] at stepped
      cases stepped
      refine ⟨⟨_, invariant.kept split notEmpty onMine onTheirs⟩, ?_⟩
      have length := congrArg List.length split
      rw [List.length_append] at length
      rw [Progress.left, Progress.left, length]
      dsimp only
      omega
    · rw [isConflict] at stepped
      cases stepped
    · rw [isNext] at stepped
      cases stepped
      obtain ⟨again, less⟩ := invariant.changed notStable notFinished isChanged
      exact ⟨⟨_, again⟩, less⟩

end

/-! ## Whole runs -/

section

variable {base mine theirs before : List Line} {progress : Progress}

/-- The loop ends, and what it merged is aligned with the sides. -/
theorem Invariant.mergeLoop {rounds : Nat}
    (invariant : Invariant base mine theirs before progress)
    (enough : progress.left mine theirs < rounds) :
    ∃ merged, mergeLoop mine theirs rounds progress = some merged ∧
      ∀ lines, merged = some lines -> Aligned base mine theirs lines ∧
        Fits base.getLast? mine.getLast? theirs.getLast? lines.getLast? := by
  induction rounds generalizing before progress with
  | zero => exact absurd enough (Nat.not_lt_zero _)
  | succ rounds inductionHypothesis =>
      rw [Notes.mergeLoop]
      cases stepped : step mine theirs progress with
      | done lines =>
          refine ⟨some lines, rfl, ?_⟩
          rintro _ ⟨⟩
          rcases step_cases mine theirs progress with ⟨finished, isDone⟩ | ⟨-, outcome⟩
          · rw [isDone] at stepped
            cases stepped
            exact invariant.done finished
          · rcases outcome with ⟨kept, rest, -, -, -, -, isNext⟩ |
              ⟨-, isConflict | ⟨other, changed, result, -, isNext⟩⟩
            · rw [isNext] at stepped
              cases stepped
            · rw [isConflict] at stepped
              cases stepped
            · rw [isNext] at stepped
              cases stepped
      | conflict => exact ⟨none, rfl, fun _ none => by cases none⟩
      | next later =>
          obtain ⟨⟨more, again⟩, less⟩ := invariant.next stepped
          exact inductionHypothesis again (by omega)

theorem mergeLoop_mono {rounds more : Nat}
    {merged : Option (List Line)}
    (done : mergeLoop mine theirs rounds progress = some merged)
    (le : rounds ≤ more) : mergeLoop mine theirs more progress = some merged := by
  induction rounds generalizing progress more with
  | zero => cases done
  | succ rounds inductionHypothesis =>
      obtain ⟨more, rfl⟩ := Nat.exists_eq_add_of_le' (Nat.le_trans (Nat.succ_pos rounds) le)
      rw [mergeLoop] at done ⊢
      cases stepped : step mine theirs progress with
      | done lines | conflict => rwa [stepped] at done
      | next later =>
          rw [stepped] at done
          exact inductionHypothesis done (Nat.le_of_succ_le_succ le)

end

/-! ## The two sides exchanged -/

def Row.swap (row : Row) : Row :=
  ⟨row.line, row.theirs, row.mine⟩

def Progress.swap (progress : Progress) : Progress :=
  ⟨progress.rest.map Row.swap, progress.theirsAt, progress.mineAt, progress.merged⟩

def Step.swap : Step -> Step
  | .done lines => .done lines
  | .conflict => .conflict
  | .next progress => .next progress.swap

section

variable (mine theirs : List Line)

theorem stable_swap (mineAt theirsAt : Nat) (rest : List Row) :
    stable theirsAt mineAt (rest.map Row.swap) = stable mineAt theirsAt rest := by
  induction rest generalizing mineAt theirsAt with
  | nil => rfl
  | cons row rest inductionHypothesis =>
      rw [List.map_cons, stable, stable, inductionHypothesis]
      exact if_congr And.comm rfl rfl

theorem isChanged_swap (row : Row) : row.swap.isChanged = row.isChanged :=
  Bool.or_comm _ _

theorem endOf_swap (lines : List Line) (rest : List Row) :
    endOf Row.mine lines (rest.map Row.swap) = endOf Row.theirs lines rest ∧
      endOf Row.theirs lines (rest.map Row.swap) = endOf Row.mine lines rest := by
  cases rest with
  | nil => exact ⟨rfl, rfl⟩
  | cons row rest => exact ⟨rfl, rfl⟩

theorem changed_swap (rest : List Row) :
    (rest.map Row.swap).takeWhile Row.isChanged = (rest.takeWhile Row.isChanged).map Row.swap ∧
      (rest.map Row.swap).dropWhile Row.isChanged =
        (rest.dropWhile Row.isChanged).map Row.swap := by
  have same : Row.isChanged ∘ Row.swap = Row.isChanged := funext isChanged_swap
  rw [List.takeWhile_map, List.dropWhile_map, same]
  exact ⟨rfl, rfl⟩

theorem line_swap (rest : List Row) : (rest.map Row.swap).map Row.line = rest.map Row.line := by
  rw [List.map_map]
  rfl

/-- Which side is taken does not depend on the order of the sides. -/
theorem choice_swap
    (changed mineLines theirsLines : List Line) (next : List Line -> Progress) :
    (if mineLines = changed ∨ theirsLines = mineLines then Step.next (next theirsLines).swap
      else if theirsLines = changed then .next (next mineLines).swap
      else .conflict) =
    Step.swap (if theirsLines = changed ∨ mineLines = theirsLines then .next (next mineLines)
      else if mineLines = changed then .next (next theirsLines)
      else .conflict) := by
  by_cases same : mineLines = theirsLines
  · rw [same, if_pos (.inr rfl), if_pos (.inr rfl)]
    rfl
  · by_cases mineKept : mineLines = changed
    · have theirsChanged : theirsLines ≠ changed := fun kept => same (mineKept.trans kept.symm)
      rw [if_pos (.inl mineKept), if_neg (not_or.2 ⟨theirsChanged, same⟩), if_pos mineKept]
      rfl
    · rw [if_neg (not_or.2 ⟨mineKept, fun other => same other.symm⟩)]
      by_cases theirsKept : theirsLines = changed
      · rw [if_pos theirsKept, if_pos (.inl theirsKept)]
        rfl
      · rw [if_neg theirsKept, if_neg (not_or.2 ⟨theirsKept, same⟩), if_neg mineKept]
        rfl

theorem step_swap (progress : Progress) :
    step theirs mine progress.swap = (step mine theirs progress).swap := by
  obtain ⟨rest, mineAt, theirsAt, merged⟩ := progress
  simp only [step, Progress.swap, stable_swap, changed_swap, endOf_swap, line_swap,
    List.map_eq_nil_iff]
  by_cases finished : rest = [] ∧ mine.length ≤ mineAt ∧ theirs.length ≤ theirsAt
  · rw [if_pos finished, if_pos ⟨finished.1, finished.2.2, finished.2.1⟩]
    rfl
  · rw [if_neg finished, if_neg fun other => finished ⟨other.1, other.2.2, other.2.1⟩]
    by_cases kept : 0 < stable mineAt theirsAt rest
    · rw [if_pos kept, if_pos kept, ← List.map_drop, ← List.map_take, line_swap]
      rfl
    · rw [if_neg kept, if_neg kept]
      exact choice_swap _ _ _ fun lines => ⟨rest.dropWhile Row.isChanged, _, _, merged ++ lines⟩

theorem mergeLoop_swap (rounds : Nat) (progress : Progress) :
    mergeLoop theirs mine rounds progress.swap = mergeLoop mine theirs rounds progress := by
  induction rounds generalizing progress with
  | zero => rfl
  | succ rounds inductionHypothesis =>
      rw [mergeLoop, mergeLoop, step_swap]
      cases step mine theirs progress with
      | done lines | conflict => rfl
      | next later => exact inductionHypothesis later

theorem rows_swap (base : List Line) (mineMatch theirsMatch : List (Option Nat)) :
    rows base theirsMatch mineMatch = (rows base mineMatch theirsMatch).map Row.swap := by
  induction base generalizing mineMatch theirsMatch with
  | nil => rfl
  | cons line base inductionHypothesis =>
      cases mineMatch with
      | nil => cases theirsMatch <;> rfl
      | cons mine mineMatch =>
          cases theirsMatch with
          | nil => rfl
          | cons theirs theirsMatch =>
              rw [rows, rows, List.map_cons, inductionHypothesis]
              rfl

end

end Parvane.Notes
