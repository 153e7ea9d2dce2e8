import Parvane.Foundation.Merging
import Parvane.Foundation.Wire

/-!
# Lines of a note

The text of a note is cut into lines, and the lines of two texts are matched along a longest
common subsequence.
-/

namespace Parvane
namespace Notes

open Wire (Bytes)
open Merging

/-- A line, without its end. -/
abbrev Line := Bytes

def newline : UInt8 := 10

/-- All ends of lines become single ones. -/
def normalizeEol : Bytes -> Bytes
  | 13 :: 10 :: rest => newline :: normalizeEol rest
  | 13 :: rest => newline :: normalizeEol rest
  | byte :: rest => byte :: normalizeEol rest
  | [] => []

def endsWithEol (text : Bytes) : Bool :=
  text.getLast? == some newline

/-- The end of the last line is not followed by an empty line. -/
def splitLines (text : Bytes) : List Line :=
  if text = [] then []
  else if endsWithEol text then text.dropLast.splitOn newline
  else text.splitOn newline

/-- The lines as a text, with an end of the last line if there is to be one. -/
def joinLines (lines : List Line) (hasFinalEol : Bool) : Bytes :=
  [newline].intercalate lines ++ if hasFinalEol then [newline] else []

/-! ## Splitting and joining -/

section

variable {lines : List Line}

theorem intercalate_concat (line : Line) (notEmpty : lines ≠ []) :
    [newline].intercalate (lines ++ [line]) = [newline].intercalate lines ++ newline :: line := by
  induction lines with
  | nil => exact absurd rfl notEmpty
  | cons first rest inductionHypothesis =>
      cases rest with
      | nil =>
          rw [List.singleton_append, List.intercalate_cons_cons, List.intercalate_singleton,
            List.intercalate_singleton, List.append_assoc, List.singleton_append]
      | cons second rest =>
          have tail := inductionHypothesis (List.cons_ne_nil _ _)
          rw [List.cons_append] at tail
          rw [List.cons_append, List.cons_append, List.intercalate_cons_cons, tail,
            List.intercalate_cons_cons]
          simp only [List.append_assoc]

theorem splitLines_joinLines
    (clean : ∀ line ∈ lines, newline ∉ line)
    (notEmpty : lines ≠ []) : splitLines (joinLines lines true) = lines := by
  rw [splitLines, joinLines, if_neg (by simp), if_pos (by simp [endsWithEol])]
  rw [if_pos rfl, List.dropLast_concat, List.splitOn_intercalate newline clean notEmpty]

/-- The last byte of a text is that of its last line. -/
theorem getLast?_intercalate {line : Line}
    (lineNotEmpty : line ≠ []) :
    ([newline].intercalate (lines ++ [line])).getLast? = line.getLast? := by
  obtain ⟨last, isLast⟩ := Option.isSome_iff_exists.1 (List.getLast?_isSome.2 lineNotEmpty)
  by_cases notEmpty : lines = []
  · rw [notEmpty, List.nil_append, List.intercalate_singleton]
  · rw [intercalate_concat line notEmpty, List.getLast?_append, List.getLast?_cons, isLast]
    rfl

/-- Without the end of the last line, an empty last line is lost. -/
theorem splitLines_joinLines_false (clean : ∀ line ∈ lines, newline ∉ line) :
    splitLines (joinLines lines false) =
      if lines.getLast? = some [] then lines.dropLast else lines := by
  rcases List.eq_nil_or_concat' lines with rfl | ⟨others, line, rfl⟩
  · rfl
  · have cleanOthers : ∀ other ∈ others, newline ∉ other :=
      fun other member => clean other (List.mem_append_left _ member)
    simp only [List.getLast?_concat, List.dropLast_concat, Option.some.injEq]
    by_cases blank : line = []
    · rw [if_pos blank, blank, joinLines]
      by_cases notEmpty : others = []
      · rw [notEmpty]
        rfl
      · rw [intercalate_concat [] notEmpty, if_neg (by decide), List.append_nil]
        exact splitLines_joinLines cleanOthers notEmpty
    · have last := @getLast?_intercalate others line blank
      have cleanLine := clean line (List.mem_append_right _ List.mem_cons_self)
      rw [if_neg blank, joinLines, if_neg (by decide), List.append_nil, splitLines, if_neg, if_neg,
        List.splitOn_intercalate newline clean (by simp)]
      · rw [endsWithEol, last]
        intro isEol
        exact cleanLine (List.mem_of_mem_getLast? (eq_of_beq isEol))
      · intro none
        rw [none] at last
        exact blank (List.getLast?_eq_none_iff.1 last.symm)

end

section

variable {text : Bytes}

theorem newline_not_mem_splitOn {line : Line}
    (member : line ∈ text.splitOn newline) : newline ∉ line := by
  induction text generalizing line with
  | nil =>
      rw [List.splitOn_nil, List.mem_singleton] at member
      rw [member]
      exact List.not_mem_nil
  | cons byte text inductionHypothesis =>
      rw [List.splitOn_cons_eq_if_modifyHead] at member
      split at member
      · rcases List.mem_cons.1 member with rfl | found
        · exact List.not_mem_nil
        · exact inductionHypothesis found
      · next other =>
          cases parts : text.splitOn newline with
          | nil => exact absurd parts (List.splitOn_ne_nil _ _)
          | cons first rest =>
              rw [parts] at member inductionHypothesis
              rcases List.mem_cons.1 member with rfl | found
              · rintro (_ | ⟨_, found⟩)
                · exact other (beq_self_eq_true _)
                · exact inductionHypothesis List.mem_cons_self found
              · exact inductionHypothesis (List.mem_cons_of_mem _ found)

theorem newline_not_mem_splitLines {line : Line}
    (member : line ∈ splitLines text) : newline ∉ line := by
  rw [splitLines] at member
  split at member
  · exact absurd member List.not_mem_nil
  · split at member
    all_goals exact newline_not_mem_splitOn member

/-- Only the end of a line is followed by an empty last line. -/
theorem endsWithEol_of_blank
    (blank : (splitLines text).getLast? = some []) : endsWithEol text = true := by
  rw [splitLines] at blank
  split at blank
  · cases blank
  · next notEmpty =>
      split at blank
      · assumption
      · obtain ⟨others, isSplit⟩ := List.getLast?_eq_some_iff.1 blank
        have whole : [newline].intercalate (text.splitOn newline) = text :=
          List.intercalate_splitOn newline
        rw [isSplit] at whole
        by_cases alone : others = []
        · rw [alone, List.nil_append, List.intercalate_singleton] at whole
          exact absurd whole.symm notEmpty
        · rw [intercalate_concat [] alone] at whole
          rw [← whole, endsWithEol, List.getLast?_concat]
          rfl

end

end Notes
end Parvane

/-!
## Matching the lines of two texts

Equal lines at the beginning and at the end are matched first, and the lines between them
along a longest common subsequence.  Texts that would need too large a table are not matched.
-/

namespace Parvane
namespace Notes

open Merging

/-- The table of a comparison grows with the product of the lengths. -/
def maxDiffCells : Nat := 4000000

/-- How many lines the two begin with in common. -/
def commonHead : List Line -> List Line -> Nat
  | first :: source, second :: target =>
      if first = second then commonHead source target + 1 else 0
  | _, _ => 0

/-- An entry of the table: the length of a longest common subsequence of what is left. -/
def commonLength : List Line -> List Line -> Nat
  | row :: rows, column :: columns =>
      if row = column then commonLength rows columns + 1
      else max (commonLength rows (column :: columns)) (commonLength (row :: rows) columns)
  | _, _ => 0
termination_by rows columns => rows.length + columns.length

/-- The indices of the lines that the rows are matched with; the columns begin at the given
index. -/
def walk (start : Nat) : List Line -> List Line -> List (Option Nat)
  | [], _ => []
  | rows, [] => rows.map fun _ => none
  | row :: rows, column :: columns =>
      if row = column then some start :: walk (start + 1) rows columns
      else if commonLength (row :: rows) columns ≤ commonLength rows (column :: columns) then
        none :: walk start rows (column :: columns)
      else walk (start + 1) (row :: rows) columns
termination_by rows columns => rows.length + columns.length

/-- For each line of one text the index of its counterpart in the other. -/
def matchLines (source target : List Line) : Option (List (Option Nat)) :=
  let head := commonHead source target
  let tail := commonHead (source.drop head).reverse (target.drop head).reverse
  let rows := (source.drop head).take (source.length - head - tail)
  let columns := (target.drop head).take (target.length - head - tail)
  -- Without rows or without columns the table is empty, and no line between is matched.
  if maxDiffCells < rows.length * columns.length then none
  else some ((List.range' 0 head).map some ++ walk head rows columns ++
    (List.range' (target.length - tail) tail).map some)

/-! ## Matches are in order -/

theorem exists_commonHead (source target : List Line) :
    ∃ common restOfSource restOfTarget, source = common ++ restOfSource ∧
      target = common ++ restOfTarget ∧ common.length = commonHead source target := by
  induction source generalizing target with
  | nil => exact ⟨[], [], target, rfl, rfl, by simp [commonHead]⟩
  | cons first source inductionHypothesis =>
      cases target with
      | nil => exact ⟨[], first :: source, [], rfl, rfl, rfl⟩
      | cons second target =>
          rw [commonHead]
          split
          · next same =>
              obtain ⟨common, restOfSource, restOfTarget, isSource, isTarget, length⟩ :=
                inductionHypothesis target
              refine ⟨first :: common, restOfSource, restOfTarget, ?_, ?_, ?_⟩
              · rw [isSource, List.cons_append]
              · rw [isTarget, same, List.cons_append]
              · rw [List.length_cons, length]
          · exact ⟨[], first :: source, second :: target, rfl, rfl, rfl⟩

theorem length_walk (start : Nat) (rows columns : List Line) :
    (walk start rows columns).length = rows.length := by
  fun_induction walk start rows columns with
  | case1 => rfl
  | case2 => rw [List.length_map]
  | case3 start row rows columns inductionHypothesis =>
      rw [List.length_cons, List.length_cons, inductionHypothesis]
  | case4 start row rows column columns other shorter inductionHypothesis =>
      rw [List.length_cons, List.length_cons, inductionHypothesis]
  | case5 start row rows column columns other longer inductionHypothesis =>
      exact inductionHypothesis

theorem matched_none {target : List Line} {start : Nat} (rows : List Line) :
    Matched target start (rows.zip (rows.map fun _ => none)) start := by
  induction rows with
  | nil => exact Nat.le_refl _
  | cons row rows inductionHypothesis => exact inductionHypothesis

theorem matched_walk {target rows columns after : List Line} {start : Nat}
    (isPart : target.drop start = columns ++ after) :
    Matched target start (rows.zip (walk start rows columns)) (start + columns.length) := by
  fun_induction walk start rows columns with
  | case1 => exact Nat.le_add_right _ _
  | case2 start rows => exact matched_none rows
  | case3 start rows line columns inductionHypothesis =>
      have later := inductionHypothesis (drop_succ_eq isPart)
      rw [Nat.add_assoc, Nat.add_comm 1] at later
      exact ⟨Nat.le_refl _, getElem?_of_drop isPart, later⟩
  | case4 start row rows column columns other shorter inductionHypothesis =>
      exact inductionHypothesis isPart
  | case5 start row rows column columns other longer inductionHypothesis =>
      have later := inductionHypothesis (drop_succ_eq isPart)
      rw [Nat.add_assoc, Nat.add_comm 1] at later
      exact later.mono (Nat.le_succ _)

/-- What is left when the lines that two texts begin and end with in common are left out. -/
theorem matchLines_append (common rows columns ending : List Line)
    (head : commonHead (common ++ (rows ++ ending)) (common ++ (columns ++ ending)) =
      common.length)
    (tail : commonHead (rows ++ ending).reverse (columns ++ ending).reverse = ending.length) :
    matchLines (common ++ (rows ++ ending)) (common ++ (columns ++ ending)) =
      if maxDiffCells < rows.length * columns.length then none
      else some ((List.range' 0 common.length).map some ++ walk common.length rows columns ++
        (List.range' (common.length + columns.length) ending.length).map some) := by
  have between (lines : List Line) :
      (lines ++ ending).take ((common ++ (lines ++ ending)).length - common.length -
        ending.length) = lines := by
    apply List.take_left'
    simp only [List.length_append]
    omega
  have last : (common ++ (columns ++ ending)).length - ending.length =
      common.length + columns.length := by
    simp only [List.length_append]
    omega
  rw [matchLines, head, List.drop_left, List.drop_left, tail, between, between, last]

theorem exists_parts (source target : List Line) :
    ∃ common rows columns ending, source = common ++ (rows ++ ending) ∧
      target = common ++ (columns ++ ending) ∧
      commonHead (common ++ (rows ++ ending)) (common ++ (columns ++ ending)) = common.length ∧
      commonHead (rows ++ ending).reverse (columns ++ ending).reverse = ending.length := by
  obtain ⟨common, source', target', rfl, rfl, headLength⟩ := exists_commonHead source target
  obtain ⟨ending, rows, columns, isSource, isTarget, tailLength⟩ :=
    exists_commonHead source'.reverse target'.reverse
  have sourceParts : source' = rows.reverse ++ ending.reverse := by
    rw [← List.reverse_append, ← isSource, List.reverse_reverse]
  have targetParts : target' = columns.reverse ++ ending.reverse := by
    rw [← List.reverse_append, ← isTarget, List.reverse_reverse]
  refine ⟨common, rows.reverse, columns.reverse, ending.reverse, ?_, ?_, ?_, ?_⟩
  · rw [sourceParts]
  · rw [targetParts]
  · rw [← sourceParts, ← targetParts, headLength]
  · rw [← sourceParts, ← targetParts, ← tailLength, List.length_reverse]

/-- Every line has its entry, and the matches are in order. -/
theorem matched_matchLines {source target : List Line}
    {matches_ : List (Option Nat)}
    (found : matchLines source target = some matches_) :
    matches_.length = source.length ∧
      Matched target 0 (source.zip matches_) target.length := by
  obtain ⟨common, rows, columns, ending, rfl, rfl, head, tail⟩ := exists_parts source target
  rw [matchLines_append common rows columns ending head tail] at found
  split at found
  · cases found
  · cases found
    constructor
    · simp only [List.length_append, List.length_map, List.length_range', length_walk]
      omega
    · have commonMatched := @matched_consecutive _ (common ++ (columns ++ ending)) 0 common
        (columns ++ ending) rfl
      have between : Matched (common ++ (columns ++ ending)) common.length
          (rows.zip (walk common.length rows columns)) (common.length + columns.length) :=
        matched_walk (List.drop_left' rfl)
      have endingMatched := @matched_consecutive _ (common ++ (columns ++ ending))
        (common.length + columns.length) ending [] (by
          rw [← List.append_assoc, List.append_nil]
          exact List.drop_left' List.length_append)
      rw [Nat.zero_add] at commonMatched
      have whole := commonMatched.append (between.append endingMatched)
      rw [← List.zip_append (length_walk _ _ _).symm, ← List.zip_append (by simp)] at whole
      rw [List.append_assoc]
      convert whole using 1
      simp only [List.length_append]
      omega

end Notes
end Parvane
