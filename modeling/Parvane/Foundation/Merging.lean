import Mathlib.Data.List.Basic

/-!
# Three-way merging

Two lists were made from a common base.  They are merged segment by segment: where one of the
two kept the base the other one is taken, and where both are the same either is.
-/

namespace Merging

/-! ## Segments -/

/-- The result of a merge of single values. -/
def Fits (base mine theirs result : β) : Prop :=
  (theirs = base ∧ result = mine) ∨ (mine = base ∧ result = theirs) ∨
    (mine = theirs ∧ result = mine)

section

variable {base mine theirs result : β}

section

variable (fits : Fits base mine theirs result)

include fits

theorem Fits.map (f : β -> γ) :
    Fits (f base) (f mine) (f theirs) (f result) := by
  rcases fits with ⟨rfl, rfl⟩ | ⟨rfl, rfl⟩ | ⟨rfl, rfl⟩
  · exact .inl ⟨rfl, rfl⟩
  · exact .inr (.inl ⟨rfl, rfl⟩)
  · exact .inr (.inr ⟨rfl, rfl⟩)

theorem Fits.swap : Fits base theirs mine result := by
  rcases fits with ⟨rfl, rfl⟩ | ⟨rfl, rfl⟩ | ⟨rfl, rfl⟩
  · exact .inr (.inl ⟨rfl, rfl⟩)
  · exact .inl ⟨rfl, rfl⟩
  · exact .inr (.inr ⟨rfl, rfl⟩)

/-- A value that one side does not have is in the result when the other side brought it. -/
theorem Fits.eq_iff
    {value : β}
    (notMine : mine ≠ value) : result = value ↔ theirs = value ∧ base ≠ value := by
  rcases fits with ⟨rfl, rfl⟩ | ⟨rfl, rfl⟩ | ⟨rfl, rfl⟩
  · exact ⟨fun same => absurd same notMine, fun ⟨same, other⟩ => absurd same other⟩
  · exact ⟨fun same => ⟨same, notMine⟩, fun ⟨same, _⟩ => same⟩
  · exact ⟨fun same => absurd same notMine, fun ⟨same, _⟩ => absurd same notMine⟩

end

end

/-- A part of the base, of the two lists and of the result. -/
structure Segment (α : Type u) where
  base : List α
  mine : List α
  theirs : List α
  result : List α

def Segment.Kept (segment : Segment α) : Prop :=
  Fits segment.base segment.mine segment.theirs segment.result

/-- The four lists are cut into segments, each of which is merged well. -/
def Aligned (base mine theirs result : List α) : Prop :=
  ∃ segments : List (Segment α), (∀ segment ∈ segments, segment.Kept) ∧
    base = segments.flatMap Segment.base ∧ mine = segments.flatMap Segment.mine ∧
      theirs = segments.flatMap Segment.theirs ∧ result = segments.flatMap Segment.result

section

variable {base mine theirs result : List α}

theorem Aligned.nil : Aligned ([] : List α) [] [] [] :=
  ⟨[], fun _ member => absurd member List.not_mem_nil, rfl, rfl, rfl, rfl⟩

theorem Aligned.append
    (aligned : Aligned base mine theirs result) {moreBase moreMine moreTheirs more : List α}
    (fits : Fits moreBase moreMine moreTheirs more) :
    Aligned (base ++ moreBase) (mine ++ moreMine) (theirs ++ moreTheirs) (result ++ more) := by
  obtain ⟨segments, kept, rfl, rfl, rfl, rfl⟩ := aligned
  refine ⟨segments ++ [⟨moreBase, moreMine, moreTheirs, more⟩], ?_, ?_, ?_, ?_, ?_⟩
  · intro segment member
    rcases List.mem_append.1 member with before | last
    · exact kept segment before
    · rw [List.mem_singleton.1 last]
      exact fits
  all_goals rw [List.flatMap_append, List.flatMap_singleton]

theorem Aligned.single (fits : Fits base mine theirs result) : Aligned base mine theirs result :=
  Aligned.nil.append fits

section

variable (aligned : Aligned base mine theirs result)

include aligned

theorem Aligned.swap :
    Aligned base theirs mine result := by
  obtain ⟨segments, kept, rfl, rfl, rfl, rfl⟩ := aligned
  refine ⟨segments.map fun segment =>
    ⟨segment.base, segment.theirs, segment.mine, segment.result⟩, ?_, ?_, ?_, ?_, ?_⟩
  · intro segment member
    obtain ⟨original, inSegments, rfl⟩ := List.mem_map.1 member
    exact (kept original inSegments).swap
  all_goals rw [List.flatMap_map]

/-- Nothing that one side added is lost. -/
theorem Aligned.kept
    {item : α}
    (member : item ∈ theirs) : item ∈ base ∨ item ∈ result := by
  obtain ⟨segments, kept, rfl, rfl, rfl, rfl⟩ := aligned
  obtain ⟨segment, inSegments, inTheirs⟩ := List.mem_flatMap.1 member
  have inResult (found : item ∈ segment.result) : item ∈ segments.flatMap Segment.result :=
    List.mem_flatMap.2 ⟨segment, inSegments, found⟩
  rcases kept segment inSegments with ⟨same, -⟩ | ⟨-, same⟩ | ⟨same, isResult⟩
  · rw [same] at inTheirs
    exact .inl (List.mem_flatMap.2 ⟨segment, inSegments, inTheirs⟩)
  · rw [← same] at inTheirs
    exact .inr (inResult inTheirs)
  · rw [← same, ← isResult] at inTheirs
    exact .inr (inResult inTheirs)

/-- Nothing comes from elsewhere. -/
theorem Aligned.mem
    {item : α}
    (member : item ∈ result) : item ∈ mine ∨ item ∈ theirs := by
  obtain ⟨segments, kept, rfl, rfl, rfl, rfl⟩ := aligned
  obtain ⟨segment, inSegments, inResult⟩ := List.mem_flatMap.1 member
  rcases kept segment inSegments with ⟨-, isResult⟩ | ⟨-, isResult⟩ | ⟨-, isResult⟩
  all_goals rw [isResult] at inResult
  · exact .inl (List.mem_flatMap.2 ⟨segment, inSegments, inResult⟩)
  · exact .inr (List.mem_flatMap.2 ⟨segment, inSegments, inResult⟩)
  · exact .inl (List.mem_flatMap.2 ⟨segment, inSegments, inResult⟩)

end

end

/-! ## Matchings -/

/-- Items are matched with equal ones of another list, in the same order, from one index to
another. -/
def Matched (target : List α) : Nat -> List (α × Option Nat) -> Nat -> Prop
  | start, [], last => start ≤ last
  | start, (_, none) :: rest, last => Matched target start rest last
  | start, (item, some index) :: rest, last =>
      start ≤ index ∧ target[index]? = some item ∧ Matched target (index + 1) rest last

section

variable {target : List α} {start last : Nat} {rows rest : List (α × Option Nat)}

theorem Matched.mono
    (matched : Matched target start rows last) {earlier : Nat}
    (before : earlier ≤ start) : Matched target earlier rows last := by
  induction rows generalizing start earlier with
  | nil => exact Nat.le_trans before matched
  | cons row rows inductionHypothesis =>
      obtain ⟨item, found⟩ := row
      cases found with
      | none => exact inductionHypothesis matched before
      | some index =>
          obtain ⟨notBefore, same, later⟩ := matched
          exact ⟨Nat.le_trans before notBefore, same, later⟩

theorem Matched.append {middle : Nat}
    (first : Matched target start rows middle)
    (second : Matched target middle rest last) : Matched target start (rows ++ rest) last := by
  induction rows generalizing start with
  | nil => exact second.mono first
  | cons row rows inductionHypothesis =>
      obtain ⟨item, found⟩ := row
      cases found with
      | none => exact inductionHypothesis first
      | some index =>
          obtain ⟨notBefore, same, later⟩ := first
          exact ⟨notBefore, same, inductionHypothesis later⟩

theorem Matched.of_append
    (matched : Matched target start (rows ++ rest) last) : Matched target start rest last := by
  induction rows generalizing start with
  | nil => exact matched
  | cons row rows inductionHypothesis =>
      obtain ⟨item, found⟩ := row
      cases found with
      | none => exact inductionHypothesis matched
      | some index =>
          obtain ⟨notBefore, -, later⟩ := matched
          exact (inductionHypothesis later).mono (Nat.le_succ_of_le notBefore)

theorem drop_succ_eq {item : α} {items : List α}
    (isPart : target.drop start = item :: items) : target.drop (start + 1) = items := by
  rw [← List.tail_drop, isPart]
  rfl

theorem getElem?_of_drop {item : α} {items : List α}
    (isPart : target.drop start = item :: items) : target[start]? = some item := by
  rw [← List.head?_drop, isPart]
  rfl

/-- Equal parts are matched item by item. -/
theorem matched_consecutive {items after : List α}
    (isPart : target.drop start = items ++ after) :
    Matched target start (items.zip ((List.range' start items.length).map some))
      (start + items.length) := by
  induction items generalizing start with
  | nil => exact Nat.le_refl _
  | cons item items inductionHypothesis =>
      rw [List.length_cons, List.range'_succ, List.map_cons, List.zip_cons_cons]
      have later := inductionHypothesis (drop_succ_eq isPart)
      rw [Nat.add_assoc, Nat.add_comm 1] at later
      exact ⟨Nat.le_refl _, getElem?_of_drop isPart, later⟩

end

end Merging
