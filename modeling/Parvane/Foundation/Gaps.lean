import Mathlib.Data.List.Sort
import Mathlib.Order.Bounds.Basic
import Mathlib.Order.MinMax

/-!
# Spans and the gaps between them

Spans are swept in the order of their starts, with a cursor at the largest stop so far.  What is
between the cursor and the next start is a gap; merging the spans beforehand changes nothing of
what they cover.
-/

namespace Parvane.Gaps

/-- The points from a start on and before a stop. -/
structure Span (α : Type) where
  start : α
  stop : α
  deriving DecidableEq

section

variable {α : Type} [LinearOrder α]

def Span.Covers (span : Span α) (point : α) : Prop :=
  span.start ≤ point ∧ point < span.stop

/-- Some span of a list is over a point. -/
def Covered (spans : List (Span α)) (point : α) : Prop :=
  ∃ span ∈ spans, span.Covers point

/-- Spans in the order of their starts, none of them empty. -/
structure Ordered (spans : List (Span α)) : Prop where
  sorted : spans.Pairwise fun first second => first.start ≤ second.start
  proper : ∀ span ∈ spans, span.start < span.stop

theorem covered_cons {span : Span α} {spans : List (Span α)} {point : α} :
    Covered (span :: spans) point ↔ span.Covers point ∨ Covered spans point := by
  unfold Covered
  simp only [List.mem_cons, exists_eq_or_imp]

theorem covered_append {spans others : List (Span α)} {point : α} :
    Covered (spans ++ others) point ↔ Covered spans point ∨ Covered others point := by
  unfold Covered
  simp only [List.mem_append, or_and_right, exists_or]

theorem covered_singleton {span : Span α} {point : α} :
    Covered [span] point ↔ span.Covers point := by
  unfold Covered
  simp only [List.mem_singleton, exists_eq_left]

theorem not_covered_nil {point : α} : ¬Covered ([] : List (Span α)) point := by
  rintro ⟨_, member, -⟩
  exact absurd member List.not_mem_nil

theorem covered_perm {spans others : List (Span α)} (perm : spans.Perm others) {point : α} :
    Covered spans point ↔ Covered others point := by
  unfold Covered
  simp only [perm.mem_iff]

/-! ## Clipping -/

/-- The part of a span between two points, unless it is empty. -/
def clip (first last : α) (span : Span α) : Option (Span α) :=
  let slot : Span α := ⟨max first span.start, min last span.stop⟩
  if slot.start < slot.stop then some slot else none

variable {first last point : α} {span : Span α} {spans busy : List (Span α)}

theorem clip_eq_some_iff {slot : Span α} :
    clip first last span = some slot ↔
      slot = ⟨max first span.start, min last span.stop⟩ ∧ slot.start < slot.stop := by
  unfold clip
  dsimp only
  rw [Option.ite_none_right_eq_some, Option.some.injEq]
  constructor
  · rintro ⟨proper, rfl⟩
    exact ⟨rfl, proper⟩
  · rintro ⟨rfl, proper⟩
    exact ⟨proper, rfl⟩

/-- Clipping keeps what is covered between the points. -/
theorem covered_filterMap_clip :
    Covered (spans.filterMap (clip first last)) point ↔
      first ≤ point ∧ point < last ∧ Covered spans point := by
  unfold Covered
  constructor
  · rintro ⟨slot, isSlot, above, below⟩
    obtain ⟨span, member, clipped⟩ := List.mem_filterMap.1 isSlot
    obtain ⟨rfl, -⟩ := clip_eq_some_iff.1 clipped
    rw [max_le_iff] at above
    rw [lt_min_iff] at below
    exact ⟨above.1, below.1, span, member, above.2, below.2⟩
  · rintro ⟨above, below, span, member, after, before⟩
    have from_ := max_le above after
    have until_ := lt_min below before
    exact ⟨_, List.mem_filterMap.2
      ⟨span, member, clip_eq_some_iff.2 ⟨rfl, lt_of_le_of_lt from_ until_⟩⟩, from_, until_⟩

/-- What is clipped lies between the points. -/
theorem bounds_of_mem_clip {slot : Span α}
    (member : slot ∈ spans.filterMap (clip first last)) :
    first ≤ slot.start ∧ slot.start < slot.stop ∧ slot.stop ≤ last := by
  obtain ⟨span, -, clipped⟩ := List.mem_filterMap.1 member
  obtain ⟨rfl, proper⟩ := clip_eq_some_iff.1 clipped
  exact ⟨le_max_left _ _, proper, min_le_left _ _⟩

/-- The spans in the order of their starts. -/
def sortSpans (spans : List (Span α)) : List (Span α) :=
  spans.mergeSort fun a b => !decide (b.start < a.start)

theorem sortSpans_perm (spans : List (Span α)) : (sortSpans spans).Perm spans :=
  List.mergeSort_perm _ _

theorem ordered_sortSpans (proper : ∀ span ∈ spans, span.start < span.stop) :
    Ordered (sortSpans spans) where
  sorted := by
    have sorted := @List.pairwise_mergeSort (Span α) (fun a b => !decide (b.start < a.start))
      (fun a b c => by simpa using le_trans) (fun a b => by simpa using le_total a.start b.start)
      spans
    exact sorted.imp fun ordered => by simpa using ordered
  proper span member := proper span ((sortSpans_perm spans).mem_iff.1 member)

/-! ## Merging -/

/-- Put a span behind others, or make the last one longer when they touch. -/
def mergeInto (busy : List (Span α)) (span : Span α) : List (Span α) :=
  match busy.getLast? with
  | some back =>
      if span.start ≤ back.stop then busy.dropLast ++ [⟨back.start, max back.stop span.stop⟩]
      else busy ++ [span]
  | none => busy ++ [span]

/-- Spans cover the same as others, from starts to stops of them. -/
structure Merged (spans busy : List (Span α)) : Prop where
  ordered : Ordered busy
  covered : ∀ point, Covered busy point ↔ Covered spans point
  starts : ∀ slot ∈ busy, ∃ span ∈ spans, slot.start = span.start
  stops : ∀ slot ∈ busy, ∃ span ∈ spans, slot.stop = span.stop

theorem Merged.append
    (merged : Merged spans busy) (sorted : ∀ other ∈ spans, other.start ≤ span.start)
    (proper : span.start < span.stop) : Merged (spans ++ [span]) (busy ++ [span]) := by
  have isLast : span ∈ spans ++ [span] := List.mem_append_right _ List.mem_cons_self
  constructor
  case ordered =>
    constructor
    case sorted =>
      rw [List.pairwise_append]
      refine ⟨merged.ordered.sorted, List.pairwise_singleton _ _, ?_⟩
      intro slot isSlot other isOther
      obtain ⟨source, isSource, same⟩ := merged.starts slot isSlot
      rw [List.mem_singleton.1 isOther, same]
      exact sorted source isSource
    case proper =>
      intro slot isSlot
      rcases List.mem_append.1 isSlot with isOld | isNew
      · exact merged.ordered.proper slot isOld
      · rw [List.mem_singleton.1 isNew]
        exact proper
  case covered =>
    intro point
    rw [covered_append, covered_append, merged.covered]
  case starts =>
    intro slot isSlot
    rcases List.mem_append.1 isSlot with isOld | isNew
    · obtain ⟨source, isSource, same⟩ := merged.starts slot isOld
      exact ⟨source, List.mem_append_left _ isSource, same⟩
    · exact ⟨span, isLast, by rw [List.mem_singleton.1 isNew]⟩
  case stops =>
    intro slot isSlot
    rcases List.mem_append.1 isSlot with isOld | isNew
    · obtain ⟨source, isSource, same⟩ := merged.stops slot isOld
      exact ⟨source, List.mem_append_left _ isSource, same⟩
    · exact ⟨span, isLast, by rw [List.mem_singleton.1 isNew]⟩

/-- The last span is made longer by one that touches it. -/
theorem Merged.extend {before : List (Span α)}
    {back : Span α}
    (merged : Merged spans (before ++ [back]))
    (sorted : ∀ other ∈ spans, other.start ≤ span.start) (touches : span.start ≤ back.stop) :
    Merged (spans ++ [span]) (before ++ [⟨back.start, max back.stop span.stop⟩]) := by
  have isBack : back ∈ before ++ [back] := List.mem_append_right _ List.mem_cons_self
  have isLast : span ∈ spans ++ [span] := List.mem_append_right _ List.mem_cons_self
  have order := List.pairwise_append.1 merged.ordered.sorted
  obtain ⟨first, isFirst, sameStart⟩ := merged.starts back isBack
  have after : back.start ≤ span.start := by
    rw [sameStart]
    exact sorted first isFirst
  constructor
  case ordered =>
    constructor
    case sorted =>
      rw [List.pairwise_append]
      refine ⟨order.1, List.pairwise_singleton _ _, ?_⟩
      intro slot isSlot other isOther
      rw [List.mem_singleton.1 isOther]
      exact order.2.2 slot isSlot back List.mem_cons_self
    case proper =>
      intro slot isSlot
      rcases List.mem_append.1 isSlot with isOld | isNew
      · exact merged.ordered.proper slot (List.mem_append_left _ isOld)
      · rw [List.mem_singleton.1 isNew]
        exact lt_max_of_lt_left (merged.ordered.proper back isBack)
  case covered =>
    intro point
    have joined : (Span.mk back.start (max back.stop span.stop)).Covers point ↔
        back.Covers point ∨ span.Covers point := by
      unfold Span.Covers
      dsimp only
      rw [lt_max_iff]
      constructor
      · rintro ⟨above, inBack | inSpan⟩
        · exact .inl ⟨above, inBack⟩
        · rcases le_or_gt span.start point with started | early
          · exact .inr ⟨started, inSpan⟩
          · exact .inl ⟨above, lt_of_lt_of_le early touches⟩
      · rintro (⟨above, inBack⟩ | ⟨above, inSpan⟩)
        · exact ⟨above, .inl inBack⟩
        · exact ⟨after.trans above, .inr inSpan⟩
    rw [covered_append, covered_append, covered_singleton, covered_singleton, joined,
      ← merged.covered, covered_append, covered_singleton, or_assoc]
  case starts =>
    intro slot isSlot
    rcases List.mem_append.1 isSlot with isOld | isNew
    · obtain ⟨source, isSource, same⟩ := merged.starts slot (List.mem_append_left _ isOld)
      exact ⟨source, List.mem_append_left _ isSource, same⟩
    · exact ⟨first, List.mem_append_left _ isFirst, by rw [List.mem_singleton.1 isNew, sameStart]⟩
  case stops =>
    intro slot isSlot
    rcases List.mem_append.1 isSlot with isOld | isNew
    · obtain ⟨source, isSource, same⟩ := merged.stops slot (List.mem_append_left _ isOld)
      exact ⟨source, List.mem_append_left _ isSource, same⟩
    · rw [List.mem_singleton.1 isNew]
      rcases max_choice back.stop span.stop with isOld | isNew
      · obtain ⟨source, isSource, same⟩ := merged.stops back isBack
        exact ⟨source, List.mem_append_left _ isSource, isOld.trans same⟩
      · exact ⟨span, isLast, isNew⟩

theorem Merged.mergeInto
    (merged : Merged spans busy) (sorted : ∀ other ∈ spans, other.start ≤ span.start)
    (proper : span.start < span.stop) : Merged (spans ++ [span]) (mergeInto busy span) := by
  unfold Gaps.mergeInto
  split
  case h_1 back isBack =>
    obtain ⟨before, rfl⟩ := List.getLast?_eq_some_iff.1 isBack
    split
    case isTrue touches =>
      rw [List.dropLast_concat]
      exact merged.extend sorted touches
    case isFalse => exact merged.append sorted proper
  case h_2 => exact merged.append sorted proper

/-- Merging spans in order, one after another. -/
theorem Merged.foldl {others : List (Span α)}
    (merged : Merged spans busy)
    (ordered : Ordered (spans ++ others)) :
    Merged (spans ++ others) (others.foldl Gaps.mergeInto busy) := by
  induction others generalizing spans busy with
  | nil => rwa [List.append_nil]
  | cons span rest inductionHypothesis =>
      have sorted : ∀ other ∈ spans, other.start ≤ span.start := fun other member =>
        (List.pairwise_append.1 ordered.sorted).2.2 other member span List.mem_cons_self
      have proper := ordered.proper span (List.mem_append_right _ List.mem_cons_self)
      rw [List.append_cons] at ordered ⊢
      exact inductionHypothesis (merged.mergeInto sorted proper) ordered

theorem merged_foldl (ordered : Ordered spans) : Merged spans (spans.foldl Gaps.mergeInto []) := by
  have none : Merged ([] : List (Span α)) [] :=
    ⟨⟨List.Pairwise.nil, fun _ member => absurd member List.not_mem_nil⟩, fun _ => Iff.rfl,
      fun _ member => absurd member List.not_mem_nil,
      fun _ member => absurd member List.not_mem_nil⟩
  exact none.foldl ordered

/-! ## Gaps -/

/-- The gaps between a cursor, spans and a last point. -/
def gapsFrom (last cursor : α) (spans : List (Span α)) : List (Span α) :=
  match spans with
  | [] => if cursor < last then [⟨cursor, last⟩] else []
  | span :: rest =>
      let gap := if cursor < span.start then [⟨cursor, span.start⟩] else []
      gap ++ gapsFrom last (max cursor span.stop) rest

theorem covered_gap {cursor next : α} :
    Covered (if cursor < next then [⟨cursor, next⟩] else []) point ↔
      cursor ≤ point ∧ point < next := by
  split
  case isTrue => exact covered_singleton
  case isFalse none =>
    refine iff_of_false not_covered_nil ?_
    rintro ⟨above, below⟩
    exact none (lt_of_le_of_lt above below)

theorem Ordered.tail (ordered : Ordered (span :: spans)) : Ordered spans where
  sorted := (List.pairwise_cons.1 ordered.sorted).2
  proper slot member := ordered.proper slot (List.mem_cons_of_mem span member)

/-- Nothing is covered before the first span. -/
theorem Ordered.not_covered
    (ordered : Ordered (span :: spans))
    (early : point < span.start) : ¬Covered spans point := by
  rintro ⟨slot, member, above, -⟩
  have after := (List.pairwise_cons.1 ordered.sorted).1 slot member
  exact absurd (after.trans above) (not_le.2 early)

/-- A point is in a gap exactly when it is between the points and no span is over it. -/
theorem covered_gapsFrom {cursor : α}
    (ordered : Ordered spans) (inside : ∀ span ∈ spans, span.stop ≤ last) :
    Covered (gapsFrom last cursor spans) point ↔
      cursor ≤ point ∧ point < last ∧ ¬Covered spans point := by
  induction spans generalizing cursor with
  | nil =>
      rw [gapsFrom, covered_gap]
      simp only [not_covered_nil, not_false_eq_true, and_true]
  | cons span rest inductionHypothesis =>
      have proper := ordered.proper span List.mem_cons_self
      have before := inside span List.mem_cons_self
      rw [gapsFrom, covered_append, covered_gap, covered_cons,
        inductionHypothesis ordered.tail fun slot member =>
          inside slot (List.mem_cons_of_mem span member), max_le_iff]
      constructor
      · rintro (⟨above, early⟩ | ⟨⟨above, after⟩, below, notCovered⟩)
        · refine ⟨above, early.trans (proper.trans_le before), ?_⟩
          rintro (⟨started, -⟩ | covered)
          · exact absurd started (not_le.2 early)
          · exact ordered.not_covered early covered
        · refine ⟨above, below, ?_⟩
          rintro (⟨-, open_⟩ | covered)
          · exact absurd after (not_le.2 open_)
          · exact notCovered covered
      · rintro ⟨above, below, notCovered⟩
        rw [not_or] at notCovered
        rcases lt_or_ge point span.start with early | started
        · exact .inl ⟨above, early⟩
        · have after := not_lt.1 fun open_ => notCovered.1 ⟨started, open_⟩
          exact .inr ⟨⟨above, after⟩, below, notCovered.2⟩

/-- Gaps lie between the cursor and the last point, and none of them is empty. -/
theorem bounds_of_mem_gapsFrom {cursor : α} {gap : Span α}
    (ordered : Ordered spans) (inside : ∀ span ∈ spans, span.stop ≤ last)
    (member : gap ∈ gapsFrom last cursor spans) :
    cursor ≤ gap.start ∧ gap.start < gap.stop ∧ gap.stop ≤ last := by
  induction spans generalizing cursor with
  | nil =>
      rw [gapsFrom] at member
      split at member
      case isTrue some_left =>
        rw [List.mem_singleton.1 member]
        exact ⟨le_refl _, some_left, le_refl _⟩
      case isFalse => exact absurd member List.not_mem_nil
  | cons span rest inductionHypothesis =>
      have proper := ordered.proper span List.mem_cons_self
      have before := inside span List.mem_cons_self
      rw [gapsFrom] at member
      rcases List.mem_append.1 member with isFirst | isLater
      · split at isFirst
        case isTrue some_left =>
          rw [List.mem_singleton.1 isFirst]
          exact ⟨le_refl _, some_left, proper.le.trans before⟩
        case isFalse => exact absurd isFirst List.not_mem_nil
      · obtain ⟨after, rest⟩ := inductionHypothesis ordered.tail
          (fun slot member => inside slot (List.mem_cons_of_mem span member)) isLater
        exact ⟨(le_max_left _ _).trans after, rest⟩

/-- Gaps are apart from each other and in order. -/
theorem pairwise_gapsFrom {cursor : α}
    (ordered : Ordered spans) (inside : ∀ span ∈ spans, span.stop ≤ last) :
    (gapsFrom last cursor spans).Pairwise fun first second => first.stop < second.start := by
  induction spans generalizing cursor with
  | nil =>
      rw [gapsFrom]
      split
      case isTrue => exact List.pairwise_singleton _ _
      case isFalse => exact List.Pairwise.nil
  | cons span rest inductionHypothesis =>
      have proper := ordered.proper span List.mem_cons_self
      have insideRest : ∀ slot ∈ rest, slot.stop ≤ last := fun slot member =>
        inside slot (List.mem_cons_of_mem span member)
      rw [gapsFrom, List.pairwise_append]
      refine ⟨?_, inductionHypothesis ordered.tail insideRest, ?_⟩
      · split
        case isTrue => exact List.pairwise_singleton _ _
        case isFalse => exact List.Pairwise.nil
      · intro gap isFirst later isLater
        obtain ⟨after, -⟩ := bounds_of_mem_gapsFrom ordered.tail insideRest isLater
        split at isFirst
        case isTrue =>
          rw [List.mem_singleton.1 isFirst]
          exact proper.trans_le ((le_max_right _ _).trans after)
        case isFalse => exact absurd isFirst List.not_mem_nil

end

/-! ## Fitting -/

section

variable {size last cursor start : Int} {span : Span Int} {spans : List (Span Int)}

/-- The first start at which a size fits before the next span. -/
def firstFit (size cursor : Int) (spans : List (Span Int)) : Option Int :=
  match spans with
  | [] => none
  | span :: rest =>
      if span.start - cursor ≥ size then some cursor
      else firstFit size (max cursor span.stop) rest

/-- A size fits at a start: it ends in time, and no span is over a point of it. -/
def Fits (spans : List (Span Int)) (last size start : Int) : Prop :=
  start + size ≤ last ∧ ∀ point, start ≤ point -> point < start + size -> ¬Covered spans point

/-- Behind a span that leaves too little space, the size can only fit after the span. -/
theorem fits_cons_iff
    (positive : 0 < size) (proper : span.start < span.stop) (tooSmall : span.start - cursor < size)
    (above : cursor ≤ start) :
    Fits (span :: spans) last size start ↔ span.stop ≤ start ∧ Fits spans last size start := by
  unfold Fits
  simp only [covered_cons, not_or]
  constructor
  · rintro ⟨inTime, free⟩
    refine ⟨?_, inTime, fun point after before => (free point after before).2⟩
    by_contra open_
    refine (free (max start span.start) (by omega) (by omega)).1 ⟨by omega, by omega⟩
  · rintro ⟨after, inTime, free⟩
    refine ⟨inTime, fun point above below => ⟨?_, free point above below⟩⟩
    rintro ⟨-, open_⟩
    omega

/-- The first start that is found is the least one at which the size fits. -/
theorem firstFit_spec
    (positive : 0 < size) (ordered : Ordered spans) (inside : ∀ span ∈ spans, span.stop ≤ last) :
    (∀ start, firstFit size cursor (spans ++ [⟨last, last⟩]) = some start ->
        IsLeast {start | cursor ≤ start ∧ Fits spans last size start} start) ∧
      (firstFit size cursor (spans ++ [⟨last, last⟩]) = none ->
        ∀ start, cursor ≤ start -> ¬Fits spans last size start) := by
  induction spans generalizing cursor with
  | nil =>
      have fits (start : Int) : Fits ([] : List (Span Int)) last size start ↔ start + size ≤ last :=
        and_iff_left fun _ _ _ => not_covered_nil
      rw [List.nil_append, firstFit, firstFit]
      simp only [fits]
      by_cases room : last - cursor ≥ size
      · rw [if_pos room]
        refine ⟨fun start isStart => ?_, fun isNone => by cases isNone⟩
        cases isStart
        exact ⟨⟨Int.le_refl _, by omega⟩, fun other isOther => isOther.1⟩
      · rw [if_neg room]
        refine ⟨fun start isStart => ?_, fun _ start above => by omega⟩
        cases isStart
  | cons span rest inductionHypothesis =>
      have proper := ordered.proper span List.mem_cons_self
      have before := inside span List.mem_cons_self
      rw [List.cons_append, firstFit]
      by_cases room : span.start - cursor ≥ size
      · rw [if_pos room]
        refine ⟨fun start isStart => ?_, fun isNone => by cases isNone⟩
        cases isStart
        refine ⟨⟨Int.le_refl _, by omega, fun point _ below => ?_⟩, fun other isOther => isOther.1⟩
        rw [covered_cons, not_or]
        refine ⟨?_, ordered.not_covered (by omega)⟩
        rintro ⟨started, -⟩
        omega
      · have later (start : Int) : cursor ≤ start ∧ Fits (span :: rest) last size start ↔
            max cursor span.stop ≤ start ∧ Fits rest last size start := by
          constructor
          · rintro ⟨above, fits⟩
            obtain ⟨after, fitsRest⟩ :=
              (fits_cons_iff positive proper (Int.not_le.1 room) above).1 fits
            exact ⟨max_le above after, fitsRest⟩
          · rintro ⟨after, fitsRest⟩
            rw [max_le_iff] at after
            exact ⟨after.1, (fits_cons_iff positive proper (Int.not_le.1 room) after.1).2
              ⟨after.2, fitsRest⟩⟩
        obtain ⟨found, notFound⟩ := @inductionHypothesis (max cursor span.stop) ordered.tail
          fun slot member => inside slot (List.mem_cons_of_mem span member)
        rw [if_neg room]
        refine ⟨fun start isStart => ?_, fun isNone start above fits => ?_⟩
        · simp only [later]
          exact found start isStart
        · obtain ⟨after, fitsRest⟩ := (later start).1 ⟨above, fits⟩
          exact notFound isNone start after fitsRest

end

end Parvane.Gaps
