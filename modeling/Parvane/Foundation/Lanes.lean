import Mathlib.Data.Finset.Card
import Mathlib.Data.List.Basic
import Mathlib.Logic.Relation
import Mathlib.Order.Basic

/-!
# Spans in lanes

Spans in the order of their starts are put into lanes, each into the first one that is free.
Spans that overlap get different lanes, and as many lanes are opened as spans overlap at one
point.
-/

namespace Parvane.Lanes

section

variable {ε α : Type} [LinearOrder α] (start stop : ε -> α)

/-- Two spans have a point in common, when neither of them is empty. -/
def Overlap (first second : ε) : Prop :=
  start first < stop second ∧ start second < stop first

def Covers (point : α) (entry : ε) : Prop :=
  start entry ≤ point ∧ point < stop entry

instance (point : α) (entry : ε) : Decidable (Covers start stop point entry) :=
  inferInstanceAs (Decidable (_ ∧ _))

/-- Two entries are connected through overlaps of entries of a list. -/
def Connected (entries : List ε) : ε -> ε -> Prop :=
  Relation.ReflTransGen fun first second =>
    first ∈ entries ∧ second ∈ entries ∧ Overlap start stop first second

open Classical in
/-- The number of entries connected with an entry that are over a point. -/
noncomputable def overlapping (entries : List ε) (entry : ε) (point : α) : Nat :=
  entries.countP fun other =>
    decide (Connected start stop entries entry other ∧ Covers start stop point other)

variable {start stop}

theorem Overlap.symm {first second : ε} (overlap : Overlap start stop first second) :
    Overlap start stop second first :=
  ⟨overlap.2, overlap.1⟩

variable {first second : ε}

theorem Covers.overlap {point : α}
    (covers : Covers start stop point first)
    (otherCovers : Covers start stop point second) : Overlap start stop first second :=
  ⟨lt_of_le_of_lt covers.1 otherCovers.2, lt_of_le_of_lt otherCovers.1 covers.2⟩

theorem Connected.symm {entries : List ε}
    (connected : Connected start stop entries first second) :
    Connected start stop entries second first := by
  induction connected with
  | refl => exact Relation.ReflTransGen.refl
  | tail _ both inductionHypothesis =>
      exact inductionHypothesis.head ⟨both.2.1, both.1, both.2.2.symm⟩

theorem Connected.mono {entries others : List ε}
    (subset : entries ⊆ others) (connected : Connected start stop entries first second) :
    Connected start stop others first second :=
  Relation.ReflTransGen.mono (fun _ _ both => ⟨subset both.1, subset both.2.1, both.2.2⟩) _ _
    connected

theorem Connected.map {δ : Type} {change : ε -> δ} {start stop : δ -> α} {entries : List ε}
    (connected : Connected (start ∘ change) (stop ∘ change) entries first second) :
    Connected start stop (entries.map change) (change first) (change second) := by
  induction connected with
  | refl => exact Relation.ReflTransGen.refl
  | tail _ both inductionHypothesis =>
      exact inductionHypothesis.tail
        ⟨List.mem_map_of_mem both.1, List.mem_map_of_mem both.2.1, both.2.2⟩

/-! ## Entries with their lanes -/

variable (start stop) (lane : ε -> Nat)

/-- Every entry has its lane, and lanes are opened only when all others are taken.  A lane ends
where its last entry does. -/
structure Placed (entries : List ε) (laneEnds : List α) : Prop where
  last : ∀ index (inside : index < laneEnds.length),
    ∃ entry ∈ entries, lane entry = index ∧ stop entry = laneEnds[index]
  ends : ∀ entry ∈ entries, ∃ inside : lane entry < laneEnds.length,
    stop entry ≤ laneEnds[lane entry]
  distinct : entries.Pairwise fun first second =>
    Overlap start stop first second -> lane first ≠ lane second
  reached : entries ≠ [] -> ∃ point,
    laneEnds.length ≤ entries.countP fun entry => decide (Covers start stop point entry)

/-- The lanes after an entry with a start and a stop took one. -/
def takeLane (laneEnds : List α) (first last : α) : List α :=
  let lane := laneEnds.findIdx fun laneEnd => decide (laneEnd ≤ first)
  if lane = laneEnds.length then laneEnds ++ [last] else laneEnds.set lane last

variable {start stop lane} {entries : List ε} {laneEnds : List α} {entry : ε}

theorem Placed.nil : Placed start stop lane [] [] where
  last _ inside := absurd inside (Nat.not_lt_zero _)
  ends _ member := absurd member List.not_mem_nil
  distinct := List.Pairwise.nil
  reached notEmpty := absurd rfl notEmpty

/-- Entries that are over one point have different lanes. -/
theorem length_le_of_distinct
    (distinct : entries.Pairwise fun first second =>
      Overlap start stop first second -> lane first ≠ lane second)
    {count : Nat} (point : α) (below : ∀ entry ∈ entries, lane entry < count)
    (covers : ∀ entry ∈ entries, Covers start stop point entry) : entries.length ≤ count := by
  have nodup : (entries.map lane).Nodup := by
    rw [List.Nodup, List.pairwise_map]
    refine distinct.imp_of_mem fun member otherMember different => ?_
    exact different ((covers _ member).overlap (covers _ otherMember))
  have subset : (entries.map lane).toFinset ⊆ Finset.range count := by
    intro index member
    rw [List.mem_toFinset, List.mem_map] at member
    obtain ⟨entry, isEntry, rfl⟩ := member
    exact Finset.mem_range.2 (below entry isEntry)
  have size := Finset.card_le_card subset
  rwa [List.toFinset_card_of_nodup nodup, List.length_map, Finset.card_range] at size

section

variable (placed : Placed start stop lane entries laneEnds)

include placed

/-- When no lane is free, every lane has an entry that is over the point. -/
theorem Placed.length_le_countP
    {point : α} (sorted : ∀ entry ∈ entries, start entry ≤ point)
    (taken : ∀ laneEnd ∈ laneEnds, point < laneEnd) :
    laneEnds.length ≤ entries.countP fun entry => decide (Covers start stop point entry) := by
  have subset : Finset.range laneEnds.length ⊆
      ((entries.filter fun entry => decide (Covers start stop point entry)).map lane).toFinset := by
    intro index member
    obtain ⟨entry, isEntry, rfl, isEnd⟩ := placed.last index (Finset.mem_range.1 member)
    have open_ := taken _ (List.getElem_mem (Finset.mem_range.1 member))
    rw [List.mem_toFinset]
    refine List.mem_map_of_mem (List.mem_filter.2 ⟨isEntry, decide_eq_true ⟨sorted _ isEntry, ?_⟩⟩)
    rwa [isEnd]
  have size := Finset.card_le_card subset
  rw [Finset.card_range] at size
  rw [List.countP_eq_length_filter]
  exact size.trans ((List.toFinset_card_le _).trans (List.length_map lane).le)

/-- When no lane is free, an entry opens one. -/
theorem Placed.snoc_new
    (sorted : ∀ other ∈ entries, start other ≤ start entry) (notEmpty : start entry < stop entry)
    (isNew : lane entry = laneEnds.length) (taken : ∀ laneEnd ∈ laneEnds, start entry < laneEnd) :
    Placed start stop lane (entries ++ [entry]) (laneEnds ++ [stop entry]) := by
  constructor
  case last =>
    intro index inside
    by_cases isOld : index < laneEnds.length
    · obtain ⟨other, isOther, isIndex, isEnd⟩ := placed.last index isOld
      refine ⟨other, List.mem_append_left _ isOther, isIndex, ?_⟩
      rw [isEnd, List.getElem_append_left isOld]
    · rw [List.length_append, List.length_singleton] at inside
      have isLast : index = laneEnds.length := by omega
      subst isLast
      refine ⟨entry, List.mem_append_right _ List.mem_cons_self, isNew, ?_⟩
      simp
  case ends =>
    intro other member
    rcases List.mem_append.1 member with isOld | isEntry
    · obtain ⟨inside, before⟩ := placed.ends other isOld
      refine ⟨by rw [List.length_append]; omega, ?_⟩
      rwa [List.getElem_append_left inside]
    · rw [List.mem_singleton.1 isEntry]
      refine ⟨by rw [List.length_append, List.length_singleton]; omega, ?_⟩
      simp [isNew]
  case distinct =>
    rw [List.pairwise_append]
    refine ⟨placed.distinct, List.pairwise_singleton _ _, ?_⟩
    intro other isOther _ isEntry _
    obtain ⟨inside, -⟩ := placed.ends other isOther
    rw [List.mem_singleton.1 isEntry]
    omega
  case reached =>
    intro _
    refine ⟨start entry, ?_⟩
    have before := placed.length_le_countP sorted taken
    have covers : Covers start stop (start entry) entry := ⟨le_refl _, notEmpty⟩
    rw [List.countP_append, List.countP_singleton, decide_eq_true covers, if_pos rfl,
      List.length_append, List.length_singleton]
    omega

/-- A lane that is free is used again. -/
theorem Placed.snoc_free
    (notEmpty : start entry < stop entry) (inside : lane entry < laneEnds.length)
    (isFree : laneEnds[lane entry] ≤ start entry) :
    Placed start stop lane (entries ++ [entry]) (laneEnds.set (lane entry) (stop entry)) := by
  constructor
  case last =>
    intro index insideSet
    rw [List.length_set] at insideSet
    by_cases isLane : lane entry = index
    · subst isLane
      refine ⟨entry, List.mem_append_right _ List.mem_cons_self, rfl, ?_⟩
      rw [List.getElem_set_self]
    · obtain ⟨other, isOther, isIndex, isEnd⟩ := placed.last index insideSet
      refine ⟨other, List.mem_append_left _ isOther, isIndex, ?_⟩
      rw [isEnd, List.getElem_set_ne isLane]
  case ends =>
    intro other member
    rcases List.mem_append.1 member with isOld | isEntry
    · obtain ⟨otherInside, before⟩ := placed.ends other isOld
      refine ⟨by rwa [List.length_set], ?_⟩
      by_cases sameLane : lane entry = lane other
      · rw [List.getElem_set, if_pos sameLane]
        have stillFree : laneEnds[lane other] ≤ start entry := by
          simpa only [sameLane] using isFree
        exact before.trans (stillFree.trans notEmpty.le)
      · rwa [List.getElem_set_ne sameLane]
    · rw [List.mem_singleton.1 isEntry]
      refine ⟨by rwa [List.length_set], ?_⟩
      rw [List.getElem_set_self]
  case distinct =>
    rw [List.pairwise_append]
    refine ⟨placed.distinct, List.pairwise_singleton _ _, ?_⟩
    intro other isOther _ isEntry overlap sameLane
    rw [List.mem_singleton.1 isEntry] at overlap sameLane
    obtain ⟨otherInside, before⟩ := placed.ends other isOther
    have stillFree : laneEnds[lane other] ≤ start entry := by
      simpa only [sameLane] using isFree
    exact absurd overlap.2 (not_lt.2 (before.trans stillFree))
  case reached =>
    intro _
    have some_entry : entries ≠ [] := by
      obtain ⟨other, isOther, -⟩ := placed.last _ inside
      exact List.ne_nil_of_mem isOther
    obtain ⟨point, before⟩ := placed.reached some_entry
    refine ⟨point, ?_⟩
    rw [List.length_set, List.countP_append]
    omega

/-- One entry more takes the first lane that is free. -/
theorem Placed.snoc
    (sorted : ∀ other ∈ entries, start other ≤ start entry) (notEmpty : start entry < stop entry)
    (isLane : lane entry = laneEnds.findIdx fun laneEnd => decide (laneEnd ≤ start entry)) :
    Placed start stop lane (entries ++ [entry]) (takeLane laneEnds (start entry) (stop entry)) := by
  unfold takeLane
  dsimp only
  rw [← isLane]
  split
  case isTrue isNew =>
    refine placed.snoc_new sorted notEmpty isNew fun laneEnd member => ?_
    rw [isLane, List.findIdx_eq_length] at isNew
    simpa using isNew laneEnd member
  case isFalse notNew =>
    have atMost := @List.findIdx_le_length _
      (fun laneEnd => decide (laneEnd ≤ start entry)) laneEnds
    have inside : lane entry < laneEnds.length := by omega
    refine placed.snoc_free notEmpty inside ?_
    have isFree := List.findIdx_getElem (w := isLane ▸ inside)
    simpa only [← isLane, decide_eq_true_eq] using isFree

end

/-! ## Connected entries -/

/-- All entries are connected with each other. -/
def Linked (start stop : ε -> α) (entries : List ε) : Prop :=
  ∀ first ∈ entries, ∀ second ∈ entries, Connected start stop entries first second

theorem linked_singleton (entry : ε) : Linked start stop [entry] := by
  intro first isFirst second isSecond
  rw [List.mem_singleton.1 isFirst, List.mem_singleton.1 isSecond]
  exact Relation.ReflTransGen.refl

/-- An entry that overlaps one of them is connected with all. -/
theorem Linked.snoc {other : ε}
    (linked : Linked start stop entries) (isOther : other ∈ entries)
    (overlap : Overlap start stop other entry) : Linked start stop (entries ++ [entry]) := by
  have subset : entries ⊆ entries ++ [entry] := fun _ => List.mem_append_left _
  have isLast : entry ∈ entries ++ [entry] := List.mem_append_right _ List.mem_cons_self
  have toLast : ∀ first ∈ entries ++ [entry],
      Connected start stop (entries ++ [entry]) first entry := by
    intro first isFirst
    rcases List.mem_append.1 isFirst with isOld | isEntry
    · exact ((linked first isOld other isOther).mono subset).tail
        ⟨subset isOther, isLast, overlap⟩
    · rw [List.mem_singleton.1 isEntry]
      exact Relation.ReflTransGen.refl
  intro first isFirst second isSecond
  exact (toLast first isFirst).trans (toLast second isSecond).symm

/-! ## Entries with the number of lanes -/

variable (start stop lane) (lanes : ε -> Nat)

/-- Connected entries have the same number of lanes, no more than overlap at one point. -/
structure Settled (entries : List ε) : Prop where
  lane_lt : ∀ entry ∈ entries, lane entry < lanes entry
  distinct : entries.Pairwise fun first second =>
    Overlap start stop first second -> lane first ≠ lane second
  same : ∀ first ∈ entries, ∀ second ∈ entries,
    Overlap start stop first second -> lanes first = lanes second
  reached : ∀ entry ∈ entries, ∃ point, lanes entry ≤ overlapping start stop entries entry point

variable {start stop lane lanes} {others : List ε}

theorem Settled.nil : Settled start stop lane lanes [] where
  lane_lt _ member := absurd member List.not_mem_nil
  distinct := List.Pairwise.nil
  same _ member := absurd member List.not_mem_nil
  reached _ member := absurd member List.not_mem_nil

/-- Connected entries have the same number of lanes. -/
theorem Settled.lanes_eq {other : ε}
    (settled : Settled start stop lane lanes entries)
    (connected : Connected start stop entries entry other) : lanes other = lanes entry := by
  induction connected with
  | refl => rfl
  | tail _ both inductionHypothesis =>
      rw [← settled.same _ both.1 _ both.2.1 both.2.2, inductionHypothesis]

/-- No more entries than there are lanes overlap at a point. -/
theorem Settled.overlapping_le
    (settled : Settled start stop lane lanes entries) (entry : ε)
    (point : α) : overlapping start stop entries entry point ≤ lanes entry := by
  classical
  unfold overlapping
  rw [List.countP_eq_length_filter]
  refine length_le_of_distinct (settled.distinct.filter _) point ?_ ?_
  · intro other member
    rw [List.mem_filter, decide_eq_true_eq] at member
    obtain ⟨isEntry, connected, -⟩ := member
    rw [← settled.lanes_eq connected]
    exact settled.lane_lt other isEntry
  · intro other member
    rw [List.mem_filter, decide_eq_true_eq] at member
    exact member.2.2

theorem overlapping_mono
    (sublist : entries.Sublist others) (entry : ε) (point : α) :
    overlapping start stop entries entry point ≤ overlapping start stop others entry point := by
  classical
  unfold overlapping
  refine (List.countP_mono_left fun other _ chosen => ?_).trans (sublist.countP_le)
  rw [decide_eq_true_eq] at chosen ⊢
  exact ⟨chosen.1.mono sublist.subset, chosen.2⟩

/-- Entries that do not overlap others are settled apart from them. -/
theorem Settled.append
    (settled : Settled start stop lane lanes entries)
    (otherSettled : Settled start stop lane lanes others)
    (apart : ∀ first ∈ entries, ∀ second ∈ others, ¬Overlap start stop first second) :
    Settled start stop lane lanes (entries ++ others) := by
  constructor
  case lane_lt =>
    intro entry member
    exact (List.mem_append.1 member).elim (settled.lane_lt entry) (otherSettled.lane_lt entry)
  case distinct =>
    rw [List.pairwise_append]
    exact ⟨settled.distinct, otherSettled.distinct, fun first isFirst second isSecond overlap =>
      absurd overlap (apart first isFirst second isSecond)⟩
  case same =>
    intro first isFirst second isSecond overlap
    rcases List.mem_append.1 isFirst with isFirst | isFirst
    · rcases List.mem_append.1 isSecond with isSecond | isSecond
      · exact settled.same first isFirst second isSecond overlap
      · exact absurd overlap (apart first isFirst second isSecond)
    · rcases List.mem_append.1 isSecond with isSecond | isSecond
      · exact absurd overlap.symm (apart second isSecond first isFirst)
      · exact otherSettled.same first isFirst second isSecond overlap
  case reached =>
    intro entry member
    rcases List.mem_append.1 member with isEntry | isEntry
    · obtain ⟨point, some_overlap⟩ := settled.reached entry isEntry
      exact ⟨point, some_overlap.trans
        (overlapping_mono (List.sublist_append_left _ _) entry point)⟩
    · obtain ⟨point, some_overlap⟩ := otherSettled.reached entry isEntry
      exact ⟨point, some_overlap.trans
        (overlapping_mono (List.sublist_append_right _ _) entry point)⟩

/-- Only spans, lanes and their numbers matter. -/
theorem Settled.map {δ : Type} {change : δ -> ε} {entries : List δ}
    (settled : Settled (start ∘ change) (stop ∘ change) (lane ∘ change) (lanes ∘ change) entries) :
    Settled start stop lane lanes (entries.map change) := by
  constructor
  case lane_lt =>
    intro entry member
    obtain ⟨source, isSource, rfl⟩ := List.mem_map.1 member
    exact settled.lane_lt source isSource
  case distinct =>
    rw [List.pairwise_map]
    exact settled.distinct
  case same =>
    intro first isFirst second isSecond overlap
    obtain ⟨source, isSource, rfl⟩ := List.mem_map.1 isFirst
    obtain ⟨other, isOther, rfl⟩ := List.mem_map.1 isSecond
    exact settled.same source isSource other isOther overlap
  case reached =>
    intro entry member
    obtain ⟨source, isSource, rfl⟩ := List.mem_map.1 member
    obtain ⟨point, some_overlap⟩ := settled.reached source isSource
    refine ⟨point, some_overlap.trans ?_⟩
    classical
    unfold overlapping
    rw [List.countP_map]
    refine List.countP_mono_left fun other _ chosen => ?_
    rw [Function.comp_apply, decide_eq_true_eq]
    rw [decide_eq_true_eq] at chosen
    exact ⟨chosen.1.map, chosen.2⟩

/-- Entries that are connected with each other are settled with the lanes they opened. -/
theorem Placed.settled
    (placed : Placed start stop lane entries laneEnds) (linked : Linked start stop entries) :
    Settled start stop lane (fun _ => laneEnds.length) entries where
  lane_lt entry member := (placed.ends entry member).1
  distinct := placed.distinct
  same _ _ _ _ _ := rfl
  reached entry member := by
    obtain ⟨point, some_overlap⟩ := placed.reached (List.ne_nil_of_mem member)
    refine ⟨point, some_overlap.trans ?_⟩
    classical
    unfold overlapping
    refine List.countP_mono_left fun other isOther covers => ?_
    rw [decide_eq_true_eq] at covers ⊢
    exact ⟨linked entry member other isOther, covers⟩

end

end Parvane.Lanes
