import Parvane.Agenda.Timed
import Parvane.Foundation.Lanes

/-!
# The column of a day

Things with a time are laid out side by side where they overlap.  They are put into lanes in the
order of their starts; when nothing is left open, the lanes of a group are counted and the next
group begins.  In the end every thing is widened up to the next one that would hide its title.
-/

namespace Parvane.Agenda

open Lanes

/-- What begins this many minutes later does not hide a title. -/
def titleMinutes : Int :=
  40

structure TimedLayout where
  item : Timed
  lane : Nat
  lanes : Nat
  right : Nat

def startOf (item : Timed) : Int :=
  toMinutes item.start

/-- Every thing takes a minute at least. -/
def endOf (item : Timed) : Int :=
  max (toMinutes item.end_) (startOf item + 1)

def TimedLayout.start (entry : TimedLayout) : Int :=
  startOf entry.item

def TimedLayout.stop (entry : TimedLayout) : Int :=
  endOf entry.item

/-- The state of the sweep.  The cluster is what is laid out since the last one was closed: the
last entries of the result. -/
structure Sweep where
  closed : List TimedLayout
  cluster : List TimedLayout
  clusterEnd : Int
  laneEnds : List Int

def Sweep.closeCluster (sweep : Sweep) : Sweep where
  closed := sweep.closed ++
    sweep.cluster.map fun entry => { entry with lanes := sweep.laneEnds.length }
  cluster := []
  clusterEnd := sweep.clusterEnd
  laneEnds := []

/-- Lay out one more thing in the open cluster. -/
def Sweep.addTo (sweep : Sweep) (item : Timed) : Sweep :=
  let lane := sweep.laneEnds.findIdx fun laneEnd => decide (laneEnd ≤ startOf item)
  { closed := sweep.closed
    cluster := sweep.cluster ++ [⟨item, lane, 1, 1⟩]
    clusterEnd := max sweep.clusterEnd (endOf item)
    laneEnds := takeLane sweep.laneEnds (startOf item) (endOf item) }

def Sweep.place (sweep : Sweep) (item : Timed) : Sweep :=
  if startOf item ≥ sweep.clusterEnd then sweep.closeCluster.addTo item else sweep.addTo item

/-- The lane up to which an entry reaches. -/
def rightOf (result : List TimedLayout) (entry : TimedLayout) : Nat :=
  result.foldl (fun right other =>
    if other.lane ≤ entry.lane then right
    else
      let isOverlapping :=
        decide (other.start < entry.stop) && decide (entry.start < other.stop)
      if isOverlapping && decide (other.start < entry.start + titleMinutes) then
        min right other.lane
      else right) entry.lanes

def layoutTimed (timed : List Timed) : List TimedLayout :=
  let sorted := timed.mergeSort fun a b => !decide (toMinutes b.start < toMinutes a.start)
  let result := (sorted.foldl Sweep.place ⟨[], [], -1, []⟩).closeCluster.closed
  result.map fun entry => { entry with right := rightOf result entry }

/-! ## The sweep -/

section

variable {sweep : Sweep} {placed : List Timed} {item : Timed}

theorem startOf_lt_endOf (item : Timed) : startOf item < endOf item := by
  unfold endOf
  omega

/-- The sweep has laid out some things: closed groups are settled, the open one is connected and
ends where the last of its entries does. -/
structure Swept (placed : List Timed) (sweep : Sweep) : Prop where
  items : (sweep.closed ++ sweep.cluster).map TimedLayout.item = placed
  settled : Settled TimedLayout.start TimedLayout.stop TimedLayout.lane TimedLayout.lanes
    sweep.closed
  lanes : Placed TimedLayout.start TimedLayout.stop TimedLayout.lane sweep.cluster sweep.laneEnds
  linked : Linked TimedLayout.start TimedLayout.stop sweep.cluster
  apart : ∀ entry ∈ sweep.closed, ∀ other ∈ sweep.cluster, entry.stop ≤ other.start
  ends : ∀ entry ∈ sweep.closed ++ sweep.cluster, entry.stop ≤ sweep.clusterEnd
  last : sweep.cluster ≠ [] -> ∃ entry ∈ sweep.cluster, entry.stop = sweep.clusterEnd

theorem swept_nil : Swept [] ⟨[], [], -1, []⟩ where
  items := rfl
  settled := Settled.nil
  lanes := Placed.nil
  linked _ member := absurd member List.not_mem_nil
  apart _ member := absurd member List.not_mem_nil
  ends _ member := absurd member List.not_mem_nil
  last notEmpty := absurd rfl notEmpty

section

variable (swept : Swept placed sweep)

include swept

/-- A closed cluster is settled. -/
theorem Swept.closeCluster : Swept placed sweep.closeCluster := by
  have group : Settled TimedLayout.start TimedLayout.stop TimedLayout.lane TimedLayout.lanes
      (sweep.cluster.map fun entry => { entry with lanes := sweep.laneEnds.length }) :=
    Settled.map (swept.lanes.settled swept.linked)
  constructor
  case items =>
    rw [← swept.items]
    simp [Sweep.closeCluster, Function.comp_def]
  case settled =>
    refine swept.settled.append group fun entry isEntry other isOther overlap => ?_
    obtain ⟨source, isSource, rfl⟩ := List.mem_map.1 isOther
    exact absurd overlap.2 (not_lt.2 (swept.apart entry isEntry source isSource))
  case lanes => exact Placed.nil
  case linked => exact fun _ member => absurd member List.not_mem_nil
  case apart => exact fun _ _ _ member => absurd member List.not_mem_nil
  case ends =>
    intro entry member
    rw [Sweep.closeCluster, List.append_nil, List.mem_append] at member
    rcases member with isClosed | isOpen
    · exact swept.ends entry (List.mem_append_left _ isClosed)
    · obtain ⟨source, isSource, rfl⟩ := List.mem_map.1 isOpen
      exact swept.ends source (List.mem_append_right _ isSource)
  case last => exact fun notEmpty => absurd rfl notEmpty

/-- One thing more is laid out in an empty cluster, or next to what is still open. -/
theorem Swept.addTo
    (sorted : ∀ entry ∈ sweep.closed ++ sweep.cluster, entry.start ≤ startOf item)
    (follows : sweep.cluster = [] ∧ sweep.clusterEnd ≤ startOf item ∨
      sweep.cluster ≠ [] ∧ startOf item < sweep.clusterEnd) :
    Swept (placed ++ [item]) (sweep.addTo item) := by
  have notEmpty := startOf_lt_endOf item
  constructor
  case items =>
    rw [← swept.items, Sweep.addTo, ← List.append_assoc, List.map_append]
    rfl
  case settled => exact swept.settled
  case lanes =>
    refine swept.lanes.snoc (fun other member => ?_) notEmpty rfl
    exact sorted other (List.mem_append_right _ member)
  case linked =>
    rcases follows with ⟨isEmpty, -⟩ | ⟨some_open, inside⟩
    · rw [Sweep.addTo, isEmpty]
      exact linked_singleton _
    · obtain ⟨other, isOther, isEnd⟩ := swept.last some_open
      have before := sorted other (List.mem_append_right _ isOther)
      refine swept.linked.snoc isOther ⟨Int.lt_of_le_of_lt before notEmpty, ?_⟩
      rw [isEnd]
      exact inside
  case apart =>
    intro entry isEntry other isOther
    rcases List.mem_append.1 isOther with isOld | isNew
    · exact swept.apart entry isEntry other isOld
    rw [List.mem_singleton.1 isNew]
    rcases follows with ⟨-, after⟩ | ⟨some_open, -⟩
    · exact (swept.ends entry (List.mem_append_left _ isEntry)).trans after
    · obtain ⟨first, isFirst, -⟩ := swept.last some_open
      exact (swept.apart entry isEntry first isFirst).trans
        (sorted first (List.mem_append_right _ isFirst))
  case ends =>
    intro entry member
    rw [Sweep.addTo, ← List.append_assoc] at member
    rcases List.mem_append.1 member with isOld | isNew
    · exact (swept.ends entry isOld).trans (le_max_left _ _)
    · rw [List.mem_singleton.1 isNew]
      exact le_max_right _ _
  case last =>
    intro _
    by_cases isLast : sweep.clusterEnd ≤ endOf item
    · refine ⟨_, List.mem_append_right _ List.mem_cons_self, ?_⟩
      exact (max_eq_right isLast).symm
    · rcases follows with ⟨-, after⟩ | ⟨some_open, -⟩
      · omega
      · obtain ⟨other, isOther, isEnd⟩ := swept.last some_open
        refine ⟨other, List.mem_append_left _ isOther, ?_⟩
        rw [isEnd]
        exact (max_eq_left (by omega)).symm

/-- A step of the sweep: after it, something is open. -/
theorem Swept.place
    (some_open : sweep.cluster = [] -> sweep.clusterEnd ≤ 0)
    (sorted : ∀ other ∈ placed, startOf other ≤ startOf item) :
    Swept (placed ++ [item]) (sweep.place item) ∧ (sweep.place item).cluster ≠ [] := by
  have before : ∀ entry ∈ sweep.closed ++ sweep.cluster, entry.start ≤ startOf item := by
    intro entry member
    apply sorted
    rw [← swept.items]
    exact List.mem_map_of_mem member
  have notNegative := toMinutes_nonneg item.start
  unfold Sweep.place
  split
  case isTrue after =>
    refine ⟨swept.closeCluster.addTo (fun entry member => ?_) (.inl ⟨rfl, after⟩), ?_⟩
    · rw [Sweep.closeCluster, List.append_nil, List.mem_append] at member
      rcases member with isClosed | isOpen
      · exact before entry (List.mem_append_left _ isClosed)
      · obtain ⟨source, isSource, rfl⟩ := List.mem_map.1 isOpen
        exact before source (List.mem_append_right _ isSource)
    · exact List.append_ne_nil_of_right_ne_nil _ (List.cons_ne_nil _ _)
  case isFalse inside =>
    have notEmpty : sweep.cluster ≠ [] := by
      intro isEmpty
      have early := some_open isEmpty
      exact inside (early.trans notNegative)
    refine ⟨swept.addTo before (.inr ⟨notEmpty, Int.not_le.1 inside⟩), ?_⟩
    exact List.append_ne_nil_of_right_ne_nil _ (List.cons_ne_nil _ _)

/-- A run of the sweep over things in the order of their starts. -/
theorem Swept.foldl {items : List Timed}
    (some_open : sweep.cluster = [] -> sweep.clusterEnd ≤ 0)
    (sorted : (placed ++ items).Pairwise fun first second => startOf first ≤ startOf second) :
    Swept (placed ++ items) (items.foldl Sweep.place sweep) := by
  induction items generalizing placed sweep with
  | nil => rwa [List.append_nil]
  | cons item rest inductionHypothesis =>
      have before : ∀ other ∈ placed, startOf other ≤ startOf item := fun other member =>
        (List.pairwise_append.1 sorted).2.2 other member item List.mem_cons_self
      obtain ⟨next, notEmpty⟩ := swept.place some_open before
      rw [List.append_cons] at sorted ⊢
      exact inductionHypothesis next (fun isEmpty => absurd isEmpty notEmpty) sorted

end

end

/-! ## Widening -/

section

variable {result : List TimedLayout} {entry : TimedLayout}

/-- An entry farther right that would hide the title. -/
def stopsAt (entry other : TimedLayout) : Bool :=
  decide (entry.lane < other.lane) &&
    (decide (other.start < entry.stop) && decide (entry.start < other.stop) &&
      decide (other.start < entry.start + titleMinutes))

/-- The smallest of some numbers and a first one. -/
theorem foldl_min
    (wanted : TimedLayout -> Bool) (result : List TimedLayout) (first : Nat) :
    let last := result.foldl
      (fun right other => if wanted other then min right other.lane else right) first
    last ≤ first ∧ (∀ other ∈ result, wanted other = true -> last ≤ other.lane) ∧
      (last = first ∨ ∃ other ∈ result, wanted other = true ∧ last = other.lane) := by
  induction result generalizing first with
  | nil => exact ⟨Nat.le_refl _, fun _ member => absurd member List.not_mem_nil, .inl rfl⟩
  | cons head rest inductionHypothesis =>
      dsimp only at inductionHypothesis ⊢
      rw [List.foldl_cons]
      by_cases isWanted : wanted head = true
      · rw [if_pos isWanted]
        obtain ⟨below, lanes, isLast⟩ := inductionHypothesis (min first head.lane)
        refine ⟨by omega, ?_, ?_⟩
        · intro other member wantedOther
          rcases List.mem_cons.1 member with rfl | later
          · omega
          · exact lanes other later wantedOther
        · rcases isLast with same | ⟨other, member, wantedOther, same⟩
          · rcases Nat.le_total first head.lane with le | ge
            · exact .inl (by omega)
            · exact .inr ⟨head, List.mem_cons_self, isWanted, by omega⟩
          · exact .inr ⟨other, List.mem_cons_of_mem _ member, wantedOther, same⟩
      · rw [if_neg isWanted]
        obtain ⟨below, lanes, isLast⟩ := inductionHypothesis first
        refine ⟨below, ?_, ?_⟩
        · intro other member wantedOther
          rcases List.mem_cons.1 member with rfl | later
          · exact absurd wantedOther isWanted
          · exact lanes other later wantedOther
        · rcases isLast with same | ⟨other, member, wantedOther, same⟩
          · exact .inl same
          · exact .inr ⟨other, List.mem_cons_of_mem _ member, wantedOther, same⟩

theorem rightOf_eq (result : List TimedLayout) (entry : TimedLayout) :
    rightOf result entry =
      result.foldl (fun right other =>
        if stopsAt entry other then min right other.lane else right) entry.lanes := by
  unfold rightOf
  congr 1
  funext right other
  unfold stopsAt
  by_cases isLeft : other.lane ≤ entry.lane
  · rw [if_pos isLeft, decide_eq_false (Nat.not_lt.2 isLeft), Bool.false_and,
      if_neg Bool.false_ne_true]
  · rw [if_neg isLeft, decide_eq_true (Nat.lt_of_not_le isLeft), Bool.true_and]

/-- An entry reaches beyond its lane, up to the next one that would hide its title. -/
theorem rightOf_spec (inside : entry.lane < entry.lanes) :
    entry.lane < rightOf result entry ∧ rightOf result entry ≤ entry.lanes ∧
      ∀ other ∈ result, stopsAt entry other = true -> rightOf result entry ≤ other.lane := by
  obtain ⟨below, lanes, isLast⟩ := foldl_min (stopsAt entry) result entry.lanes
  rw [rightOf_eq]
  refine ⟨?_, below, lanes⟩
  rcases isLast with same | ⟨other, -, stops, same⟩
  · rw [same]
    exact inside
  · rw [same]
    unfold stopsAt at stops
    rw [Bool.and_eq_true] at stops
    exact of_decide_eq_true stops.1

end

/-- A layout of things: every thing is in it once, those that overlap have different lanes, as
few as the largest number of a group that overlap at one minute, and nothing hides a title. -/
structure LaidOut (timed : List Timed) (result : List TimedLayout) : Prop where
  items : (result.map TimedLayout.item).Perm timed
  distinct : result.Pairwise fun first second =>
    Overlap TimedLayout.start TimedLayout.stop first second -> first.lane ≠ second.lane
  bounds : ∀ entry ∈ result, entry.lane < entry.right ∧ entry.right ≤ entry.lanes
  same : ∀ entry ∈ result, ∀ other,
    Connected TimedLayout.start TimedLayout.stop result entry other -> other.lanes = entry.lanes
  largest : ∀ entry ∈ result,
    IsGreatest (Set.range (overlapping TimedLayout.start TimedLayout.stop result entry)) entry.lanes
  titles : ∀ entry ∈ result, ∀ other ∈ result,
    Overlap TimedLayout.start TimedLayout.stop entry other ->
      other.start < entry.start + titleMinutes ->
        ¬(entry.lane + 1 ≤ other.lane ∧ other.lane < entry.right)

/-- What is laid out when the sweep has come to its end. -/
theorem Swept.laidOut {sweep : Sweep} {placed : List Timed}
    (swept : Swept placed sweep)
    (isClosed : sweep.cluster = []) :
    LaidOut placed
      (sweep.closed.map fun entry => { entry with right := rightOf sweep.closed entry }) := by
  have settled : Settled TimedLayout.start TimedLayout.stop TimedLayout.lane TimedLayout.lanes
      (sweep.closed.map fun entry => { entry with right := rightOf sweep.closed entry }) :=
    Settled.map swept.settled
  constructor
  case items =>
    rw [← swept.items, isClosed, List.append_nil, List.map_map]
    exact List.Perm.refl _
  case distinct => exact settled.distinct
  case bounds =>
    intro entry member
    obtain ⟨source, isSource, rfl⟩ := List.mem_map.1 member
    have spec := @rightOf_spec sweep.closed source (swept.settled.lane_lt source isSource)
    exact ⟨spec.1, spec.2.1⟩
  case same => exact fun entry _ other connected => settled.lanes_eq connected
  case largest =>
    intro entry member
    refine ⟨?_, ?_⟩
    · obtain ⟨point, some_overlap⟩ := settled.reached entry member
      exact ⟨point, Nat.le_antisymm (settled.overlapping_le entry point) some_overlap⟩
    · rintro _ ⟨point, rfl⟩
      exact settled.overlapping_le entry point
  case titles =>
    intro entry isEntry other isOther overlap early ⟨after, before⟩
    obtain ⟨source, isSource, rfl⟩ := List.mem_map.1 isEntry
    obtain ⟨behind, isHiding, rfl⟩ := List.mem_map.1 isOther
    have spec := @rightOf_spec sweep.closed source (swept.settled.lane_lt source isSource)
    have stops : stopsAt source behind = true := by
      unfold stopsAt
      rw [decide_eq_true (show source.lane < behind.lane from after),
        decide_eq_true (show behind.start < source.stop from overlap.2),
        decide_eq_true (show source.start < behind.stop from overlap.1),
        decide_eq_true (show behind.start < source.start + titleMinutes from early)]
      rfl
    exact absurd (spec.2.2 behind isHiding stops) (Nat.not_le.2 before)

theorem pairwise_startOf (timed : List Timed) :
    (timed.mergeSort fun a b => !decide (toMinutes b.start < toMinutes a.start)).Pairwise
      fun first second => startOf first ≤ startOf second := by
  have sorted := @List.pairwise_mergeSort Timed
    (fun a b => !decide (toMinutes b.start < toMinutes a.start))
    (fun a b c => by simpa using Int.le_trans)
    (fun a b => by simpa using Int.le_total (toMinutes a.start) (toMinutes b.start)) timed
  refine sorted.imp fun ordered => ?_
  simpa [startOf] using ordered

/-- The column of a day never overlaps and is as narrow as it can be. -/
theorem layoutTimed_laidOut (timed : List Timed) : LaidOut timed (layoutTimed timed) := by
  have swept := (swept_nil.foldl (fun _ => by decide) (pairwise_startOf timed)).closeCluster
  rw [List.nil_append] at swept
  have laidOut := swept.laidOut rfl
  exact { laidOut with items := laidOut.items.trans (List.mergeSort_perm _ _) }

end Parvane.Agenda
