import Parvane.Foundation.Ranking
import Parvane.Planner.Restart
import Std.Data.String.ToNat

/-!
# What the user sees of large collections

Of the learned words and of the lines of quick input only the latest are shown, those of the
hidden lines apart.  A snapshot keeps more of them, but in an order of its own, in which
hidden lines compete with the others; and of the marks of reminders it keeps the latest.
-/

namespace Parvane.Planner

open Wire Domain Convergence Ranking

def maxLearnedLive : Nat := 200
def maxQuickLive : Nat := 200

def isRemindedAlive (mark : Reminded) : Bool :=
  stampKey mark.deleted < stampKey mark.stamp

/-- The order in which words and lines are shown: the latest first. -/
def freshKey (touched : UInt32) (id : String) : UInt64ᵒᵈ ×ₗ String :=
  toLex (OrderDual.toDual touched.toUInt64, id)

/-- The latest values, if there are too many. -/
def freshest (limit : Nat) (touched : α -> UInt32) (id : α -> String) (live : List α) : List α :=
  if limit < live.length then
    (live.insertionSort fun first second =>
      freshKey (touched first) (id first) ≤ freshKey (touched second) (id second)).take limit
  else live

namespace PlannerState

variable (state : PlannerState)

/-- The words that are used, in the order of their names. -/
def learnedLive : List LearnedWord :=
  let live := (state.learned.toList.map Prod.snd).filter isLearnedAlive
  if maxLearnedLive < live.length then
    (freshest maxLearnedLive learnedTouched LearnedWord.id live).insertionSort
      fun first second => first.id ≤ second.id
  else live

/-- The lines that are shown, and the templates that are not. -/
def quickLive : List QuickLine :=
  let part (hidden : Bool) :=
    freshest maxQuickLive QuickLine.touched QuickLine.id
      ((state.quickLines.toList.map Prod.snd).filter fun line =>
        line.hidden == hidden && isQuickLineAlive line)
  (part false ++ part true).insertionSort fun first second => first.id ≤ second.id

/-- The marks of the reminders that were given. -/
def remindedLive : List Reminded :=
  (state.reminded.toList.map Prod.snd).filter isRemindedAlive

end PlannerState

/-! ## The values that a snapshot keeps -/

/-- Where a value stands among those that a snapshot may keep. -/
def storedKey [LinearOrder κ] (rank : α -> κ) (id : α -> String) (value : α) : κᵒᵈ ×ₗ String :=
  toLex (OrderDual.toDual (rank value), id value)

namespace Shelf

variable {shelf : Shelf α} {store : Std.ExtTreeMap String α}

theorem Holds.strictlySorted (holds : shelf.Holds store) :
    KeyedList.StrictlySorted shelf.name (values store) := by
  refine List.pairwise_map.2 (store.ordered_keys_toList.imp_of_mem ?_)
  intro first second firstInside secondInside less
  have firstName := (holds first.1 _
    (Std.ExtTreeMap.mem_toList_iff_getElem?_eq_some.1 firstInside)).1
  have secondName := (holds second.1 _
    (Std.ExtTreeMap.mem_toList_iff_getElem?_eq_some.1 secondInside)).1
  rw [firstName, secondName]
  exact compare_lt_iff_lt.1 less

theorem length_values (store : Std.ExtTreeMap String α) : (values store).length = store.size := by
  rw [values, List.length_map, Std.ExtTreeMap.length_toList]

/-- Only the first so many values. -/
def trim [LinearOrder κ] (limit : Nat) (key : α -> κ) (store : Std.ExtTreeMap String α) :
    Std.ExtTreeMap String α :=
  store.filter fun _ value => before key (values store) value < limit

section

variable [LinearOrder κ] {limit : Nat}

theorem values_trim (key : α -> κ) :
    values (trim limit key store) =
      (values store).filter fun value => before key (values store) value < limit := by
  rw [trim, values, Std.ExtTreeMap.toList_filter, values, List.filter_map]
  rfl

theorem Holds.trim (holds : shelf.Holds store) (key : α -> κ) :
    shelf.Holds (trim limit key store) := by
  intro name kept found
  rw [Shelf.trim, Std.ExtTreeMap.getElem?_filter'] at found
  obtain ⟨held, -⟩ := Option.filter_eq_some_iff.1 found
  exact holds name kept held

/-- Values with names of their own have places of their own. -/
theorem distinctKeys_storedKey {rank : α -> κ} {items : List α} {id : α -> String}
    (distinct : KeyedList.DistinctKeys id items) :
    KeyedList.DistinctKeys (storedKey rank id) items := by
  apply distinct.imp
  intro first second different same
  exact different (Prod.mk.inj (toLex.injective same)).2

section

variable (holds : shelf.Holds store)

include holds

/-- A snapshot keeps the first so many values. -/
theorem mem_storedValues
    (rank : α -> κ) {value : α} :
    value ∈ storedValues limit rank shelf.name store ↔
      value ∈ values store ∧ before (storedKey rank shelf.name) (values store) value < limit := by
  rw [storedValues]
  split
  · next few =>
      refine ⟨fun member => ⟨member, ?_⟩, And.left⟩
      exact (before_lt_length member).trans_le ((length_values store).le.trans few)
  · exact (List.mem_insertionSort _).trans
      (mem_take_insertionSort (distinctKeys_storedKey holds.distinctKeys) limit)

theorem strictlySorted_storedValues (rank : α -> κ) :
    KeyedList.StrictlySorted shelf.name (storedValues limit rank shelf.name store) := by
  rw [storedValues]
  split
  · exact holds.strictlySorted
  · apply strictlySorted_insertionSort
    have taken := (List.take_sublist limit ((values store).insertionSort fun first second =>
      storedKey rank shelf.name first ≤ storedKey rank shelf.name second))
    have permuted := List.perm_insertionSort (fun first second =>
      storedKey rank shelf.name first ≤ storedKey rank shelf.name second) (values store)
    have all := permuted.symm.pairwise holds.distinctKeys fun different same =>
      different same.symm
    exact all.sublist taken

theorem storedValues_eq_trim (rank : α -> κ) :
    storedValues limit rank shelf.name store =
      values (trim limit (storedKey rank shelf.name) store) := by
  apply eq_of_strictlySorted (strictlySorted_storedValues holds rank)
    (holds.trim _).strictlySorted
  intro value
  rw [mem_storedValues holds, values_trim, List.mem_filter, decide_eq_true_iff]

theorem size_trim_le (rank : α -> κ) :
    (trim limit (storedKey rank shelf.name) store).size ≤ limit := by
  rw [← length_values, ← storedValues_eq_trim holds, storedValues]
  split
  · next few => rwa [← length_values] at few
  · rw [List.length_insertionSort]
    exact List.length_take_le _ _

end

end

end Shelf

/-- The state that a snapshot holds. -/
def PlannerState.trimmed (state : PlannerState) : PlannerState :=
  { state with
    learned := Shelf.trim maxLearnedStored
      (storedKey (fun word => storedRank (isLearnedAlive word) (learnedTouched word) word.deleted)
        LearnedWord.id) state.learned
    quickLines := Shelf.trim maxQuickStored
      (storedKey (fun line => storedRank (isQuickLineAlive line) line.touched line.deleted)
        QuickLine.id) state.quickLines
    reminded := Shelf.trim maxRemindedStored
      (storedKey (fun mark => max (stampKey mark.stamp) (stampKey mark.deleted)) Reminded.id)
      state.reminded }

section

variable {isUppercase : Char -> Bool} {state : PlannerState}

section

variable (stored : state.Stored isUppercase)

include stored

theorem PlannerState.Stored.trimmed :
    state.trimmed.Stored isUppercase :=
  { stored with
    learned := stored.learned.trim _
    quickLines := stored.quickLines.trim _
    reminded := stored.reminded.trim _ }

theorem PlannerState.Stored.within_trimmed :
    state.trimmed.WithinCaps where
  learned := Shelf.size_trim_le stored.learned _
  quickLines := Shelf.size_trim_le stored.quickLines _
  reminded := Shelf.size_trim_le stored.reminded _

/-- The snapshot of a state is that of the trimmed state. -/
theorem PlannerState.Stored.toSnapshot_trimmed :
    state.trimmed.toSnapshot = state.toSnapshot := by
  have within := stored.within_trimmed
  have learned : state.trimmed.learnedStored = state.learnedStored :=
    (storedValues_eq _ _ within.learned).trans
      (Shelf.storedValues_eq_trim stored.learned _).symm
  have quickLines : state.trimmed.quickStored = state.quickStored :=
    (storedValues_eq _ _ within.quickLines).trans
      (Shelf.storedValues_eq_trim stored.quickLines _).symm
  have reminded : state.trimmed.remindedStored = state.remindedStored :=
    (storedValues_eq _ _ within.reminded).trans
      (Shelf.storedValues_eq_trim stored.reminded _).symm
  rw [PlannerState.toSnapshot, PlannerState.toSnapshot, learned, quickLines, reminded]
  rfl

/-- A snapshot comes back as the trimmed state, if at all. -/
theorem PlannerState.Stored.fromSnapshot_cases :
    (fromSnapshot isUppercase state.toSnapshot = .ok state.trimmed ∧
        AllFit state.trimmed.objects) ∨
      ((fromSnapshot isUppercase state.toSnapshot).isOk = false ∧
        ¬ AllFit state.trimmed.objects) := by
  have back := stored.trimmed.comes_back_or_fails stored.within_trimmed
  rwa [objects_toSnapshot stored.within_trimmed, stored.toSnapshot_trimmed] at back

end

end

/-! ## The order of what is shown -/

section

variable {rank : α -> Bool ×ₗ UInt64 ×ₗ String} {items : List α} {value : α}

/-- The order in which a snapshot keeps values: first those that are alive, the latest first. -/
structure AliveFirst (alive : α -> Bool) (touched : α -> UInt32)
    (rank : α -> Bool ×ₗ UInt64 ×ₗ String) : Prop where
  ofAlive : ∀ value, alive value = true ->
    rank value = toLex (true, toLex ((touched value).toUInt64, ""))
  ofDead : ∀ value, alive value = false -> ∃ rest, rank value = toLex (false, rest)

theorem aliveFirst_storedRank (alive : α -> Bool) (touched : α -> UInt32)
    (deleted : α -> Option LwwStamp) :
    AliveFirst alive touched fun value => storedRank (alive value) (touched value) (deleted value)
    where
  ofAlive value isAlive := by
    rw [storedRank, if_pos isAlive]
  ofDead value isDead := by
    rw [storedRank, if_neg (by rw [isDead]; exact Bool.false_ne_true)]
    exact ⟨_, rfl⟩

variable {alive : α -> Bool} {touched : α -> UInt32} {id : α -> String}

section

variable (first : AliveFirst alive touched rank)

include first

/-- Before a value that is alive come those that are alive and later. -/
theorem AliveFirst.lt_iff
    (isAlive : alive value = true) (other : α) :
    storedKey rank id other < storedKey rank id value ↔
      alive other = true ∧ freshKey (touched other) (id other) < freshKey (touched value) (id value) := by
  unfold storedKey freshKey
  simp only [Prod.Lex.toLex_lt_toLex, OrderDual.toDual_lt_toDual]
  rw [first.ofAlive value isAlive]
  cases living : alive other with
  | true => simp [first.ofAlive other living, Prod.Lex.toLex_lt_toLex]
  | false =>
      obtain ⟨rest, dead⟩ := first.ofDead other living
      rw [dead]
      simp [Prod.Lex.toLex_lt_toLex]

/-- A value that is alive stands in a snapshot where it stands among those that are alive. -/
theorem AliveFirst.before_eq
    (isAlive : alive value = true) (items : List α) :
    before (storedKey rank id) items value =
      before (fun value => freshKey (touched value) (id value)) (items.filter alive) value := by
  rw [before, before, List.countP_filter]
  apply List.countP_congr
  intro other _
  rw [decide_eq_true_iff, first.lt_iff isAlive, Bool.and_eq_true, decide_eq_true_iff, and_comm]

/-- Among what a snapshot keeps a value stands where it stands among all. -/
theorem AliveFirst.before_kept
    (isAlive : alive value = true) {limit : Nat}
    (kept : before (storedKey rank id) items value < limit)
    {shown : α -> Bool} (living : ∀ value, shown value = true -> alive value = true) :
    before (fun value => freshKey (touched value) (id value))
        ((items.filter fun other => before (storedKey rank id) items other < limit).filter shown)
        value =
      before (fun value => freshKey (touched value) (id value)) (items.filter shown) value := by
  rw [before, before, List.countP_filter, List.countP_filter, List.countP_filter]
  apply List.countP_congr
  intro other _
  simp only [Bool.and_eq_true, decide_eq_true_eq]
  constructor
  · exact And.left
  · rintro ⟨less, isShown⟩
    refine ⟨⟨less, isShown⟩, lt_of_le_of_lt ?_ kept⟩
    exact before_le_of_lt ((first.lt_iff isAlive other).2 ⟨living other isShown, less⟩)

end

theorem mem_freshest
    (distinct : KeyedList.DistinctKeys id items) (limit : Nat) :
    value ∈ freshest limit touched id items ↔
      value ∈ items ∧
        before (fun value => freshKey (touched value) (id value)) items value < limit := by
  rw [freshest]
  split
  · apply mem_take_insertionSort
    apply distinct.imp
    intro one other different same
    exact different (Prod.mk.inj (toLex.injective same)).2
  · next few =>
      refine ⟨fun member => ⟨member, ?_⟩, And.left⟩
      exact (before_lt_length member).trans_le (not_lt.1 few)

/-- After a restart those values are shown that were shown before and are kept. -/
theorem AliveFirst.mem_freshest_kept
    (first : AliveFirst alive touched rank) (distinct : KeyedList.DistinctKeys id items)
    {shown : α -> Bool} (living : ∀ value, shown value = true -> alive value = true)
    (limit stored : Nat) :
    value ∈ freshest limit touched id
        ((items.filter fun other => before (storedKey rank id) items other < stored).filter
          shown) ↔
      value ∈ freshest limit touched id (items.filter shown) ∧
        before (storedKey rank id) items value < stored := by
  have keptDistinct : KeyedList.DistinctKeys id
      ((items.filter fun other => before (storedKey rank id) items other < stored).filter
        shown) :=
    distinct.sublist (List.filter_sublist.trans List.filter_sublist)
  rw [mem_freshest keptDistinct, mem_freshest (distinct.sublist List.filter_sublist)]
  simp only [List.mem_filter, decide_eq_true_eq]
  constructor
  · rintro ⟨⟨⟨member, kept⟩, isShown⟩, few⟩
    rw [first.before_kept (living value isShown) kept living] at few
    exact ⟨⟨⟨member, isShown⟩, few⟩, kept⟩
  · rintro ⟨⟨⟨member, isShown⟩, few⟩, kept⟩
    rw [← first.before_kept (living value isShown) kept living] at few
    exact ⟨⟨⟨member, kept⟩, isShown⟩, few⟩

theorem distinctKeys_freshest
    (distinct : KeyedList.DistinctKeys id items)
    (limit : Nat) : KeyedList.DistinctKeys id (freshest limit touched id items) := by
  rw [freshest]
  split
  · have permuted := List.perm_insertionSort (fun first second : α =>
      freshKey (touched first) (id first) ≤ freshKey (touched second) (id second)) items
    have all := permuted.symm.pairwise distinct fun different same => different same.symm
    exact all.sublist (List.take_sublist _ _)
  · exact distinct

end

/-! ## Words, lines and marks -/

section

variable {isUppercase : Char -> Bool} {state : PlannerState}

theorem mem_learnedLive {word : LearnedWord} :
    word ∈ state.learnedLive ↔
      word ∈ freshest maxLearnedLive learnedTouched LearnedWord.id
        ((Shelf.values state.learned).filter isLearnedAlive) := by
  rw [PlannerState.learnedLive, Shelf.values]
  split
  · exact List.mem_insertionSort _
  · next few => rw [freshest, if_neg few]

theorem PlannerState.Stored.strictlySorted_learnedLive (stored : state.Stored isUppercase) :
    KeyedList.StrictlySorted LearnedWord.id state.learnedLive := by
  have sorted : KeyedList.StrictlySorted LearnedWord.id (Shelf.values state.learned) :=
    stored.learned.strictlySorted
  rw [PlannerState.learnedLive]
  split
  · apply strictlySorted_insertionSort
    apply distinctKeys_freshest
    exact stored.learned.distinctKeys.sublist List.filter_sublist
  · exact sorted.sublist List.filter_sublist

/-- No word that is shown is lost. -/
theorem PlannerState.Stored.learnedLive_trimmed (stored : state.Stored isUppercase) :
    state.trimmed.learnedLive = state.learnedLive := by
  apply eq_of_strictlySorted stored.trimmed.strictlySorted_learnedLive
    stored.strictlySorted_learnedLive
  intro word
  have first := aliveFirst_storedRank isLearnedAlive learnedTouched LearnedWord.deleted
  have distinct : KeyedList.DistinctKeys LearnedWord.id (Shelf.values state.learned) :=
    stored.learned.distinctKeys
  rw [mem_learnedLive, mem_learnedLive, PlannerState.trimmed, Shelf.values_trim,
    first.mem_freshest_kept distinct (fun _ => id)]
  apply and_iff_left_of_imp
  intro shown
  obtain ⟨member, few⟩ := (mem_freshest (distinct.sublist List.filter_sublist) _).1 shown
  rw [first.before_eq (List.mem_filter.1 member).2]
  exact few.trans (by decide)

/-- The lines that are shown, hidden ones or not. -/
def isShownAs (hidden : Bool) (line : QuickLine) : Bool :=
  line.hidden == hidden && isQuickLineAlive line

theorem mem_quickLive {line : QuickLine} :
    line ∈ state.quickLive ↔
      ∃ hidden, line ∈ freshest maxQuickLive QuickLine.touched QuickLine.id
        ((Shelf.values state.quickLines).filter (isShownAs hidden)) := by
  rw [PlannerState.quickLive, List.mem_insertionSort, List.mem_append, Bool.exists_bool]
  rfl

theorem PlannerState.Stored.strictlySorted_quickLive (stored : state.Stored isUppercase) :
    KeyedList.StrictlySorted QuickLine.id state.quickLive := by
  have distinct : KeyedList.DistinctKeys QuickLine.id (Shelf.values state.quickLines) :=
    stored.quickLines.distinctKeys
  have part (hidden : Bool) := distinct.sublist
    (List.filter_sublist : ((Shelf.values state.quickLines).filter (isShownAs hidden)).Sublist _)
  apply strictlySorted_insertionSort
  refine List.pairwise_append.2 ⟨distinctKeys_freshest (part false) _,
    distinctKeys_freshest (part true) _, ?_⟩
  intro first firstShown second secondShown same
  obtain ⟨firstMember, -⟩ := (mem_freshest (part false) _).1 firstShown
  obtain ⟨secondMember, -⟩ := (mem_freshest (part true) _).1 secondShown
  obtain ⟨firstInside, firstAs⟩ := List.mem_filter.1 firstMember
  obtain ⟨secondInside, secondAs⟩ := List.mem_filter.1 secondMember
  -- A name belongs to one line, which is hidden or not.
  have firstHeld := (stored.quickLines.of_mem firstInside).1
  have secondHeld := (stored.quickLines.of_mem secondInside).1
  have equal : first = second := by
    change state.quickLines[first.id]? = some first at firstHeld
    change state.quickLines[second.id]? = some second at secondHeld
    rw [same, secondHeld] at firstHeld
    exact (Option.some.inj firstHeld).symm
  rw [isShownAs, Bool.and_eq_true, beq_iff_eq] at firstAs secondAs
  rw [equal, secondAs.1] at firstAs
  cases firstAs.1

/-- How many lines of quick input are later among those that are as hidden. -/
def PlannerState.laterAlike (state : PlannerState) (line : QuickLine) : Nat :=
  before (fun line => freshKey line.touched line.id)
    ((Shelf.values state.quickLines).filter (isShownAs line.hidden)) line

theorem PlannerState.Stored.mem_quickLive_iff
    (stored : state.Stored isUppercase) {line : QuickLine} :
    line ∈ state.quickLive ↔
      line ∈ Shelf.values state.quickLines ∧ isQuickLineAlive line = true ∧
        state.laterAlike line < maxQuickLive := by
  have distinct : KeyedList.DistinctKeys QuickLine.id (Shelf.values state.quickLines) :=
    stored.quickLines.distinctKeys
  rw [mem_quickLive]
  constructor
  · rintro ⟨hidden, shown⟩
    obtain ⟨member, few⟩ := (mem_freshest (distinct.sublist List.filter_sublist) _).1 shown
    obtain ⟨inside, isShown⟩ := List.mem_filter.1 member
    rw [isShownAs, Bool.and_eq_true, beq_iff_eq] at isShown
    obtain ⟨rfl, isAlive⟩ := isShown
    exact ⟨inside, isAlive, few⟩
  · rintro ⟨inside, isAlive, few⟩
    refine ⟨line.hidden, (mem_freshest (distinct.sublist List.filter_sublist) _).2
      ⟨List.mem_filter.2 ⟨inside, ?_⟩, few⟩⟩
    rw [isShownAs, isAlive, beq_self_eq_true]
    rfl

/-- How many lines of quick input are later, hidden ones or not. -/
def PlannerState.laterLines (state : PlannerState) (line : QuickLine) : Nat :=
  before (fun line => freshKey line.touched line.id)
    ((Shelf.values state.quickLines).filter isQuickLineAlive) line

theorem PlannerState.Stored.quickLive_trimmed_iff (stored : state.Stored isUppercase) :
    state.trimmed.quickLive = state.quickLive ↔
      ∀ line ∈ state.quickLive, state.laterLines line < maxQuickStored := by
  have first := aliveFirst_storedRank isQuickLineAlive QuickLine.touched QuickLine.deleted
  have distinct : KeyedList.DistinctKeys QuickLine.id (Shelf.values state.quickLines) :=
    stored.quickLines.distinctKeys
  have living (hidden : Bool) : ∀ line, isShownAs hidden line = true ->
      isQuickLineAlive line = true := fun line shown => (Bool.and_eq_true_iff.1 shown).2
  have later : ∀ line ∈ state.quickLive, before (storedKey
      (fun line => storedRank (isQuickLineAlive line) line.touched line.deleted) QuickLine.id)
      (Shelf.values state.quickLines) line = state.laterLines line := by
    intro line shown
    obtain ⟨hidden, shownAs⟩ := mem_quickLive.1 shown
    obtain ⟨member, -⟩ := (mem_freshest (distinct.sublist List.filter_sublist) _).1 shownAs
    exact first.before_eq (living hidden line (List.mem_filter.1 member).2) _
  have kept : ∀ line, line ∈ state.trimmed.quickLive ↔
      line ∈ state.quickLive ∧ state.laterLines line < maxQuickStored := by
    intro line
    have each (hidden : Bool) := @AliveFirst.mem_freshest_kept _ _ _ line _ _ _ first distinct _
      (living hidden) maxQuickLive maxQuickStored
    have trimmed : line ∈ state.trimmed.quickLive ↔ line ∈ state.quickLive ∧ before (storedKey
        (fun line => storedRank (isQuickLineAlive line) line.touched line.deleted) QuickLine.id)
        (Shelf.values state.quickLines) line < maxQuickStored := by
      rw [mem_quickLive, mem_quickLive, PlannerState.trimmed, Shelf.values_trim]
      simp only [each, exists_and_right]
    rw [trimmed]
    exact and_congr_right fun shown => by rw [later line shown]
  constructor
  · intro same line shown
    rw [← same] at shown
    exact ((kept line).1 shown).2
  · intro few
    apply eq_of_strictlySorted stored.trimmed.strictlySorted_quickLive
      stored.strictlySorted_quickLive
    intro line
    rw [kept]
    exact and_iff_left_of_imp (few line)

/-- How many marks of reminders are later, dead ones or not. -/
def PlannerState.laterMarks (state : PlannerState) (mark : Reminded) : Nat :=
  before (storedKey (fun mark => max (stampKey mark.stamp) (stampKey mark.deleted)) Reminded.id)
    (Shelf.values state.reminded) mark

theorem PlannerState.remindedLive_trimmed_iff :
    state.trimmed.remindedLive = state.remindedLive ↔
      ∀ mark ∈ state.remindedLive, state.laterMarks mark < maxRemindedStored := by
  have trimmed : state.trimmed.remindedLive =
      state.remindedLive.filter fun mark => state.laterMarks mark < maxRemindedStored := by
    change (Shelf.values (Shelf.trim _ _ state.reminded)).filter isRemindedAlive = _
    rw [Shelf.values_trim, PlannerState.remindedLive, List.filter_comm]
    rfl
  rw [trimmed, List.filter_eq_self]
  simp only [decide_eq_true_eq]

/-- There is room in a snapshot for all that is shown, and what there is room for fits. -/
structure PlannerState.Shows (state : PlannerState) : Prop where
  objects : AllFit state.trimmed.objects
  lines : ∀ line ∈ Shelf.values state.quickLines, isQuickLineAlive line = true ->
    state.laterAlike line < maxQuickLive -> state.laterLines line < maxQuickStored
  marks : ∀ mark ∈ Shelf.values state.reminded, isRemindedAlive mark = true ->
    state.laterMarks mark < maxRemindedStored

end

/-- A line under a number; the last of them is a template, and older than the others. -/
def numberedLine (number : Nat) : QuickLine where
  id := number.repr
  stamp := some ⟨1, "d1"⟩
  text := "milk"
  touched := if number < maxQuickStored then 5 else 1
  hidden := maxQuickStored ≤ number

theorem isId_repr {number : Nat} (short : number < 10 ^ 16) : isId number.repr = true := by
  have few : number.repr.length ≤ 16 := (Nat.length_repr_le_iff (by omega)).2 short
  have bytes (letters : List Char) (digits : ∀ letter ∈ letters, letter.isDigit = true) :
      String.utf8Len letters ≤ 4 * letters.length := by
    induction letters with
    | nil => exact Nat.zero_le _
    | cons letter letters inductionHypothesis =>
        have rest := inductionHypothesis fun other member =>
          digits other (List.mem_cons_of_mem letter member)
        have size := letter.utf8Size_le_four
        rw [String.utf8Len_cons, List.length_cons]
        omega
  have digits : ∀ letter ∈ number.repr.toList, letter.isDigit = true := by
    intro letter member
    rw [Nat.toList_repr] at member
    exact Nat.isDigit_of_mem_toDigits (by omega) (by omega) member
  have size := bytes _ digits
  rw [String.utf8Len_toList, String.length_toList] at size
  simp only [isId, Bool.and_eq_true, Bool.not_eq_true', decide_eq_true_eq, List.all_eq_true,
    Bool.or_eq_true, Char.isAlphanum]
  refine ⟨⟨?_, ?_⟩, fun letter member => .inl (.inl (.inr (digits letter member)))⟩
  · rw [← Bool.not_eq_true, String.isEmpty_iff]
    exact Nat.repr_ne_empty
  · rw [maxId]
    omega

theorem checkQuickLine_numberedLine {number : Nat} (few : number ≤ maxQuickStored) :
    checkQuickLine (numberedLine number) = .ok () := by
  have name : isId (numberedLine number).id = true :=
    isId_repr (few.trans_lt (by decide))
  have text : (!isBlank (numberedLine number).text &&
      decide ((numberedLine number).text.utf8ByteSize ≤ maxQuickText) &&
      !(numberedLine number).text.toList.any isControl) = true := by
    change (!isBlank "milk" && decide ("milk".utf8ByteSize ≤ maxQuickText) &&
      !"milk".toList.any isControl) = true
    decide +kernel
  rw [checkQuickLine, name, text]
  rfl

/-- The change that brings a line. -/
def bringLine (line : QuickLine) : PlannerOp where
  changes := [⟨some (.quickLine line)⟩]

theorem exec_bringLine {number : Nat}
    (few : number ≤ maxQuickStored) (state : PlannerState) :
    (applyOp Char.isUpper (bringLine (numberedLine number)) "d1").exec state =
      (.ok 1,
        { state with quickLines := mergeRecord state.quickLines (numberedLine number) }) := by
  have stamped : opStamps (bringLine (numberedLine number)) = .ok [⟨1, "d1"⟩] := by
    rfl
  rw [applyOp, Update.exec_bind, Update.exec_liftM, stamped]
  simp only [bringLine, applyChanges, applyChange, Update.exec_bind, Update.exec_liftM,
    checkQuickLine_numberedLine few]
  rfl

/-- A planner can hold the numbered lines and no others. -/
theorem exists_numberedLines
    (count : Nat) (few : count ≤ maxQuickStored + 1) :
    ∃ state, Reachable Char.isUpper state ∧
      ∀ (name : String) (line : QuickLine), state.quickLines[name]? = some line ↔
        ∃ number < count, number.repr = name ∧ numberedLine number = line := by
  induction count with
  | zero =>
      refine ⟨.new, .new, fun name line => ?_⟩
      simp [PlannerState.new]
  | succ count inductionHypothesis =>
      obtain ⟨state, reachable, lines⟩ := inductionHypothesis (by omega)
      have next := Reachable.op (bringLine (numberedLine count)) "d1" reachable (by
        rw [exec_bringLine (by omega)]
        rfl)
      rw [exec_bringLine (by omega)] at next
      refine ⟨_, next, fun name line => ?_⟩
      change (mergeRecord state.quickLines (numberedLine count))[name]? = some line ↔ _
      have absent : state.quickLines[count.repr]? = none := by
        apply Option.eq_none_iff_forall_ne_some.2
        intro found present
        obtain ⟨number, less, same, -⟩ := (lines _ _).1 present
        exact less.ne (Nat.repr_inj.1 same)
      have name_eq : Record.id (numberedLine count) = count.repr := rfl
      rw [mergeRecord, Std.ExtTreeMap.getElem?_alter, name_eq]
      by_cases same : count.repr = name
      · obtain rfl := same
        rw [if_pos Std.ReflCmp.compare_self, absent]
        change some (numberedLine count) = some line ↔ _
        constructor
        · intro equal
          exact ⟨count, by omega, rfl, Option.some.inj equal⟩
        · rintro ⟨number, -, named, rfl⟩
          rw [Nat.repr_inj.1 named]
      · rw [if_neg fun equal => same (Std.LawfulEqCmp.compare_eq_iff_eq.1 equal), lines]
        constructor
        · rintro ⟨number, less, named, held⟩
          exact ⟨number, by omega, named, held⟩
        · rintro ⟨number, less, named, held⟩
          refine ⟨number, lt_of_le_of_ne (by omega) ?_, named, held⟩
          rintro rfl
          exact same named

end Parvane.Planner
