import Parvane.Inbox.Progress

/-!
# Reading a whole inbox page by page

A client asks for the records after the last one it got until the server says that there
are no more.  Each page is the beginning of what remains, and the next request finds
exactly the rest.
-/

namespace Parvane.Inbox

variable {σ γ : Type} {coding : Coding σ γ} {log : List Row}

/-- A log as the server writes it: every row has a number of its own, and the first is 1. -/
structure Stored (log : List Row) : Prop where
  numbered : (log.map Row.seq).Nodup
  positive : ∀ row ∈ log, 0 < row.seq

/-! ## Rows in order -/

/-- The numbers go up from row to row. -/
def Ascending (rows : List Row) : Prop :=
  rows.Pairwise fun first second => first.seq < second.seq

theorem orderBySeq_perm (log : List Row) : (orderBySeq log).Perm log :=
  List.perm_insertionSort _ log

theorem Stored.ascending (stored : Stored log) : Ascending (orderBySeq log) := by
  have distinct : (orderBySeq log).Pairwise fun first second => first.seq ≠ second.seq :=
    List.pairwise_map.1 (((orderBySeq_perm log).map Row.seq).nodup_iff.2 stored.numbered)
  exact ((orderBySeq_sorted log).and distinct).imp fun both => Nat.lt_of_le_of_ne both.1 both.2

theorem Stored.filter (stored : Stored log) (keep : Row -> Bool) : Stored (log.filter keep) where
  numbered := stored.numbered.sublist (List.filter_sublist.map _)
  positive row member := stored.positive row (List.mem_of_mem_filter member)

/-- Numbers of their own make the order unique: it does not matter when rows are chosen. -/
theorem Stored.orderBySeq_filter (stored : Stored log) (keep : Row -> Bool) :
    orderBySeq (log.filter keep) = (orderBySeq log).filter keep := by
  have unique : ∀ first second : Row, first ∈ orderBySeq (log.filter keep) ->
      second ∈ (orderBySeq log).filter keep -> first.seq < second.seq ->
      second.seq < first.seq -> first = second := by
    intro first second _ _ before after
    omega
  exact List.Perm.eq_of_pairwise unique (stored.filter keep).ascending
    (stored.ascending.filter keep)
    ((orderBySeq_perm _).trans ((orderBySeq_perm log).symm.filter keep))

theorem Ascending.filter_le {front back : List Row} {last : Row}
    (ascending : Ascending (front ++ last :: back)) :
    (front ++ last :: back).filter (fun row => row.seq ≤ last.seq) = front ++ [last] := by
  obtain ⟨-, rest, below⟩ := List.pairwise_append.1 ascending
  have low : front.filter (fun row => row.seq ≤ last.seq) = front :=
    List.filter_eq_self.2 fun row member =>
      decide_eq_true (below row member last List.mem_cons_self).le
  have high : back.filter (fun row => row.seq ≤ last.seq) = [] :=
    List.filter_eq_nil_iff.2 fun row member => by
      have := (List.pairwise_cons.1 rest).1 row member
      simpa using this
  simp [low, high]

theorem Ascending.filter_lt {front back : List Row} {last : Row}
    (ascending : Ascending (front ++ last :: back)) :
    (front ++ last :: back).filter (fun row => last.seq < row.seq) = back := by
  obtain ⟨-, rest, below⟩ := List.pairwise_append.1 ascending
  have low : front.filter (fun row => last.seq < row.seq) = [] :=
    List.filter_eq_nil_iff.2 fun row member => by
      have := below row member last List.mem_cons_self
      simpa using this.le
  have high : back.filter (fun row => last.seq < row.seq) = back :=
    List.filter_eq_self.2 fun row member =>
      decide_eq_true ((List.pairwise_cons.1 rest).1 row member)
  simp [low, high]

theorem Ascending.eq_nil_of_getLast? {front back : List Row} {last : Row}
    (ascending : Ascending (front ++ last :: back))
    (isLast : (front ++ last :: back).getLast?.any (fun row => row.seq != last.seq) = false) :
    back = [] := by
  rcases back.eq_nil_or_concat with rfl | ⟨others, final, rfl⟩
  · rfl
  · have above := (List.pairwise_cons.1 (List.pairwise_append.1 ascending).2.1).1 final (by simp)
    rw [List.concat_eq_append, ← List.cons_append, ← List.append_assoc, List.getLast?_concat,
      Option.any_some, bne_eq_false_iff_eq] at isLast
    omega

/-! ## One page -/

theorem lastFitting_some
    (budget : Nat) (row : Row) (rows : List Row) (used : Nat) :
    ∃ front last back, row :: rows = front ++ last :: back ∧
      lastFitting budget (rows.map fun row => (row.seq, row.item.length)) (some row.seq) used =
        some last.seq := by
  induction rows generalizing row used with
  | nil => exact ⟨[], row, [], rfl, rfl⟩
  | cons next rows inductionHypothesis =>
      rw [List.map_cons, lastFitting]
      split
      · exact ⟨[], row, next :: rows, rfl, rfl⟩
      · obtain ⟨front, last, back, split, fits⟩ :=
          inductionHypothesis next (used + (next.item.length + 32))
        exact ⟨row :: front, last, back, by rw [split]; rfl, fits⟩

/-- The first row is taken whatever its length. -/
theorem lastFitting_none
    (budget : Nat) {rows : List Row}
    (some : rows ≠ []) :
    ∃ front last back, rows = front ++ last :: back ∧
      lastFitting budget (rows.map fun row => (row.seq, row.item.length)) none 0 =
        .some last.seq := by
  cases rows with
  | nil => exact absurd rfl some
  | cons row rows => exact lastFitting_some budget row rows _

/-- A page that is not cut holds everything. -/
theorem fillPage_eq_of_complete {budget : Nat}
    {records page : List (InboxRecord σ γ)}
    {used : Nat}
    (complete : (fillPage coding budget records page used).2 = false) :
    (fillPage coding budget records page used).1 = page ++ records := by
  induction records generalizing page used with
  | nil => simp [fillPage]
  | cons record records inductionHypothesis =>
      rw [fillPage] at complete ⊢
      split at complete
      · cases complete
      · next fits =>
          rw [if_neg fits, inductionHypothesis complete, List.append_assoc]
          rfl

theorem fillPage_ne_nil
    (coding : Coding σ γ) (budget : Nat)
    {records : List (InboxRecord σ γ)}
    (some : records ≠ []) : (fillPage coding budget records [] 0).1 ≠ [] := by
  cases records with
  | nil => exact absurd rfl some
  | cons record records =>
      obtain ⟨taken, -, -, filled⟩ := fillPage_eq coding budget records [record]
        (0 + (coding.encodedLen record + 4))
      rw [fillPage, if_neg (by simp), List.nil_append, filled]
      simp

theorem exists_record {row : Row}
    (readable : (coding.decode row.item).isSome = true) :
    ∃ record, row.record coding = some record := by
  obtain ⟨decoded, found⟩ := Option.isSome_iff_exists.1 readable
  exact ⟨_, by rw [Row.record, found, Option.map_some]⟩

theorem ne_nil_of_readable {rows : List Row}
    (readable : ∀ row ∈ rows, (coding.decode row.item).isSome = true)
    (some : rows ≠ []) : rows.filterMap (Row.record coding) ≠ [] := by
  obtain ⟨row, member⟩ := List.exists_mem_of_ne_nil rows some
  obtain ⟨record, isRecord⟩ := exists_record (readable row member)
  exact List.ne_nil_of_mem (List.mem_filterMap.2 ⟨row, member, isRecord⟩)

/-- A page is a beginning of the rows that remain, in their order, with one row at least;
it is all of them if the server says that there are no more. -/
theorem syncPage_spec
    (stored : Stored log)
    (readable : ∀ row ∈ log, (coding.decode row.item).isSome = true)
    (after maxBytes : Nat) {rows : List Row}
    (remaining : (orderBySeq log).filter (fun row => after < row.seq) = rows)
    (some : rows ≠ []) :
    ∃ front last back, rows = front ++ last :: back ∧
      (syncPage coding log log after maxBytes).1 =
        (front ++ [last]).filterMap (Row.record coding) ∧
      ((syncPage coding log log after maxBytes).2 = false -> back = []) := by
  have ascending : Ascending rows := remaining ▸ stored.ascending.filter _
  have known : ∀ row ∈ rows, (coding.decode row.item).isSome = true := fun row member =>
    readable row ((orderBySeq_perm log).mem_iff.1 (List.mem_of_mem_filter (remaining ▸ member)))
  -- What the scan of the lengths settles on.
  have scanned : rows.take syncScan ≠ [] := by
    rw [Ne, List.take_eq_nil_iff, not_or]
    exact ⟨by decide, some⟩
  obtain ⟨front, last, back, cut, fits⟩ := lastFitting_none (budgetOf maxBytes) scanned
  have whole : rows = front ++ last :: (back ++ rows.drop syncScan) := by
    rw [← List.cons_append, ← List.append_assoc, ← cut, List.take_append_drop]
  have chosen : orderBySeq (log.filter fun row => after < row.seq && row.seq ≤ last.seq) =
      front ++ [last] := by
    rw [stored.orderBySeq_filter, List.filter_congr fun row _ => Bool.and_comm _ _,
      ← List.filter_filter, remaining, whole]
    rw [whole] at ascending
    exact ascending.filter_le
  have page : syncPage coding log log after maxBytes =
      let filled := paginate coding ((front ++ [last]).filterMap (Row.record coding)) maxBytes
      (filled.1, filled.2 || ((rows.take syncScan).length == syncScan ||
        (rows.take syncScan).getLast?.any fun row => row.seq != last.seq)) := by
    unfold syncPage
    rw [stored.orderBySeq_filter fun row => decide (after < row.seq), remaining]
    simp only [fits, chosen, List.length_map, List.getLast?_map, Option.any_map]
  have readableChosen : ∀ row ∈ front ++ [last], (coding.decode row.item).isSome = true := by
    intro row member
    apply known row
    rw [whole, List.append_cons]
    exact List.mem_append_left _ member
  obtain ⟨taken, left, records, filled⟩ := fillPage_eq coding (budgetOf maxBytes)
    ((front ++ [last]).filterMap (Row.record coding)) [] 0
  obtain ⟨shown, hidden, cutAgain, isTaken, isLeft⟩ := List.filterMap_eq_append_iff.1 records
  have someShown : shown ≠ [] := by
    rintro rfl
    refine fillPage_ne_nil coding (budgetOf maxBytes) (ne_nil_of_readable readableChosen (by simp)) ?_
    rw [filled, ← isTaken]
    rfl
  have isPage : (syncPage coding log log after maxBytes).1 = shown.filterMap (Row.record coding) := by
    rw [page, isTaken]
    exact filled
  obtain ⟨start, final, rfl⟩ := shown.eq_nil_or_concat.resolve_left someShown
  refine ⟨start, final, hidden ++ (back ++ rows.drop syncScan), ?_, ?_, fun complete => ?_⟩
  · rw [List.append_cons, ← List.concat_eq_append, ← List.append_assoc, ← cutAgain,
      List.append_assoc]
    exact whole
  · rw [isPage, List.concat_eq_append]
  rw [page, Bool.or_eq_false_iff, Bool.or_eq_false_iff] at complete
  obtain ⟨unfilled, few, uncut⟩ := complete
  have noneHidden : hidden = [] := by
    by_contra some
    refine ne_nil_of_readable (fun row member => readableChosen row ?_) some ?_
    · rw [cutAgain]
      exact List.mem_append_right _ member
    · have all := (fillPage_eq_of_complete unfilled).symm.trans filled
      rw [List.nil_append, List.nil_append, records] at all
      rw [isLeft]
      exact List.append_right_eq_self.1 all
  have noneBack : back = [] := by
    have scannedAscending : Ascending (rows.take syncScan) := ascending.sublist (List.take_sublist _ _)
    rw [cut] at scannedAscending uncut
    exact scannedAscending.eq_nil_of_getLast? uncut
  have noneLeft : rows.drop syncScan = [] := by
    rw [List.length_take, beq_eq_false_iff_ne] at few
    exact List.drop_eq_nil_of_le (by omega)
  simp [noneHidden, noneBack, noneLeft]

/-- Where nothing remains, the page is empty and the last. -/
theorem syncPage_eq_nil
    (stored : Stored log) {after : Nat}
    (remaining : (orderBySeq log).filter (fun row => after < row.seq) = [])
    (maxBytes : Nat) : syncPage coding log log after maxBytes = ([], false) := by
  unfold syncPage
  rw [stored.orderBySeq_filter fun row => decide (after < row.seq), remaining]
  rfl

/-! ## The whole inbox -/

section
variable {after : Nat} {front back : List Row} {last : Row}

theorem mem_of_split
    (remaining : (orderBySeq log).filter (fun row => after < row.seq) = front ++ last :: back) :
    last ∈ log := by
  have member : last ∈ (orderBySeq log).filter fun row => after < row.seq := by simp [remaining]
  exact (orderBySeq_perm log).mem_iff.1 (List.mem_of_mem_filter member)

/-- Asking after the last row of a page finds the rows behind it. -/
theorem Stored.remaining_after_last
    (stored : Stored log)
    (remaining : (orderBySeq log).filter (fun row => after < row.seq) = front ++ last :: back) :
    (orderBySeq log).filter (fun row => last.seq < row.seq) = back := by
  have ascending : Ascending (front ++ last :: back) := remaining ▸ stored.ascending.filter _
  have above : after < last.seq := by
    have member : last ∈ (orderBySeq log).filter fun row => after < row.seq := by simp [remaining]
    exact of_decide_eq_true (List.mem_filter.1 member).2
  rw [← ascending.filter_lt, ← remaining, List.filter_filter]
  apply List.filter_congr
  intro row _
  rw [← Bool.decide_and]
  exact decide_eq_decide.2 (by omega)

end

/-- Ask for pages, each with a budget of its own, until the server says that there are no
more. -/
def syncAll (coding : Coding σ γ) (log : List Row) (budgets : Nat -> Nat) :
    Nat -> Nat -> Nat -> Option (List (List (InboxRecord σ γ)))
  | 0, _, _ => none
  | rounds + 1, round, after =>
      match syncPage coding log log after (budgets round) with
      | (page, false) => some [page]
      | (page, true) =>
          (syncAll coding log budgets rounds (round + 1)
            (page.getLast?.elim after InboxRecord.seq)).map (page :: ·)

/-- The pages together are what remains, in its order. -/
theorem syncAll_spec
    (stored : Stored log)
    (readable : ∀ row ∈ log, (coding.decode row.item).isSome = true)
    (budgets : Nat -> Nat) {rounds : Nat} (round after : Nat)
    (enough : ((orderBySeq log).filter fun row => after < row.seq).length < rounds) :
    ∃ pages, syncAll coding log budgets rounds round after = some pages ∧
      pages.flatten = ((orderBySeq log).filter fun row => after < row.seq).filterMap
        (Row.record coding) := by
  induction rounds generalizing round after with
  | zero => exact absurd enough (Nat.not_lt_zero _)
  | succ rounds inductionHypothesis =>
      generalize remaining : (orderBySeq log).filter (fun row => after < row.seq) = rows at *
      rw [syncAll]
      by_cases none : rows = []
      · subst none
        rw [syncPage_eq_nil stored remaining]
        exact ⟨[[]], rfl, rfl⟩
      · obtain ⟨front, last, back, split, isPage, complete⟩ :=
          syncPage_spec stored readable after (budgets round) remaining none
        generalize syncPage coding log log after (budgets round) = answer at isPage complete
        obtain ⟨page, more⟩ := answer
        subst isPage split
        cases more with
        | false =>
            cases complete rfl
            exact ⟨_, rfl, by simp⟩
        | true =>
            obtain ⟨final, isRecord⟩ := exists_record (readable last (mem_of_split remaining))
            have next := stored.remaining_after_last remaining
            dsimp only
            rw [List.filterMap_append, List.filterMap_cons_some isRecord, List.filterMap_nil,
              List.getLast?_concat, Option.elim_some, record_seq isRecord]
            obtain ⟨pages, run, all⟩ := inductionHypothesis (round + 1) last.seq (by
              rw [next]
              simp only [List.length_append, List.length_cons] at enough
              omega)
            rw [next] at all
            refine ⟨_, by rw [run]; rfl, ?_⟩
            rw [List.flatten_cons, all, List.filterMap_append, List.filterMap_cons_some isRecord,
              List.append_cons]
            simp

/-- Reading page by page returns every stored record once, in order, whatever budgets the
requests carry.  A page with more to come is never empty. -/
theorem syncAll_complete
    (coding : Coding σ γ)
    (log : List Row)
    (stored : Stored log)
    (readable : ∀ row ∈ log, (coding.decode row.item).isSome = true) :
    (∀ (budgets : Nat -> Nat) (rounds : Nat), log.length < rounds ->
      ∃ pages, syncAll coding log budgets rounds 0 0 = some pages ∧
        (pages.flatten.Pairwise fun first second => first.seq < second.seq) ∧
        ∀ record, record ∈ pages.flatten ↔ ∃ row ∈ log, row.record coding = some record) ∧
    ∀ after maxBytes, (syncPage coding log log after maxBytes).2 = true ->
      (syncPage coding log log after maxBytes).1 ≠ [] := by
  refine ⟨fun budgets rounds enough => ?_, fun after maxBytes more => ?_⟩
  · have whole : (orderBySeq log).filter (fun row => 0 < row.seq) = orderBySeq log :=
      List.filter_eq_self.2 fun row member =>
        decide_eq_true (stored.positive row ((orderBySeq_perm log).mem_iff.1 member))
    obtain ⟨pages, run, all⟩ := syncAll_spec stored readable budgets 0 0
      (by rw [whole, (orderBySeq_perm log).length_eq]; exact enough)
    rw [whole] at all
    refine ⟨pages, run, ?_, fun record => ?_⟩
    · rw [all]
      apply stored.ascending.filterMap
      intro first second before one isFirst two isSecond
      rw [record_seq isFirst, record_seq isSecond]
      exact before
    · rw [all, List.mem_filterMap]
      simp only [(orderBySeq_perm log).mem_iff]
  · generalize remaining : (orderBySeq log).filter (fun row => after < row.seq) = rows
    by_cases none : rows = []
    · subst none
      rw [syncPage_eq_nil stored remaining] at more
      cases more
    · obtain ⟨front, last, back, rfl, isPage, -⟩ :=
        syncPage_spec stored readable after maxBytes remaining none
      obtain ⟨final, isRecord⟩ := exists_record (readable last (mem_of_split remaining))
      rw [isPage, List.filterMap_append, List.filterMap_cons_some isRecord]
      simp

/-- An inbox of two records, each larger than the budget of the first request. -/
theorem syncAll_complete_sample :
    ∃ pages, syncAll sampleCoding sampleInbox (fun round => round + 1) 3 0 0 = some pages ∧
      (pages.flatten.Pairwise fun first second => first.seq < second.seq) ∧
      ∀ record, record ∈ pages.flatten ↔ ∃ row ∈ sampleInbox,
        row.record sampleCoding = some record :=
  (syncAll_complete sampleCoding sampleInbox ⟨by decide, by decide⟩ (by decide)).1
    (fun round => round + 1) 3 (by decide)

end Parvane.Inbox
