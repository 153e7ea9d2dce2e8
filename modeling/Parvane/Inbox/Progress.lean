import Parvane.Inbox.Records

/-!
# When the cursor passes a page

After the records of a page are done the cursor should stand behind it.  It does exactly
when no number between the cursor and the end of the page is missing: nothing tells the
cursor about records that the server has deleted.
-/

namespace Parvane.Inbox

variable {σ γ ρ ε : Type}

/-! ## What is on a page -/

theorem fillPage_eq
    (coding : Coding σ γ) (budget : Nat)
    (records page : List (InboxRecord σ γ))
    (used : Nat) :
    ∃ taken left, records = taken ++ left ∧
      (fillPage coding budget records page used).1 = page ++ taken := by
  induction records generalizing page used with
  | nil => exact ⟨[], [], rfl, by simp [fillPage]⟩
  | cons record records inductionHypothesis =>
      rw [fillPage]
      split
      · exact ⟨[], record :: records, rfl, by simp⟩
      · obtain ⟨taken, left, rfl, filled⟩ := inductionHypothesis (page ++ [record])
          (used + (coding.encodedLen record + 4))
        exact ⟨record :: taken, left, rfl, by rw [filled]; simp⟩

/-- A page is the beginning of the readable records after a number, in their order, up to
some last number. -/
theorem syncPage_eq
    (coding : Coding σ γ) (log later : List Row) (after maxBytes : Nat) :
    ∃ last left, (orderBySeq (later.filter fun row => after < row.seq && row.seq ≤ last)).filterMap
      (Row.record coding) = (syncPage coding log later after maxBytes).1 ++ left := by
  simp only [syncPage]
  split
  · exact ⟨0, _, rfl⟩
  · next last _ =>
      obtain ⟨taken, left, split, filled⟩ := fillPage_eq coding (budgetOf maxBytes)
        ((orderBySeq (later.filter fun row => after < row.seq && row.seq ≤ last)).filterMap
          (Row.record coding)) [] 0
      refine ⟨last, left, ?_⟩
      rw [paginate, filled, List.nil_append]
      exact split

theorem orderBySeq_sorted (log : List Row) :
    (orderBySeq log).Pairwise fun first second => first.seq ≤ second.seq := by
  have total : Std.Total fun first second : Row => first.seq ≤ second.seq :=
    ⟨fun first second => Nat.le_total first.seq second.seq⟩
  have transitive : IsTrans Row fun first second => first.seq ≤ second.seq :=
    ⟨fun _ _ _ => Nat.le_trans⟩
  exact List.pairwise_insertionSort _ log

theorem record_seq {coding : Coding σ γ} {row : Row} {record : InboxRecord σ γ}
    (isRecord : row.record coding = some record) : record.seq = row.seq := by
  obtain ⟨decoded, -, rfl⟩ := Option.map_eq_some_iff.1 isRecord
  rfl

/-- Up to its last number, a page holds what the log holds. -/
theorem mem_syncPage_iff
    {coding : Coding σ γ} {log later : List Row} {after maxBytes : Nat} {last : InboxRecord σ γ}
    (isLast : (syncPage coding log later after maxBytes).1.getLast? = some last)
    {seq : Nat} (above : after < seq) (low : seq ≤ last.seq) :
    (∃ record ∈ (syncPage coding log later after maxBytes).1, record.seq = seq) ↔
      ∃ row ∈ later, row.seq = seq ∧ (coding.decode row.item).isSome = true := by
  obtain ⟨upto, left, split⟩ := syncPage_eq coding log later after maxBytes
  have fromRow : ∀ record ∈ (syncPage coding log later after maxBytes).1, ∃ row ∈ later,
      row.seq ≤ upto ∧ row.record coding = some record := by
    intro record member
    have onList : record ∈ (syncPage coding log later after maxBytes).1 ++ left :=
      List.mem_append_left _ member
    rw [← split] at onList
    obtain ⟨row, stored, isRecord⟩ := List.mem_filterMap.1 onList
    simp only [orderBySeq, List.mem_insertionSort, List.mem_filter, Bool.and_eq_true,
      decide_eq_true_eq] at stored
    exact ⟨row, stored.1, stored.2.2, isRecord⟩
  constructor
  · rintro ⟨record, member, rfl⟩
    obtain ⟨row, stored, -, isRecord⟩ := fromRow record member
    refine ⟨row, stored, (record_seq isRecord).symm, ?_⟩
    rw [Row.record] at isRecord
    obtain ⟨decoded, isDecoded, -⟩ := Option.map_eq_some_iff.1 isRecord
    rw [isDecoded]
    rfl
  · rintro ⟨row, stored, rfl, readable⟩
    have lastOn := List.mem_of_getLast? isLast
    by_cases same : row.seq = last.seq
    · exact ⟨last, lastOn, same.symm⟩
    · obtain ⟨decoded, isDecoded⟩ := Option.isSome_iff_exists.1 readable
      obtain ⟨lastRow, -, lastLow, isLastRecord⟩ := fromRow last lastOn
      have lastSeq := record_seq isLastRecord
      have isRecord : row.record coding =
          some { decoded with seq := row.seq, receivedMs := row.receivedAt * 1000 } := by
        rw [Row.record, isDecoded, Option.map_some]
      have sorted := (orderBySeq_sorted (later.filter fun row =>
        after < row.seq && row.seq ≤ upto)).filterMap (Row.record coding)
          (S := fun first second => first.seq ≤ second.seq) (by
            intro first second ordered record isFirst other isSecond
            rw [record_seq isFirst, record_seq isSecond]
            exact ordered)
      have member : { decoded with seq := row.seq, receivedMs := row.receivedAt * 1000 } ∈
          (syncPage coding log later after maxBytes).1 ++ left := by
        rw [← split]
        refine List.mem_filterMap.2 ⟨row, ?_, isRecord⟩
        simp only [orderBySeq, List.mem_insertionSort, List.mem_filter, Bool.and_eq_true,
          decide_eq_true_eq]
        exact ⟨stored, above, by omega⟩
      -- What is left comes after the last record of the page.
      rw [split] at sorted
      rcases List.mem_append.1 member with onPage | later
      · exact ⟨_, onPage, rfl⟩
      · have := (List.pairwise_append.1 sorted).2.2 last lastOn _ later
        dsimp only at this
        omega

/-! ## Opening the records of a page -/

/-- A step of the client opens a record.  What it needs for that it may have got since the
step before. -/
def Opens (openers : Openers σ γ ρ ε) (client : Client γ ρ) (record : InboxRecord σ γ)
    (next : Client γ ρ) : Prop :=
  ∃ engine, next = (Client.openRecord openers { client with engine } record).1

theorem failed_cursor
    (client : Client γ ρ) (seq : Nat) (error : ProtoError) :
    (client.failed (ε := ε) seq error).1.cursor = (client.cursor.markFailed seq).1 := by
  simp only [Client.failed]
  split <;> rfl

/-- Opening a record touches the cursor at its own number only. -/
theorem openRecord_cursor
    (openers : Openers σ γ ρ ε) (client : Client γ ρ) (record : InboxRecord σ γ) :
    (client.openRecord openers record).1.cursor = client.cursor ∨
      (client.openRecord openers record).1.cursor = client.cursor.markApplied record.seq ∨
      (client.openRecord openers record).1.cursor =
        (client.cursor.markFailed record.seq).1 := by
  unfold Client.openRecord
  split
  · exact .inl rfl
  · split
    · next result live =>
        split at live
        · unfold Client.openLive at live
          split at live <;> cases live <;> exact .inl rfl
        · cases live
    · unfold Client.openLogged
      split
      · exact .inl rfl
      · split
        · exact .inr (.inl rfl)
        · exact .inr (.inl rfl)
        · exact .inr (.inl rfl)
        · exact .inr (.inl rfl)
        · exact .inr (.inl rfl)
        · exact .inr (.inl rfl)
        · exact .inr (.inl rfl)
        · dsimp only
          split
          · exact .inr (.inl rfl)
          · exact .inl rfl
          · exact .inr (.inr (failed_cursor _ _ _))
        · dsimp only
          split
          · exact .inr (.inl rfl)
          · exact .inr (.inl rfl)
          · exact .inl rfl
          · exact .inr (.inr (failed_cursor _ _ _))

variable {openers : Openers σ γ ρ ε}

theorem Opens.settled {client next : Client γ ρ} {record : InboxRecord σ γ}
    (opens : Opens openers client record next)
    (settled : client.cursor.Settled) : next.cursor.Settled := by
  obtain ⟨engine, rfl⟩ := opens
  rcases openRecord_cursor openers { client with engine } record with same | applied | failed
  · rw [same]
    exact settled
  · rw [applied]
    exact settled.markApplied _
  · rw [failed]
    exact settled.markFailed _

/-- Opening a record takes nothing back and makes no other number done. -/
theorem Opens.isDone {client next : Client γ ρ} {record : InboxRecord σ γ}
    (opens : Opens openers client record next) (seq : Nat) :
    (client.cursor.isDone seq = true -> next.cursor.isDone seq = true) ∧
      (next.cursor.isDone seq = true -> seq = record.seq ∨ client.cursor.isDone seq = true) := by
  obtain ⟨engine, rfl⟩ := opens
  rcases openRecord_cursor openers { client with engine } record with same | applied | failed
  · rw [same]
    exact ⟨id, .inr⟩
  · rw [applied, Cursor.markApplied_isDone_iff]
    exact ⟨.inr, id⟩
  · rw [failed]
    exact ⟨Cursor.isDone_markFailed, Cursor.isDone_of_markFailed⟩

/-- A run over some records makes nothing done but their numbers. -/
theorem isDone_of_run {client final : Client γ ρ}
    {records : List (InboxRecord σ γ)}
    (run : Run (Opens openers) client records final)
    (seq : Nat) :
    (client.cursor.isDone seq = true -> final.cursor.isDone seq = true) ∧
      (final.cursor.isDone seq = true ->
        (∃ record ∈ records, record.seq = seq) ∨ client.cursor.isDone seq = true) := by
  induction run with
  | nil client => exact ⟨id, .inr⟩
  | @cons client next final record records first rest inductionHypothesis =>
      have step := first.isDone seq
      refine ⟨fun done => inductionHypothesis.1 (step.1 done), fun done => ?_⟩
      rcases inductionHypothesis.2 done with ⟨other, member, isSeq⟩ | done
      · exact .inl ⟨other, List.mem_cons_of_mem _ member, isSeq⟩
      · rcases step.2 done with rfl | done
        · exact .inl ⟨record, List.mem_cons_self, rfl⟩
        · exact .inr done

theorem settled_of_run {client final : Client γ ρ}
    {records : List (InboxRecord σ γ)}
    (run : Run (Opens openers) client records final)
    (settled : client.cursor.Settled) : final.cursor.Settled :=
  @Run.invariant _ _ _ (fun client : Client γ ρ => client.cursor.Settled) _ _ _ run
    (fun _ _ _ _ opens => opens.settled) settled

/-- The page that the server returns for the next request of a client. -/
def nextPage (coding : Coding σ γ) (log later : List Row) (cursor : Cursor) :
    List (InboxRecord σ γ) :=
  (syncPage coding log later cursor.nextRequest.afterSeq cursor.nextRequest.maxBytes).1

/-- Once every record of a page is applied or given up, the cursor stands behind the page
exactly when every number in between was done before or belongs to a readable record of
the log. -/
theorem cursor_passes_page_iff
    {openers : Openers σ γ ρ ε}
    {coding : Coding σ γ}
    {disk : Nat}
    {engine : Engine γ ρ}
    {client final : Client γ ρ}
    {earlier records : List (InboxRecord σ γ)}
    {log later : List Row}
    {last : InboxRecord σ γ}
    (before : Run (Opens openers) { cursor := Cursor.fromDisk disk, engine } earlier client)
    (run : Run (Opens openers) client records final)
    (onPage : ∀ record ∈ records, record ∈ nextPage coding log later client.cursor)
    (done : ∀ record ∈ nextPage coding log later client.cursor,
      final.cursor.isDone record.seq = true)
    (isLast : (nextPage coding log later client.cursor).getLast? = some last) :
    (last.seq ≤ final.cursor.diskValue ∧ last.seq ≤ final.cursor.nextRequest.afterSeq) ↔
      ∀ seq, client.cursor.diskValue < seq -> seq ≤ last.seq ->
        client.cursor.isDone seq = true ∨
          ∃ row ∈ later, row.seq = seq ∧ (coding.decode row.item).isSome = true := by
  have settled : final.cursor.Settled :=
    settled_of_run run (settled_of_run before (Cursor.fromDisk_settled disk))
  have passes := settled.le_applied_iff last.seq
  simp only [Cursor.nextRequest, Cursor.diskValue, and_self]
  rw [passes]
  constructor
  · intro all seq above low
    rcases (isDone_of_run run seq).2 (all seq low) with ⟨record, member, isSeq⟩ | early
    · exact .inr ((mem_syncPage_iff isLast above low).1 ⟨record, onPage record member, isSeq⟩)
    · exact .inl early
  · intro covered seq low
    by_cases above : client.cursor.diskValue < seq
    · rcases covered seq above low with early | stored
      · exact (isDone_of_run run seq).1 early
      · obtain ⟨record, member, rfl⟩ := (mem_syncPage_iff isLast above low).2 stored
        exact done record member
    · apply (isDone_of_run run seq).1
      rw [Cursor.isDone_iff]
      exact .inl (Nat.le_of_not_lt above)

/-- Records of the first version with at most some hundred bytes, as they are coded. -/
def sampleCoding : Coding Unit Unit where
  decode
    | 98 :: outer :: 10 :: inner :: json =>
        if outer.toNat = inner.toNat + 2 ∧ inner.toNat = json.length then
          some { seq := 0, receivedMs := 0, item := some (.legacyV1 json) }
        else none
    | _ => none
  encodedLen _ := 20

def sampleOpeners : Openers Unit Unit Unit Unit where
  decodeChecked _ := .ok ()
  openSealedMode engine _ _ _ := (engine, .error (.proto .crypto))
  openGroup engine _ _ := (engine, .error (.proto .crypto))
  ownRevoked _ _ := false
  forgetRevokedDevice rest _ := rest
  isCall _ := false

def sampleEngine : Engine Unit Unit :=
  { deviceId := "d", lastError := none, pendingGroup := [], rest := () }

/-- An inbox of two records, the first of them a month older. -/
def sampleInbox : List Row :=
  [{ seq := 1, item := [98, 3, 10, 1, 120], receivedAt := 0 },
    { seq := 2, item := [98, 3, 10, 1, 121], receivedAt := 2600000 }]

def sampleRecord (seq : Nat) (letter : UInt8) (receivedMs : Int) : InboxRecord Unit Unit :=
  { seq, receivedMs, item := some (.legacyV1 [letter]) }

/-- A client that starts from nothing and opens some records. -/
def sampleOpened (records : List (InboxRecord Unit Unit)) : Client Unit Unit :=
  records.foldl (fun client record => (client.openRecord sampleOpeners record).1)
    { cursor := Cursor.fromDisk 0, engine := sampleEngine }

theorem run_foldl
    (openers : Openers σ γ ρ ε) (client : Client γ ρ)
    (records : List (InboxRecord σ γ)) :
    Run (Opens openers) client records
      (records.foldl (fun client record => (client.openRecord openers record).1) client) := by
  induction records generalizing client with
  | nil => exact .nil client
  | cons record records inductionHypothesis =>
      exact .cons ⟨client.engine, rfl⟩ (inductionHypothesis _)

theorem cursor_passes_page_sample :
    2 ≤ (sampleOpened [sampleRecord 1 120 0, sampleRecord 2 121 2600000000]).cursor.diskValue := by
  have page : nextPage sampleCoding sampleInbox sampleInbox (sampleOpened []).cursor =
      [sampleRecord 1 120 0, sampleRecord 2 121 2600000000] := by
    decide +kernel
  have passes := @cursor_passes_page_iff _ _ _ _ sampleOpeners sampleCoding 0 sampleEngine
    (sampleOpened []) _ _ _ sampleInbox sampleInbox (sampleRecord 2 121 2600000000) (.nil _)
    (run_foldl sampleOpeners _ [sampleRecord 1 120 0, sampleRecord 2 121 2600000000])
    (by rw [page]; exact fun record member => member) (by rw [page]; decide +kernel)
    (by rw [page]; rfl)
  refine (passes.2 fun seq above low => .inr ?_).1
  have isSeq : seq = 1 ∨ seq = 2 := by
    change 0 < seq at above
    change seq ≤ 2 at low
    omega
  rcases isSeq with rfl | rfl <;> decide +kernel

/-- The first record expires before the client asks: the client applies the second and
stays where it was. -/
theorem cursor_stalls_behind_gap :
    ¬ ∀ (disk : Nat) (log later : List Row) (records : List (InboxRecord Unit Unit))
        (final : Client Unit Unit) (last : InboxRecord Unit Unit),
      Run (Opens sampleOpeners) { cursor := Cursor.fromDisk disk, engine := sampleEngine }
        records final ->
      (∀ record ∈ records, record ∈ nextPage sampleCoding log later (Cursor.fromDisk disk)) ->
      (∀ record ∈ nextPage sampleCoding log later (Cursor.fromDisk disk),
        final.cursor.isDone record.seq = true) ->
      (nextPage sampleCoding log later (Cursor.fromDisk disk)).getLast? = some last ->
        last.seq ≤ final.cursor.diskValue ∧ last.seq ≤ final.cursor.nextRequest.afterSeq := by
  intro passes
  have page : nextPage sampleCoding (gc 2600000 0 sampleInbox) (gc 2600000 0 sampleInbox)
      (Cursor.fromDisk 0) = [sampleRecord 2 121 2600000000] := by
    decide +kernel
  have passed := passes 0 (gc 2600000 0 sampleInbox) (gc 2600000 0 sampleInbox)
    [sampleRecord 2 121 2600000000] _ (sampleRecord 2 121 2600000000)
    (run_foldl sampleOpeners _ _) (by rw [page]; exact fun record member => member)
    (by rw [page]; decide +kernel) (by rw [page]; rfl)
  revert passed
  decide +kernel

end Parvane.Inbox
