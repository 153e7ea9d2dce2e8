import Parvane.Planner.Convergence

/-!
# Convergence of whole records

Goal periods, health records, quick lines and diary entries are merged as a whole:
the record with the later stamp wins, and of two records with one stamp the one with
the greater encoding.  The encoding contains the tombstone, and for the record that is
there it contains the tombstone merged so far.  A tombstone that arrives between two
records with one stamp can therefore decide which of them stays.  The records converge
exactly when no tie among them is decided by a tombstone.
-/

namespace Parvane.Planner

open Wire Domain Convergence

/-! ## Records -/

/-- A record is its tombstone and the rest. -/
class LawfulRecord (α : Type) [Record α] : Prop where
  stamp_withDeleted (record : α) (deleted : Option LwwStamp) :
    Stamped.stamp (Record.withDeleted record deleted) = Stamped.stamp record
  id_withDeleted (record : α) (deleted : Option LwwStamp) :
    Record.id (Record.withDeleted record deleted) = Record.id record
  deleted_withDeleted (record : α) (deleted : Option LwwStamp) :
    Record.deleted (Record.withDeleted record deleted) = deleted
  withDeleted_withDeleted (record : α) (deleted later : Option LwwStamp) :
    Record.withDeleted (Record.withDeleted record deleted) later =
      Record.withDeleted record later
  withDeleted_deleted (record : α) :
    Record.withDeleted record (Record.deleted record) = record
  stamp_tombstone (id : String) (deleted : Option LwwStamp) :
    Stamped.stamp (Record.tombstone id deleted : α) = none
  id_tombstone (id : String) (deleted : Option LwwStamp) :
    Record.id (Record.tombstone id deleted : α) = id
  deleted_tombstone (id : String) (deleted : Option LwwStamp) :
    Record.deleted (Record.tombstone id deleted : α) = deleted
  withDeleted_tombstone (id : String) (deleted later : Option LwwStamp) :
    Record.withDeleted (Record.tombstone id deleted : α) later = Record.tombstone id later

attribute [simp] LawfulRecord.stamp_withDeleted LawfulRecord.id_withDeleted
  LawfulRecord.deleted_withDeleted LawfulRecord.withDeleted_withDeleted
  LawfulRecord.withDeleted_deleted LawfulRecord.stamp_tombstone LawfulRecord.id_tombstone
  LawfulRecord.deleted_tombstone LawfulRecord.withDeleted_tombstone

instance : LawfulRecord GoalPeriod where
  stamp_withDeleted _ _ := rfl
  id_withDeleted _ _ := rfl
  deleted_withDeleted _ _ := rfl
  withDeleted_withDeleted _ _ _ := rfl
  withDeleted_deleted _ := rfl
  stamp_tombstone _ _ := rfl
  id_tombstone _ _ := rfl
  deleted_tombstone _ _ := rfl
  withDeleted_tombstone _ _ _ := rfl

instance : LawfulRecord HealthRecord where
  stamp_withDeleted _ _ := rfl
  id_withDeleted _ _ := rfl
  deleted_withDeleted _ _ := rfl
  withDeleted_withDeleted _ _ _ := rfl
  withDeleted_deleted _ := rfl
  stamp_tombstone _ _ := rfl
  id_tombstone _ _ := rfl
  deleted_tombstone _ _ := rfl
  withDeleted_tombstone _ _ _ := rfl

instance : LawfulRecord QuickLine where
  stamp_withDeleted _ _ := rfl
  id_withDeleted _ _ := rfl
  deleted_withDeleted _ _ := rfl
  withDeleted_withDeleted _ _ _ := rfl
  withDeleted_deleted _ := rfl
  stamp_tombstone _ _ := rfl
  id_tombstone _ _ := rfl
  deleted_tombstone _ _ := rfl
  withDeleted_tombstone _ _ _ := rfl

instance : LawfulRecord FoodEntry where
  stamp_withDeleted _ _ := rfl
  id_withDeleted _ _ := rfl
  deleted_withDeleted _ _ := rfl
  withDeleted_withDeleted _ _ _ := rfl
  withDeleted_deleted _ := rfl
  stamp_tombstone _ _ := rfl
  id_tombstone _ _ := rfl
  deleted_tombstone _ _ := rfl
  withDeleted_tombstone _ _ _ := rfl

/-! ## Ties -/

section

variable [Record α]

/-- The incoming record replaces the one that is there. -/
def Replaces (incoming current : α) : Bool :=
  isNewer (Stamped.stamp incoming) (encode incoming) (Stamped.stamp current) (encode current)

/-- The record without its tombstone. -/
def content (record : α) : α :=
  Record.withDeleted record none

/-- A stamp that an operation may carry. -/
def IsValidStamp (stamp : LwwStamp) : Prop :=
  (Stamp.fromPb (some stamp)).isOk

/-- The record passes its check, and its stamps are valid stamps of one device. -/
def Sendable (check : α -> Result Unit) (record : α) : Prop :=
  check record = .ok () ∧
    ∃ device, ∀ stamp ∈ (Stamped.stamp record).toList ++ (Record.deleted record).toList,
      IsValidStamp stamp ∧ stamp.deviceId = device

/-- Different records with one identifier and one stamp. -/
def Tied (stored incoming : α) : Prop :=
  IsStamped incoming ∧ Record.id stored = Record.id incoming ∧
    Stamped.stamp stored = Stamped.stamp incoming ∧ content stored ≠ content incoming

/-- No later tombstone of the stored record decides a tie among the records. -/
def TieStable (check : α -> Result Unit) (records : Set α) : Prop :=
  ∀ stored ∈ records, ∀ incoming ∈ records,
    Sendable check stored -> Sendable check incoming -> Tied stored incoming ->
      ∀ tombstone, IsValidStamp tombstone ->
        stampKey (Record.deleted stored) < stampKey (some tombstone) ->
          Replaces incoming (Record.withDeleted stored (some tombstone)) =
            Replaces incoming stored

end

/-! ## What a valid stamp is -/

variable {stamp : LwwStamp}

theorem IsValidStamp.fromPb
    (valid : IsValidStamp stamp) :
    stamp.lamport ≠ 0 ∧
      Stamp.fromPb (some stamp) = .ok ⟨stamp.lamport, stamp.deviceId⟩ := by
  unfold IsValidStamp at valid
  cases parsed : Stamp.fromPb (some stamp) with
  | error error =>
      rw [parsed] at valid
      cases valid
  | ok result =>
      simp only [Stamp.fromPb, bind_eq_ok, present_eq_ok, require_eq_ok, pure, Except.pure,
        Except.ok.injEq, Option.some.injEq, exists_eq_left'] at parsed
      obtain ⟨-, positive, -, -, rfl⟩ := parsed
      exact ⟨by simpa using positive, rfl⟩

theorem IsValidStamp.isProper
    (valid : IsValidStamp stamp) : IsProper stamp := by
  unfold IsProper
  rw [stampKey, stampKey, Prod.Lex.lt_iff]
  left
  exact UInt64.pos_iff_ne_zero.2 valid.fromPb.1

/-- A tombstone that is not earlier is the same or a later stamp. -/
theorem eq_or_lt_of_stampKey_le {earlier later : Option LwwStamp}
    (earlierValid : ∀ stamp ∈ earlier, IsValidStamp stamp)
    (laterValid : ∀ stamp ∈ later, IsValidStamp stamp)
    (ordered : stampKey earlier ≤ stampKey later) :
    later = earlier ∨
      ∃ stamp, later = some stamp ∧ stampKey earlier < stampKey (some stamp) := by
  cases later with
  | none =>
      cases earlier with
      | none => exact .inl rfl
      | some stamp =>
          exact absurd ordered (not_le.2 (earlierValid stamp rfl).isProper)
  | some stamp =>
      rcases ordered.lt_or_eq with less | equal
      · exact .inr ⟨stamp, rfl, less⟩
      · left
        cases earlier with
        | none => exact absurd equal (laterValid stamp rfl).isProper.ne
        | some other => rw [stampKey_some_injective equal]

theorem stampKey_mergeDeleted (current incoming : Option LwwStamp) :
    stampKey (mergeDeleted current incoming) = max (stampKey current) (stampKey incoming) := by
  rw [mergeDeleted_eq_ite]
  split
  · next less => rw [max_eq_right less.le]
  · next notLess => rw [max_eq_left (not_lt.1 notLess)]

theorem mergeDeleted_valid {current incoming : Option LwwStamp}
    (currentValid : ∀ stamp ∈ current, IsValidStamp stamp)
    (incomingValid : ∀ stamp ∈ incoming, IsValidStamp stamp) :
    ∀ stamp ∈ mergeDeleted current incoming, IsValidStamp stamp := by
  rw [mergeDeleted_eq_ite]
  split
  · exact incomingValid
  · exact currentValid

theorem mergeDeleted_none {incoming : Option LwwStamp}
    (valid : ∀ stamp ∈ incoming, IsValidStamp stamp) : mergeDeleted none incoming = incoming := by
  cases incoming with
  | none => rfl
  | some stamp =>
      have proper : stampKey none < stampKey (some stamp) := (valid stamp rfl).isProper
      rw [mergeDeleted, if_pos proper]

/-! ## The records of one identifier -/

section

variable [Record α]

variable {record : α}

theorem Sendable.deleted_valid {check : α -> Result Unit}
    (sendable : Sendable check record) : ∀ stamp ∈ Record.deleted record, IsValidStamp stamp := by
  obtain ⟨-, device, valid⟩ := sendable
  intro stamp isDeleted
  exact (valid stamp (by simp [Option.mem_def.1 isDeleted])).1

/-- A stamped record of the set, under its identifier. -/
structure Member (check : α -> Result Unit) (records : Set α) (id : String) (record : α) :
    Prop where
  sendable : Sendable check record
  inside : record ∈ records
  stamped : IsStamped record
  named : Record.id record = id

/-- A record that the changes may bring: a stamped one is of the set. -/
structure Brings (check : α -> Result Unit) (records : Set α) (id : String) (record : α) :
    Prop where
  sendable : Sendable check record
  inside : IsStamped record -> record ∈ records
  named : Record.id record = id

variable {check : α -> Result Unit} {records : Set α} {id : String}

theorem Brings.member
    (brings : Brings check records id record)
    (stamped : IsStamped record) : Member check records id record :=
  ⟨brings.sendable, brings.inside stamped, stamped, brings.named⟩

open Classical in
/-- A record of the set with the given content. -/
noncomputable def representative
    (check : α -> Result Unit) (records : Set α) (id : String) (value : α) : α :=
  if found : ∃ record, Member check records id record ∧ content record = value then
    found.choose
  else value

theorem representative_spec
    (member : Member check records id record) :
    Member check records id (representative check records id (content record)) ∧
      content (representative check records id (content record)) = content record := by
  have found : ∃ other, Member check records id other ∧ content other = content record :=
    ⟨record, member, rfl⟩
  rw [representative, dif_pos found]
  exact found.choose_spec

theorem replaces_iff {incoming current : α}
    (incomingStamped : IsStamped incoming) (currentStamped : IsStamped current) :
    Replaces incoming current = true ↔ regKey current < regKey incoming :=
  isNewer_iff_regKey_lt currentStamped incomingStamped

/-- Different stamps decide alone. -/
theorem regKey_lt_iff_of_stamp_ne {first second firstOther secondOther : α}
    (firstStamped : IsStamped first) (secondStamped : IsStamped second)
    (firstSame : Stamped.stamp firstOther = Stamped.stamp first)
    (secondSame : Stamped.stamp secondOther = Stamped.stamp second)
    (different : Stamped.stamp first ≠ Stamped.stamp second) :
    regKey firstOther < regKey secondOther ↔ regKey first < regKey second := by
  obtain ⟨firstStamp, firstEq⟩ := Option.isSome_iff_exists.1 firstStamped
  obtain ⟨secondStamp, secondEq⟩ := Option.isSome_iff_exists.1 secondStamped
  have apart : firstStamp.lamport = secondStamp.lamport ->
      firstStamp.deviceId ≠ secondStamp.deviceId := by
    intro lamports devices
    apply different
    rw [firstEq, secondEq, LwwStamp.ext lamports devices]
  simp only [regKey, firstSame, secondSame, firstEq, secondEq, Prod.Lex.toLex_lt_toLex]
  constructor
  · rintro (less | ⟨lamports, less | ⟨devices, -⟩⟩)
    · exact .inl less
    · exact .inr ⟨lamports, .inl less⟩
    · exact absurd devices (apart lamports)
  · rintro (less | ⟨lamports, less | ⟨devices, -⟩⟩)
    · exact .inl less
    · exact .inr ⟨lamports, .inl less⟩
    · exact absurd devices (apart lamports)

variable {stored incoming : α}

theorem Tied.symm
    (tied : Tied stored incoming) : Tied incoming stored := by
  obtain ⟨stamped, ids, stamps, differ⟩ := tied
  refine ⟨?_, ids.symm, stamps.symm, differ.symm⟩
  rw [IsStamped, stamps]
  exact stamped

/-- Of two tied records one replaces the other. -/
theorem Tied.replaces_eq_not
    (tied : Tied stored incoming) : Replaces incoming stored = !Replaces stored incoming := by
  have differ : regKey stored ≠ regKey incoming := by
    intro equal
    exact tied.2.2.2 (congrArg content (regKey_injective equal))
  rw [Bool.eq_iff_iff, Bool.not_eq_true', ← Bool.not_eq_true,
    replaces_iff tied.1 tied.symm.1, replaces_iff tied.symm.1 tied.1, not_lt]
  exact ⟨le_of_lt, fun ordered => lt_of_le_of_ne ordered differ⟩

/-- The order in which contents replace each other. -/
noncomputable def rank
    (check : α -> Result Unit) (records : Set α) (id : String)
    (value : α) : UInt64 ×ₗ String ×ₗ Bytes :=
  regKey (representative check records id value)

/-- The contents of the records of the set. -/
def contents (check : α -> Result Unit) (records : Set α) (id : String) : Set α :=
  content '' { record | Member check records id record }

theorem rank_injOn : Set.InjOn (rank check records id) (contents check records id) := by
  rintro _ ⟨first, firstMember, rfl⟩ _ ⟨second, secondMember, rfl⟩ equal
  have sameRecord := regKey_injective equal
  rw [← (representative_spec firstMember).2, ← (representative_spec secondMember).2,
    sameRecord]

/-- The content kept so far and the tombstone merged so far. -/
abbrev Summary (α : Type) := Option α × Option LwwStamp

/-- The content that a record offers. -/
def offered (record : α) : Option α :=
  if IsStamped record then some (content record) else none

/-- Offer a record to the content and its tombstone to the tombstone. -/
noncomputable def Summary.offer
    (check : α -> Result Unit) (records : Set α) (id : String) (summary : Summary α)
    (record : α) : Summary α :=
  ((offered record).elim summary.1 (keepGreatest (rank check records id) summary.1),
    mergeDeleted summary.2 (Record.deleted record))

/-- The record that a summary stands for. -/
def Summary.assemble (id : String) (summary : Summary α) : α :=
  match summary.1 with
  | none => Record.tombstone id summary.2
  | some value => Record.withDeleted value summary.2

/-- The content comes from a record of the set that was not marked later. -/
def Summary.Sound
    (check : α -> Result Unit) (records : Set α) (id : String) (summary : Summary α) : Prop :=
  (∀ stamp ∈ summary.2, IsValidStamp stamp) ∧
    ∀ value ∈ summary.1, ∃ record, Member check records id record ∧
      content record = value ∧ stampKey (Record.deleted record) ≤ stampKey summary.2

theorem Summary.Sound.offer {summary : Summary α}
    (sound : summary.Sound check records id) (brings : Brings check records id record) :
    (summary.offer check records id record).Sound check records id := by
  obtain ⟨valid, held⟩ := sound
  refine ⟨mergeDeleted_valid valid brings.sendable.deleted_valid, ?_⟩
  have heldLater : ∀ value ∈ summary.1, ∃ other, Member check records id other ∧
      content other = value ∧ stampKey (Record.deleted other) ≤
        stampKey (mergeDeleted summary.2 (Record.deleted record)) := by
    intro value isHeld
    obtain ⟨other, member, same, ordered⟩ := held value isHeld
    refine ⟨other, member, same, ordered.trans ?_⟩
    rw [stampKey_mergeDeleted]
    exact le_max_left _ _
  intro value isHeld
  simp only [Summary.offer, offered] at isHeld ⊢
  split at isHeld
  · next stamped =>
      obtain ⟨kept, keptEq, fromRecord | fromSummary⟩ :=
        keepGreatest_eq_some (rank check records id) summary.1 (content record)
      · rw [Option.elim_some, Option.mem_def, keptEq, Option.some.injEq] at isHeld
        refine ⟨record, brings.member stamped, ?_, ?_⟩
        · rw [← isHeld, fromRecord]
        · rw [stampKey_mergeDeleted]
          exact le_max_right _ _
      · rw [Option.elim_some, Option.mem_def, keptEq, ← fromSummary] at isHeld
        exact heldLater value isHeld
  · exact heldLater value isHeld

theorem offer_convergesFrom :
    ConvergesFrom (Summary.offer check records id) ((none, none) : Summary α)
      (Brings check records id) := by
  have greatest := (keepGreatest_commutesOn (rank check records id) rank_injOn).optional
    (offered (α := α))
  have fromContents : ∀ record, Brings check records id record ->
      ∀ value ∈ offered record, value ∈ contents check records id := by
    intro record brings value carried
    unfold offered at carried
    split at carried
    · next stamped =>
        rw [← Option.some.inj carried]
        exact ⟨record, brings.member stamped, rfl⟩
    · cases carried
  have held := (greatest.mono fromContents).convergesFrom (by simp : ∀ value ∈ (none : Option α), _)
  intro first second same brings
  apply Prod.ext
  · exact held.project Prod.fst (fun _ _ => rfl) same brings
  · exact ((mergeDeleted_convergesFrom Record.deleted).mono fun _ _ => trivial).project
      Prod.snd (fun _ _ => rfl) same brings

variable [LawfulRecord α]

theorem withDeleted_content (record : α) (deleted : Option LwwStamp) :
    Record.withDeleted (content record) deleted = Record.withDeleted record deleted := by
  simp [content]

theorem stamp_eq_of_content_eq {first second : α}
    (sameContent : content first = content second) :
    Stamped.stamp first = Stamped.stamp second := by
  have stamps := congrArg Stamped.stamp sameContent
  simpa [content] using stamps

section

variable (stable : TieStable check records)
include stable

/-- A tombstone put on the stored record does not decide the tie. -/
theorem TieStable.replaces_withDeleted
    (storedMember : Member check records id stored)
    (incomingMember : Member check records id incoming) (tied : Tied stored incoming)
    {deleted : Option LwwStamp} (valid : ∀ stamp ∈ deleted, IsValidStamp stamp)
    (ordered : stampKey (Record.deleted stored) ≤ stampKey deleted) :
    Replaces incoming (Record.withDeleted stored deleted) = Replaces incoming stored := by
  rcases eq_or_lt_of_stampKey_le storedMember.sendable.deleted_valid valid ordered with
    rfl | ⟨stamp, rfl, later⟩
  · rw [LawfulRecord.withDeleted_deleted]
  · exact stable stored storedMember.inside incoming incomingMember.inside
      storedMember.sendable incomingMember.sendable tied stamp (valid stamp rfl) later

/-- Records that differ in their tombstones only lose and win alike. -/
theorem TieStable.replaces_eq_of_stored {stored storedOther incoming : α}
    (storedMember : Member check records id stored)
    (otherMember : Member check records id storedOther)
    (incomingMember : Member check records id incoming)
    (sameContent : content storedOther = content stored) (tied : Tied stored incoming) :
    Replaces incoming storedOther = Replaces incoming stored := by
  have moved {first second : α}
      (firstMember : Member check records id first)
      (secondMember : Member check records id second)
      (same : content second = content first)
      (tied : Tied first incoming)
      (ordered : stampKey (Record.deleted first) ≤ stampKey (Record.deleted second)) :
      Replaces incoming second = Replaces incoming first := by
    rw [← stable.replaces_withDeleted firstMember incomingMember tied
      secondMember.sendable.deleted_valid ordered, ← withDeleted_content, ← same,
      withDeleted_content, LawfulRecord.withDeleted_deleted]
  rcases le_total (stampKey (Record.deleted stored)) (stampKey (Record.deleted storedOther))
    with ordered | ordered
  · exact moved storedMember otherMember sameContent tied ordered
  · have otherTied : Tied storedOther incoming := by
      refine ⟨tied.1, ?_, ?_, ?_⟩
      · rw [otherMember.named, incomingMember.named]
      · rw [stamp_eq_of_content_eq sameContent]
        exact tied.2.2.1
      · rw [sameContent]
        exact tied.2.2.2
    exact (moved otherMember storedMember sameContent.symm otherTied ordered).symm

theorem TieStable.replaces_eq {stored storedOther incoming incomingOther : α}
    (storedMember : Member check records id stored)
    (storedOtherMember : Member check records id storedOther)
    (incomingMember : Member check records id incoming)
    (incomingOtherMember : Member check records id incomingOther)
    (storedSame : content storedOther = content stored)
    (incomingSame : content incomingOther = content incoming) (tied : Tied stored incoming) :
    Replaces incomingOther storedOther = Replaces incoming stored := by
  have otherTied : Tied stored incomingOther := by
    refine ⟨incomingOtherMember.stamped, ?_, ?_, ?_⟩
    · rw [storedMember.named, incomingOtherMember.named]
    · rw [stamp_eq_of_content_eq incomingSame]
      exact tied.2.2.1
    · rw [incomingSame]
      exact tied.2.2.2
  calc
    Replaces incomingOther storedOther = Replaces incomingOther stored :=
      stable.replaces_eq_of_stored storedMember storedOtherMember incomingOtherMember
        storedSame otherTied
    _ = !Replaces stored incomingOther := otherTied.replaces_eq_not
    _ = !Replaces stored incoming := by
      rw [stable.replaces_eq_of_stored incomingMember incomingOtherMember storedMember
        incomingSame tied.symm]
    _ = Replaces incoming stored := tied.replaces_eq_not.symm

end

/-- A stored record with the tombstones merged so far gives way to an incoming one
with another content as their ranks say. -/
theorem replaces_iff_rank_lt
    (stable : TieStable check records) (storedMember : Member check records id stored)
    (incomingMember : Member check records id incoming) (differ : content stored ≠ content incoming)
    {deleted : Option LwwStamp} (valid : ∀ stamp ∈ deleted, IsValidStamp stamp)
    (ordered : stampKey (Record.deleted stored) ≤ stampKey deleted) :
    Replaces incoming (Record.withDeleted stored deleted) = true ↔
      rank check records id (content stored) < rank check records id (content incoming) := by
  obtain ⟨storedChosen, storedSame⟩ := representative_spec storedMember
  obtain ⟨incomingChosen, incomingSame⟩ := representative_spec incomingMember
  unfold rank
  by_cases stamps : Stamped.stamp stored = Stamped.stamp incoming
  · have tied : Tied stored incoming :=
      ⟨incomingMember.stamped, storedMember.named.trans incomingMember.named.symm, stamps,
        differ⟩
    rw [stable.replaces_withDeleted storedMember incomingMember tied valid ordered,
      ← stable.replaces_eq storedMember storedChosen incomingMember incomingChosen
        storedSame incomingSame tied,
      replaces_iff incomingChosen.stamped storedChosen.stamped]
  · have markedStamped : IsStamped (Record.withDeleted stored deleted) := by
      rw [IsStamped, LawfulRecord.stamp_withDeleted]
      exact storedMember.stamped
    rw [replaces_iff incomingMember.stamped markedStamped,
      regKey_lt_iff_of_stamp_ne storedMember.stamped incomingMember.stamped
        (LawfulRecord.stamp_withDeleted _ _) rfl stamps,
      regKey_lt_iff_of_stamp_ne storedMember.stamped incomingMember.stamped
        (stamp_eq_of_content_eq storedSame) (stamp_eq_of_content_eq incomingSame) stamps]

/-- Merging into the record of a summary is offering to the summary. -/
theorem joinRecord_assemble
    (stable : TieStable check records) {summary : Summary α}
    (sound : summary.Sound check records id) (brings : Brings check records id record) :
    joinRecord (summary.assemble id) record =
      (summary.offer check records id record).assemble id := by
  obtain ⟨held, deleted⟩ := summary
  obtain ⟨valid, fromSet⟩ := sound
  by_cases stamped : IsStamped record
  · cases held with
    | none =>
        obtain ⟨stamp, stampEq⟩ := Option.isSome_iff_exists.1 stamped
        simp [joinRecord, Summary.assemble, Summary.offer, offered, stamped, isNewer, stampEq,
          withDeleted_content]
    | some value =>
        obtain ⟨stored, storedMember, rfl, ordered⟩ := fromSet value rfl
        have member := brings.member stamped
        by_cases same : content stored = content record
        · -- whichever of the two is kept, the content is the same
          have merged (later : Option LwwStamp) :
              Record.withDeleted record later = Record.withDeleted stored later := by
            rw [← withDeleted_content, ← same, withDeleted_content]
          simp only [joinRecord, Summary.assemble, Summary.offer, offered, stamped, if_true,
            Option.elim_some, keepGreatest_some, same, lt_self_iff_false, if_false]
          split <;> simp [withDeleted_content]
        · have decided := replaces_iff_rank_lt stable storedMember member same valid ordered
          rw [Replaces] at decided
          simp only [joinRecord, Summary.assemble, Summary.offer, offered, stamped, if_true,
            Option.elim_some, keepGreatest_some, withDeleted_content, decided]
          split <;> simp [withDeleted_content]
  · cases held <;> simp [joinRecord, Summary.assemble, Summary.offer, offered, stamped,
      isNewer_of_not_isStamped stamped]

/-- The first record of an identifier. -/
theorem freshRecord_eq_assemble
    (brings : Brings check records id record) :
    freshRecord record =
      (Summary.offer check records id (none, none) record).assemble id := by
  have tombstone := mergeDeleted_none brings.sendable.deleted_valid
  by_cases stamped : IsStamped record
  · have present : (Stamped.stamp record).isNone = false := by
      simpa [IsStamped] using stamped
    simp [freshRecord, present, Summary.assemble, Summary.offer, offered, stamped, tombstone,
      withDeleted_content]
  · have absent : (Stamped.stamp record).isNone = true := by
      simpa [IsStamped] using stamped
    simp [freshRecord, absent, Summary.assemble, Summary.offer, offered, stamped, tombstone,
      brings.named]

/-- The record of an identifier is the one that the summary of its changes stands for. -/
theorem foldl_slotStep_eq_assemble
    (stable : TieStable check records) (changes : List α)
    (brings : ∀ record ∈ changes, Brings check records id record) {summary : Summary α}
    (sound : summary.Sound check records id) :
    changes.foldl (KeyedList.slotStep joinRecord freshRecord) (some (summary.assemble id)) =
      some ((changes.foldl (Summary.offer check records id) summary).assemble id) := by
  induction changes generalizing summary with
  | nil => rfl
  | cons record changes inductionHypothesis =>
      have headBrings := brings record List.mem_cons_self
      rw [List.foldl_cons, List.foldl_cons, KeyedList.slotStep,
        joinRecord_assemble stable sound headBrings]
      exact inductionHypothesis
        (fun other member => brings other (List.mem_cons_of_mem _ member))
        (sound.offer headBrings)

/-- The record of an identifier converges. -/
theorem slotStep_convergesFrom (stable : TieStable check records) :
    ConvergesFrom (KeyedList.slotStep joinRecord freshRecord) none
      (Brings check records id) := by
  have assembled (changes : List α)
      (brings : ∀ record ∈ changes, Brings check records id record) :
      changes.foldl (KeyedList.slotStep joinRecord freshRecord) none =
        if changes = [] then none
        else some ((changes.foldl (Summary.offer check records id) (none, none)).assemble id) := by
    cases changes with
    | nil => rfl
    | cons record changes =>
        have headBrings := brings record List.mem_cons_self
        have sound : Summary.Sound check records id ((none, none) : Summary α) := by
          constructor <;> simp
        rw [if_neg (List.cons_ne_nil _ _), List.foldl_cons, List.foldl_cons,
          KeyedList.slotStep, freshRecord_eq_assemble headBrings]
        exact foldl_slotStep_eq_assemble stable changes
          (fun other member => brings other (List.mem_cons_of_mem _ member))
          (sound.offer headBrings)
  intro first second same brings
  have empty_iff : first = [] ↔ second = [] := by
    simp only [List.eq_nil_iff_forall_not_mem, same _]
  rw [assembled first brings, assembled second (same.forall_mem brings),
    offer_convergesFrom first second same brings]
  simp only [empty_iff]

/-- A map of records converges. -/
theorem mergeRecord_convergesFrom (stable : TieStable check records) :
    ConvergesFrom mergeRecord (∅ : Std.ExtTreeMap String α)
      (fun record => Sendable check record ∧ (IsStamped record -> record ∈ records)) := by
  have slots : ConvergesFrom
      (alterAt (fun record : α => some (Record.id record))
        (KeyedList.slotStep joinRecord freshRecord)) ∅
      (fun record => Sendable check record ∧ (IsStamped record -> record ∈ records)) := by
    refine ConvergesFrom.alterAt fun id => ?_
    exact (slotStep_convergesFrom stable).mono fun record admissible =>
      ⟨admissible.1.1, admissible.1.2, Option.some.inj admissible.2⟩
  exact slots

end

/-! ## Diary entries -/

theorem id_joinRecord [Record α]
    [LawfulRecord α] (current incoming : α) (sameId : Record.id current = Record.id incoming) :
    Record.id (joinRecord current incoming) = Record.id incoming := by
  unfold joinRecord
  split
  · simp
  · simpa using sameId

theorem id_freshRecord [Record α] [LawfulRecord α] (incoming : α) :
    Record.id (freshRecord incoming) = Record.id incoming := by
  unfold freshRecord
  split
  · simp
  · rfl

theorem mergeDay_convergesFrom {entries : Set FoodEntry}
    (stable : TieStable checkEntry entries) (day : String) :
    ConvergesFrom mergeDay { day := day }
      (fun incoming => ∀ entry ∈ incoming.entries,
        Sendable checkEntry entry ∧ (IsStamped entry -> entry ∈ entries)) := by
  have slots : ConvergesFrom (KeyedList.mergeAll FoodEntry.id joinRecord freshRecord) []
      (fun incoming => ∀ entry ∈ incoming,
        Sendable checkEntry entry ∧ (IsStamped entry -> entry ∈ entries)) := by
    refine KeyedList.mergeAll_convergesFrom id_joinRecord id_freshRecord fun id => ?_
    exact (slotStep_convergesFrom stable).mono fun entry admissible =>
      ⟨admissible.1.1, admissible.1.2, admissible.2⟩
  intro first second same admissible
  apply NutritionDay.ext
  · exact foldl_constant NutritionDay.day fun _ _ => rfl
  · exact (slots.comap NutritionDay.entries).project NutritionDay.entries (fun _ _ => rfl)
      same admissible
  · exact foldl_register NutritionDay.isComplete rfl (fun _ _ => rfl) same
  · exact foldl_register NutritionDay.fixedGoals rfl (fun _ _ => rfl) same
  · exact foldl_register NutritionDay.waterMl rfl (fun _ _ => rfl) same

/-! ## Operations on records -/

/-- Sets of stamped records, the diary entries by their days. -/
structure RecordSets where
  goalPeriods : Set GoalPeriod
  health : Set HealthRecord
  quickLines : Set QuickLine
  entries : String -> Set FoodEntry

namespace RecordSets

/-- The change brings records only, and the stamped ones are of the sets. -/
def Allows (sets : RecordSets) (change : Change) : Prop :=
  match change.change with
  | some (.goalPeriod period) => IsStamped period -> period ∈ sets.goalPeriods
  | some (.health record) => IsStamped record -> record ∈ sets.health
  | some (.quickLine line) => IsStamped line -> line ∈ sets.quickLines
  | some (.nutritionDay day) =>
      ∀ entry ∈ day.entries, IsStamped entry -> entry ∈ sets.entries day.day
  | _ => False

/-- Ties among the records of the sets do not depend on tombstones. -/
def Stable (sets : RecordSets) : Prop :=
  TieStable checkGoalPeriod sets.goalPeriods ∧ TieStable checkHealth sets.health ∧
    TieStable checkQuickLine sets.quickLines ∧
    ∀ day, isDay day = true -> TieStable checkEntry (sets.entries day)

/-- What accepted operations bring of the sets. -/
def Brings (sets : RecordSets) (kind : ChangeKind) : Prop :=
  match kind with
  | .goalPeriod period =>
      Sendable checkGoalPeriod period ∧ (IsStamped period -> period ∈ sets.goalPeriods)
  | .health record => Sendable checkHealth record ∧ (IsStamped record -> record ∈ sets.health)
  | .quickLine line => Sendable checkQuickLine line ∧ (IsStamped line -> line ∈ sets.quickLines)
  | .nutritionDay day =>
      isDay day.day = true ∧ ∀ entry ∈ day.entries,
        Sendable checkEntry entry ∧ (IsStamped entry -> entry ∈ sets.entries day.day)
  | _ => False

theorem Stable.take_convergesFrom {sets : RecordSets}
    (stable : sets.Stable) : ConvergesFrom PlannerState.take .new sets.Brings := by
  obtain ⟨goalPeriods, health, quickLines, entries⟩ := stable
  refine Planner.take_convergesFrom ?_ ?_ ?_ ?_ ?_ ?_
  · intro kind brings task isTask
    cases kind <;> cases isTask
    cases brings
  · intro kind brings event isEvent
    cases kind <;> cases isEvent
    cases brings
  · have days : ConvergesFrom
        (fun days (day : NutritionDay) => mergeObject mergeDay days day.day { day := day.day } day)
        ∅ (fun day => isDay day.day = true ∧ ∀ entry ∈ day.entries,
          Sendable checkEntry entry ∧ (IsStamped entry -> entry ∈ sets.entries day.day)) := by
      refine mergeObject_convergesFrom NutritionDay.day (fun day => { day := day }) fun id => ?_
      by_cases proper : isDay id = true
      · refine (mergeDay_convergesFrom (entries id proper) id).mono ?_
        rintro day ⟨⟨-, brings⟩, rfl⟩
        exact brings
      · -- nothing is admissible for such a day
        intro first second same admissible
        have none (incoming : NutritionDay) : incoming ∉ first := by
          intro member
          obtain ⟨⟨isProper, -⟩, rfl⟩ := admissible incoming member
          exact proper isProper
        have firstEmpty := List.eq_nil_iff_forall_not_mem.2 none
        have secondEmpty : second = [] := by
          rw [List.eq_nil_iff_forall_not_mem]
          intro incoming member
          exact none incoming ((same incoming).2 member)
        rw [firstEmpty, secondEmpty]
    refine (days.optional ChangeKind.nutritionDay?).mono ?_
    intro kind brings day isDay
    cases kind <;> cases isDay
    exact brings
  · refine ((mergeRecord_convergesFrom goalPeriods).optional ChangeKind.goalPeriod?).mono ?_
    intro kind brings period isPeriod
    cases kind <;> cases isPeriod
    exact brings
  · refine ((mergeRecord_convergesFrom health).optional ChangeKind.health?).mono ?_
    intro kind brings record isRecord
    cases kind <;> cases isRecord
    exact brings
  · refine ((mergeRecord_convergesFrom quickLines).optional ChangeKind.quickLine?).mono ?_
    intro kind brings line isLine
    cases kind <;> cases isLine
    exact brings

end RecordSets

/-! ### Stamps of operations -/

theorem exists_mem_of_mapM_eq_ok {read : α -> Result β} {values : List α} {results : List β}
    (all : values.mapM read = .ok results) {value : α} (member : value ∈ values) :
    ∃ result ∈ results, read value = .ok result := by
  induction values generalizing results with
  | nil => cases member
  | cons head values inductionHypothesis =>
      simp only [List.mapM_cons, bind_eq_ok, pure, Except.pure, Except.ok.injEq] at all
      obtain ⟨result, headRead, rest, restRead, rfl⟩ := all
      rcases List.mem_cons.1 member with rfl | inRest
      · exact ⟨result, List.mem_cons_self, headRead⟩
      · obtain ⟨found, foundMember, foundRead⟩ := inductionHypothesis restRead inRest
        exact ⟨found, List.mem_cons_of_mem _ foundMember, foundRead⟩

theorem mapM_eq_ok_map {read : α -> Result β} {result : α -> β}
    (values : List α)
    (each : ∀ value ∈ values, read value = .ok (result value)) :
    values.mapM read = .ok (values.map result) := by
  induction values with
  | nil => rfl
  | cons value values inductionHypothesis =>
      rw [List.mapM_cons, each value List.mem_cons_self,
        inductionHypothesis fun other member => each other (List.mem_cons_of_mem _ member)]
      rfl

section

variable {isUppercase : Char -> Bool}

/-- Accepted operations carry valid stamps of one device each. -/
theorem changeStamps_valid {ops : List (String × PlannerOp)}
    (accepted : ∀ pair ∈ ops, Accepted isUppercase pair.1 pair.2) {change : Change}
    (member : change ∈ changesOf ops) :
    ∃ device, ∀ stamp ∈ changeStamps change,
      IsValidStamp stamp ∧ stamp.deviceId = device := by
  obtain ⟨⟨device, op⟩, opMember, changeMember⟩ := List.mem_flatMap.1 member
  obtain ⟨stamps, stampsEq, own⟩ := (accepted (device, op) opMember).stamps
  simp only [opStamps, bind_eq_ok, require_eq_ok, pure, Except.pure, Except.ok.injEq] at stampsEq
  obtain ⟨parsed, parsedEq, -, -, rfl⟩ := stampsEq
  refine ⟨device, ?_⟩
  intro stamp stampMember
  obtain ⟨result, resultMember, read⟩ := exists_mem_of_mapM_eq_ok parsedEq
    (List.mem_flatMap.2 ⟨change, changeMember, stampMember⟩)
  have valid : IsValidStamp stamp := by
    rw [IsValidStamp, read]
    rfl
  refine ⟨valid, ?_⟩
  have resultEq : (⟨stamp.lamport, stamp.deviceId⟩ : Stamp) = result :=
    Except.ok.inj (valid.fromPb.2.symm.trans read)
  have resultOwn := List.all_eq_true.1 own result resultMember
  rw [← resultEq] at resultOwn
  exact eq_of_beq resultOwn

/-- An operation with valid stamps of the device is accepted. -/
theorem accepted_of_stamps {device : String} {op : PlannerOp}
    (some : op.changes.flatMap changeStamps ≠ [])
    (valid : ∀ stamp ∈ op.changes.flatMap changeStamps,
      IsValidStamp stamp ∧ stamp.deviceId = device) : Accepted isUppercase device op := by
  have parsed := mapM_eq_ok_map (op.changes.flatMap changeStamps)
    fun stamp member => (valid stamp member).1.fromPb.2
  have stampsEq : opStamps op = .ok ((op.changes.flatMap changeStamps).map
      fun stamp => (⟨stamp.lamport, stamp.deviceId⟩ : Stamp)) := by
    simp only [opStamps, parsed]
    simp [require, some, bind, Except.bind, pure, Except.pure]
  have own : (((op.changes.flatMap changeStamps).map
      fun stamp => (⟨stamp.lamport, stamp.deviceId⟩ : Stamp)).all
        fun stamp => stamp.deviceId == device) = true := by
    rw [List.all_map, List.all_eq_true]
    intro stamp member
    exact beq_iff_eq.2 (valid stamp member).2
  unfold Accepted applyOp
  simp only [Update.exec_bind, Update.exec_liftM, stampsEq, own, require, if_true,
    Update.exec_modifyGet]
  rfl

theorem mem_checkEntries {entries : List FoodEntry}
    (checked : checkEntries entries = .ok ())
    {entry : FoodEntry}
    (member : entry ∈ entries) : checkEntry entry = .ok () := by
  induction entries with
  | nil => cases member
  | cons head entries inductionHypothesis =>
      simp only [checkEntries, bind_eq_ok] at checked
      obtain ⟨_, headChecked, restChecked⟩ := checked
      rcases List.mem_cons.1 member with rfl | inRest
      · exact headChecked
      · exact inductionHypothesis restChecked inRest

variable {sets : RecordSets}

/-- The changes of accepted operations that pass their checks. -/
theorem brings_of_mem_passed {ops : List (String × PlannerOp)}
    (accepted : ∀ pair ∈ ops, Accepted isUppercase pair.1 pair.2)
    (allowed : ∀ change ∈ changesOf ops, sets.Allows change) {kind : ChangeKind}
    (member : kind ∈ passed isUppercase (changesOf ops)) : sets.Brings kind := by
  obtain ⟨change, inside, checked⟩ := exists_of_mem_passed member
  have allows := allowed change inside
  obtain ⟨device, valid⟩ := changeStamps_valid accepted inside
  obtain ⟨_ | inner⟩ := change
  · cases allows
  cases inner with
  | goalPeriod period =>
      simp only [checkChange, bind_eq_ok, pure, Except.pure, Except.ok.injEq] at checked
      obtain ⟨_, periodChecked, rfl⟩ := checked
      exact ⟨⟨periodChecked, device, valid⟩, allows⟩
  | health record =>
      simp only [checkChange, bind_eq_ok, pure, Except.pure, Except.ok.injEq] at checked
      obtain ⟨_, recordChecked, rfl⟩ := checked
      exact ⟨⟨recordChecked, device, valid⟩, allows⟩
  | quickLine line =>
      simp only [checkChange, bind_eq_ok, pure, Except.pure, Except.ok.injEq] at checked
      obtain ⟨_, lineChecked, rfl⟩ := checked
      exact ⟨⟨lineChecked, device, valid⟩, allows⟩
  | nutritionDay day =>
      simp only [checkChange, checkDay, bind_eq_ok, require_eq_ok, pure, Except.pure,
        Except.ok.injEq] at checked
      obtain ⟨_, ⟨_, dayChecked, _, _, _, entriesChecked, -⟩, rfl⟩ := checked
      refine ⟨dayChecked, ?_⟩
      intro entry entryMember
      refine ⟨⟨mem_checkEntries entriesChecked entryMember, device, ?_⟩,
        allows entry entryMember⟩
      intro stamp stampMember
      apply valid
      simp only [changeStamps, List.mem_append, List.mem_flatMap]
      right
      exact ⟨entry, entryMember, List.mem_append.1 stampMember⟩
  | _ => cases allows

variable (isUppercase)

/-- The changes of every list of accepted operations over the sets give one state, in
whatever order and however often they are applied. -/
def OrderIndependent (sets : RecordSets) : Prop :=
  ∀ ops : List (String × PlannerOp),
    (∀ pair ∈ ops, Accepted isUppercase pair.1 pair.2) ->
    (∀ change ∈ changesOf ops, sets.Allows change) ->
      ∀ order : List Change, SameMembers order (changesOf ops) ->
        (applyChanges isUppercase order .new).2 = applyOps isUppercase ops .new

theorem RecordSets.Stable.orderIndependent
    (stable : sets.Stable) : OrderIndependent isUppercase sets := by
  intro ops accepted allowed order same
  rw [applyOps_of_accepted ops accepted, applyChanges_eq_foldl, applyChanges_eq_foldl]
  refine (stable.take_convergesFrom _ _ (passed_sameMembers isUppercase same.symm) ?_).symm
  exact fun kind member => brings_of_mem_passed accepted allowed member

/-! ### Ties decided by a tombstone -/

section

variable [Record α] [LawfulRecord α]

theorem content_joinRecord (current incoming : α) :
    content (joinRecord current incoming) =
      if Replaces incoming current then content incoming else content current := by
  unfold joinRecord Replaces content
  split <;> simp

/-- A bare tombstone marks the record that is there. -/
theorem joinRecord_tombstone {current : α}
    (later : stampKey (Record.deleted current) < stampKey (some stamp))
    (id : String) :
    joinRecord current (Record.tombstone id (some stamp)) =
      Record.withDeleted current (some stamp) := by
  simp [joinRecord, isNewer, mergeDeleted, later]

/-- When a tombstone may come before or after a record, it does not decide a tie. -/
theorem replaces_eq_of_joinRecord_eq {stored incoming : α}
    (later : stampKey (Record.deleted stored) < stampKey (some stamp))
    (differ : content stored ≠ content incoming)
    (equal : joinRecord (joinRecord stored (Record.tombstone (Record.id stored) (some stamp)))
        incoming =
      joinRecord (joinRecord stored incoming)
        (Record.tombstone (Record.id stored) (some stamp))) :
    Replaces incoming (Record.withDeleted stored (some stamp)) = Replaces incoming stored := by
  have ignored (current : α) :
      Replaces (Record.tombstone (Record.id stored) (some stamp)) current = false := by
    simp [Replaces, isNewer]
  have contents := congrArg content equal
  have marked : content (Record.withDeleted stored (some stamp)) = content stored := by
    simp [content]
  simp only [joinRecord_tombstone later, content_joinRecord, ignored, Bool.false_eq_true,
    if_false, marked] at contents
  cases decided : Replaces incoming (Record.withDeleted stored (some stamp)) <;>
    cases before : Replaces incoming stored <;>
    simp only [decided, before, if_true, if_false, Bool.false_eq_true] at contents ⊢
  · exact absurd contents differ
  · exact absurd contents.symm differ

/-- Order independence of the changes of one kind of record.  The changes are wrapped
records, and a slot of the state shows the records merged under an identifier. -/
theorem tieStable_of_orderIndependent
    (independent : OrderIndependent isUppercase sets)
    {check : α -> Result Unit} {records : Set α} (wrap : α -> ChangeKind)
    (slot : String -> PlannerState -> Option α)
    (checked : ∀ record, check record = .ok () ->
      checkChange isUppercase ⟨some (wrap record)⟩ = .ok (wrap record))
    (stamps : ∀ record, changeStamps ⟨some (wrap record)⟩ =
      (Stamped.stamp record).toList ++ (Record.deleted record).toList)
    (bare : ∀ record stamp, check record = .ok () ->
      check (Record.tombstone (Record.id record) (some stamp)) = .ok ())
    (allowed : ∀ record, (IsStamped record -> record ∈ records) ->
      sets.Allows ⟨some (wrap record)⟩)
    (shown : ∀ id, ∀ changes : List α, (∀ record ∈ changes, Record.id record = id) ->
      slot id ((changes.map wrap).foldl PlannerState.take .new) =
        changes.foldl (KeyedList.slotStep joinRecord freshRecord) none) :
    TieStable check records := by
  intro stored storedInside incoming incomingInside storedSendable incomingSendable tied
    stamp stampValid later
  obtain ⟨incomingStamped, sameId, sameStamp, differ⟩ := tied
  have storedStamped : IsStamped stored := by
    rw [IsStamped, sameStamp]
    exact incomingStamped
  let mark : α := Record.tombstone (Record.id stored) (some stamp)
  have markChecked : check mark = .ok () := bare stored stamp storedSendable.1
  obtain ⟨storedChecked, storedDevice, storedValid⟩ := storedSendable
  obtain ⟨incomingChecked, incomingDevice, incomingValid⟩ := incomingSendable
  have single {record : α} {device : String}
      (nonempty : (Stamped.stamp record).toList ++ (Record.deleted record).toList ≠ [])
      (valid : ∀ other ∈ (Stamped.stamp record).toList ++ (Record.deleted record).toList,
        IsValidStamp other ∧ other.deviceId = device) :
      Accepted isUppercase device ⟨[⟨some (wrap record)⟩]⟩ := by
    apply accepted_of_stamps <;>
      simp only [List.flatMap_cons, List.flatMap_nil, List.append_nil, stamps]
    · exact nonempty
    · exact valid
  have stampedNonempty {record : α} (stamped : IsStamped record) :
      (Stamped.stamp record).toList ++ (Record.deleted record).toList ≠ [] := by
    obtain ⟨recordStamp, stampEq⟩ := Option.isSome_iff_exists.1 stamped
    simp [stampEq]
  let ops : List (String × PlannerOp) :=
    [(storedDevice, ⟨[⟨some (wrap stored)⟩]⟩), (incomingDevice, ⟨[⟨some (wrap incoming)⟩]⟩),
      (stamp.deviceId, ⟨[⟨some (wrap mark)⟩]⟩)]
  have accepted : ∀ pair ∈ ops, Accepted isUppercase pair.1 pair.2 := by
    simp only [ops, List.forall_mem_cons, List.not_mem_nil, false_implies, implies_true,
      and_true]
    refine ⟨single (stampedNonempty storedStamped) storedValid,
      single (stampedNonempty incomingStamped) incomingValid, single ?_ ?_⟩
    · simp [mark]
    · simp [mark, stampValid]
  have run (changes : List α)
      (passes : ∀ record ∈ changes, check record = .ok ()) :
      (applyChanges isUppercase (changes.map fun record => ⟨some (wrap record)⟩) .new).2 =
        (changes.map wrap).foldl PlannerState.take .new := by
    rw [applyChanges_eq_foldl, passed, List.filterMap_map]
    congr 1
    rw [← List.filterMap_eq_map]
    apply List.filterMap_congr
    intro record member
    simp [checked record (passes record member), Except.toOption]
  have equal := independent ops accepted ?_
    ([stored, mark, incoming].map fun record => ⟨some (wrap record)⟩) ?_
  · rw [applyOps_of_accepted ops accepted,
      show changesOf ops = [stored, incoming, mark].map fun record => ⟨some (wrap record)⟩
        from rfl,
      run _ (by simp [storedChecked, incomingChecked, markChecked]),
      run _ (by simp [storedChecked, incomingChecked, markChecked])] at equal
    have slots := congrArg (slot (Record.id stored)) equal
    rw [shown _ _ (by simp [mark, sameId]), shown _ _ (by simp [mark, sameId])] at slots
    have fresh : freshRecord stored = stored := by
      have present : (Stamped.stamp stored).isNone = false := by
        simpa [IsStamped] using storedStamped
      simp [freshRecord, present]
    simp only [List.foldl_cons, List.foldl_nil, KeyedList.slotStep, fresh,
      Option.some.injEq] at slots
    exact replaces_eq_of_joinRecord_eq later differ slots
  · simp only [ops, changesOf, List.flatMap_cons, List.flatMap_nil, List.append_nil,
      List.cons_append, List.nil_append, List.forall_mem_cons, List.not_mem_nil,
      false_implies, implies_true, and_true]
    refine ⟨allowed stored fun _ => storedInside, allowed incoming fun _ => incomingInside,
      allowed mark fun stamped => ?_⟩
    simp [IsStamped, mark] at stamped
  · intro change
    simp only [ops, changesOf, List.flatMap_cons, List.flatMap_nil, List.append_nil,
      List.cons_append, List.nil_append, List.map_cons, List.map_nil, List.mem_cons,
      List.not_mem_nil, or_false]
    tauto

end

/-- A slot of a map shows the records merged under its identifier. -/
theorem getElem?_foldl_take [Record α]
    (part : PlannerState -> Std.ExtTreeMap String α) (wrap : α -> ChangeKind)
    (initially : part .new = ∅)
    (part_take : ∀ state record, part (state.take (wrap record)) = mergeRecord (part state) record)
    (id : String) (changes : List α) (named : ∀ record ∈ changes, Record.id record = id) :
    (part ((changes.map wrap).foldl PlannerState.take .new))[id]? =
      changes.foldl (KeyedList.slotStep joinRecord freshRecord) none := by
  have parts : part ((changes.map wrap).foldl PlannerState.take .new) =
      changes.foldl (alterAt (fun record => some (Record.id record))
        (KeyedList.slotStep joinRecord freshRecord)) ∅ := by
    rw [List.foldl_map, ← initially]
    exact (List.foldl_hom part fun state record => (part_take state record).symm).symm
  have kept : (changes.filter fun record => some (Record.id record) = some id) = changes := by
    rw [List.filter_eq_self]
    intro record member
    simp [named record member]
  rw [parts, ConvergesFrom.getElem?_foldl_alterAt, kept, Std.ExtTreeMap.getElem?_empty]

/-- The diary entries of a day. -/
def PlannerState.entriesOf (day : String) (state : PlannerState) : List FoodEntry :=
  (state.nutrition[day]?.getD { day := day }).entries

theorem entriesOf_take (day : String) (state : PlannerState) (entry : FoodEntry) :
    (state.take (.nutritionDay { day := day, entries := [entry] })).entriesOf day =
      KeyedList.mergeAll FoodEntry.id joinRecord freshRecord (state.entriesOf day) [entry] := by
  simp [PlannerState.entriesOf, PlannerState.take, ChangeKind.nutritionDay?, mergeObject,
    mergeDay]

/-- The diary shows the entries merged under an identifier. -/
theorem lookup_foldl_take
    (day id : String) (changes : List FoodEntry) (named : ∀ entry ∈ changes, Record.id entry = id) :
    KeyedList.lookup FoodEntry.id id
        (((changes.map fun entry => ChangeKind.nutritionDay { day := day, entries := [entry] })
          |>.foldl PlannerState.take .new).entriesOf day) =
      changes.foldl (KeyedList.slotStep joinRecord freshRecord) none := by
  have run (changes : List FoodEntry) (state : PlannerState)
      (named : ∀ entry ∈ changes, Record.id entry = id)
      (distinct : KeyedList.DistinctKeys FoodEntry.id (state.entriesOf day)) :
      KeyedList.lookup FoodEntry.id id
          (((changes.map fun entry => ChangeKind.nutritionDay { day := day, entries := [entry] })
            |>.foldl PlannerState.take state).entriesOf day) =
        changes.foldl (KeyedList.slotStep joinRecord freshRecord)
          (KeyedList.lookup FoodEntry.id id (state.entriesOf day)) := by
    induction changes generalizing state with
    | nil => rfl
    | cons entry changes inductionHypothesis =>
        have keyed : ∀ current incoming : FoodEntry, current.id = incoming.id ->
            (joinRecord current incoming).id = incoming.id := id_joinRecord
        obtain ⟨sorted, lookups⟩ :=
          KeyedList.mergeAll_spec keyed id_freshRecord distinct [entry]
        have found := lookups id
        have entryNamed : entry.id = id := named entry List.mem_cons_self
        simp only [List.filter_cons, entryNamed, decide_true, if_true, List.filter_nil,
          List.foldl_cons, List.foldl_nil] at found
        rw [← entriesOf_take] at sorted found
        rw [List.map_cons, List.foldl_cons, List.foldl_cons, ← found]
        exact inductionHypothesis _
          (fun other member => named other (List.mem_cons_of_mem _ member)) sorted.distinctKeys
  have initially : PlannerState.new.entriesOf day = [] := by
    simp [PlannerState.entriesOf, PlannerState.new]
  rw [run changes .new named (by simp [initially, KeyedList.DistinctKeys]), initially]
  rfl

theorem OrderIndependent.stable
    (independent : OrderIndependent isUppercase sets) : sets.Stable := by
  refine ⟨?_, ?_, ?_, ?_⟩
  · refine tieStable_of_orderIndependent isUppercase independent ChangeKind.goalPeriod
      (fun id state => state.goalPeriods[id]?) ?_ (fun _ => rfl) ?_ (fun _ inside => inside)
      (getElem?_foldl_take PlannerState.goalPeriods _ rfl fun _ _ => rfl)
    · intro period checked
      simp only [checkChange, checked]
      rfl
    · intro period stamp checked
      simp only [checkGoalPeriod, bind_eq_ok, require_eq_ok] at checked
      obtain ⟨_, isId, -⟩ := checked
      simp [checkGoalPeriod, Record.tombstone, Record.id, isTombstone, require, isId, bind,
        Except.bind, pure, Except.pure]
  · refine tieStable_of_orderIndependent isUppercase independent ChangeKind.health
      (fun id state => state.health[id]?) ?_ (fun _ => rfl) ?_ (fun _ inside => inside)
      (getElem?_foldl_take PlannerState.health _ rfl fun _ _ => rfl)
    · intro record checked
      simp only [checkChange, checked]
      rfl
    · intro record stamp checked
      simp only [checkHealth, bind_eq_ok, require_eq_ok] at checked
      obtain ⟨_, isId, -⟩ := checked
      simp [checkHealth, Record.tombstone, Record.id, isTombstone, require, isId, bind,
        Except.bind, pure, Except.pure]
  · refine tieStable_of_orderIndependent isUppercase independent ChangeKind.quickLine
      (fun id state => state.quickLines[id]?) ?_ (fun _ => rfl) ?_ (fun _ inside => inside)
      (getElem?_foldl_take PlannerState.quickLines _ rfl fun _ _ => rfl)
    · intro line checked
      simp only [checkChange, checked]
      rfl
    · intro line stamp checked
      simp only [checkQuickLine, bind_eq_ok, require_eq_ok] at checked
      obtain ⟨_, isId, -⟩ := checked
      simp [checkQuickLine, Record.tombstone, Record.id, isTombstone, require, isId, bind,
        Except.bind, pure, Except.pure]
  · intro day proper
    refine tieStable_of_orderIndependent isUppercase independent
      (fun entry => ChangeKind.nutritionDay { day := day, entries := [entry] })
      (fun id state => KeyedList.lookup FoodEntry.id id (state.entriesOf day)) ?_ ?_ ?_ ?_
      (lookup_foldl_take day)
    · intro entry checked
      simp [checkChange, checkDay, checkEntries, checked, proper, require, checkOption, bind,
        Except.bind, pure, Except.pure]
    · intro entry
      simp [changeStamps, regStamp, Stamped.stamp, Record.deleted]
    · intro entry stamp checked
      simp only [checkEntry, bind_eq_ok, require_eq_ok] at checked
      obtain ⟨_, isId, -⟩ := checked
      simp [checkEntry, Record.tombstone, Record.id, isTombstone, require, isId, bind,
        Except.bind, pure, Except.pure]
    · intro entry inside
      simpa [RecordSets.Allows] using inside

end

/-- Operations on whole records converge exactly when no tombstone decides a tie among
the records. -/
theorem records_converge_iff (isUppercase : Char -> Bool) (sets : RecordSets) :
    OrderIndependent isUppercase sets ↔ sets.Stable :=
  ⟨OrderIndependent.stable isUppercase, RecordSets.Stable.orderIndependent isUppercase⟩

/-- All records. -/
def RecordSets.all : RecordSets :=
  ⟨Set.univ, Set.univ, Set.univ, fun _ => Set.univ⟩

/-- A quick line with a count, always under the same stamp. -/
def countedLine (count : UInt32) : QuickLine :=
  { id := "q", stamp := some ⟨1, "d"⟩, text := "x", count := count }

/-- A tombstone of the line. -/
def lineTombstone : QuickLine :=
  { id := "q", deleted := some ⟨2, "d"⟩ }

/-- One operation for each line. -/
def lineOps (lines : List QuickLine) : List (String × PlannerOp) :=
  lines.map fun line => ("d", ⟨[⟨some (.quickLine line)⟩]⟩)

/-- A tombstone decides which of two lines with one stamp stays. -/
theorem tombstone_decides_tie :
    (∀ pair ∈ lineOps [countedLine 0, countedLine 1, lineTombstone],
        Accepted Char.isUpper pair.1 pair.2) ∧
      (∀ change ∈ changesOf (lineOps [countedLine 0, countedLine 1, lineTombstone]),
        RecordSets.all.Allows change) ∧
      SameMembers (changesOf (lineOps [countedLine 0, lineTombstone, countedLine 1]))
        (changesOf (lineOps [countedLine 0, countedLine 1, lineTombstone])) ∧
      (applyChanges Char.isUpper
          (changesOf (lineOps [countedLine 0, lineTombstone, countedLine 1])) .new).2 ≠
        applyOps Char.isUpper (lineOps [countedLine 0, countedLine 1, lineTombstone]) .new := by
  refine ⟨?_, ?_, ?_, ?_⟩
  · unfold Accepted
    decide
  · intro change member
    simp only [lineOps, changesOf, List.map_cons, List.map_nil, List.flatMap_cons,
      List.flatMap_nil, List.append_nil, List.cons_append, List.nil_append, List.mem_cons,
      List.not_mem_nil, or_false] at member
    rcases member with rfl | rfl | rfl <;> exact fun _ => trivial
  · intro change
    simp only [lineOps, changesOf, List.map_cons, List.map_nil, List.flatMap_cons,
      List.flatMap_nil, List.append_nil, List.cons_append, List.nil_append, List.mem_cons,
      List.not_mem_nil, or_false]
    tauto
  · decide

end Parvane.Planner
