import Parvane.Group.Invariants

/-!
# Who holds the sending key

Each epoch has a sending key, which is given to those who may write when the epoch
begins.  Whoever may not write any more makes the epoch stale.
-/

namespace Parvane.Group

open Wire Sign

variable {library : Library} {lookup : Option Lookup} {state next : GroupState}
  {signer : SignerInfo} {now : Int64} {change : Change}

/-! ## Addresses -/

/-- The address that a member gave up by the entry. -/
def Label.formerAddress (library : Library) (label : Label) : Option String :=
  match label.change with
  | .renameMember (some op) =>
      (Identity.verifyRenameOp library.toIdentity op label.signer.user).toOption.map Prod.fst
  | _ => none

/-- The address of a user after an entry. -/
def Label.move (library : Library) (label : Label) (user : String) : String :=
  if label.formerAddress library = some user then label.signer.user else user

/-- The address of a user after some entries. -/
def movedTo (library : Library) (labels : List Label) (user : String) : String :=
  labels.foldl (fun user label => label.move library user) user

theorem move_of_not_rename
    (notRename : ∀ rename, change ≠ .renameMember rename)
    (user : String) : Label.move library ⟨signer, now, change⟩ user = user := by
  rw [Label.move, if_neg]
  intro former
  cases change with
  | renameMember rename => exact notRename rename rfl
  | _ => cases former

/-! ## Writing -/

theorem canWrite_iff {user : String} {ts : Int64} :
    state.canWrite user ts = true ↔
      ∃ member, state.members[user]? = some member ∧ user ∉ state.banned ∧
        ¬ ts < member.mutedUntilMs ∧ state.deleted = false ∧
        (state.owner = user ∨ member.role = .admin ∨
          state.kind = .group ∧ state.defaultPermissions.sendMessages = true) := by
  rw [GroupState.canWrite]
  cases found : state.members[user]? with
  | none => simp
  | some member =>
      have isAdmin : state.isAdmin user = true ↔ state.owner = user ∨ member.role = .admin := by
        simp [GroupState.isAdmin, GroupState.isOwner, found,
          Std.ExtTreeMap.contains_iff_mem.2 (mem_of_getElem? found)]
      have isBanned : state.banned.contains user = true ↔ user ∈ state.banned :=
        Std.ExtTreeSet.contains_iff_mem
      dsimp only
      split
      · next blocked =>
          simp only [Bool.or_eq_true, isBanned, decide_eq_true_eq, gt_iff_lt] at blocked
          simp only [Bool.false_eq_true, Option.some.injEq, exists_eq_left', false_iff]
          rintro ⟨notBanned, notMuted, notDeleted, -⟩
          rcases blocked with (banned | muted) | deleted
          · exact notBanned banned
          · exact notMuted muted
          · rw [notDeleted] at deleted
            cases deleted
      · next free =>
          simp only [Bool.or_eq_true, isBanned, decide_eq_true_eq, gt_iff_lt, not_or,
            Bool.not_eq_true] at free
          simp only [Option.some.injEq, exists_eq_left', free.1.1, free.1.2, free.2,
            not_false_eq_true, true_and]
          split
          · next admin => simp only [← or_assoc, isAdmin.1 admin, true_or]
          · next notAdmin =>
              rw [isAdmin, not_or] at notAdmin
              simp [notAdmin.1, notAdmin.2]

section

variable (effect : Effect library lookup state signer now change next)

include effect

/-- Without a new epoch, the flag stays. -/
theorem Effect.stays_stale
    (notEpoch : change.isNewEpoch = false)
    (isStale : state.epochStale = true) : next.epochStale = true := by
  cases effect with
  | setRank change member target role rights found notOwner rank allowed => simp [isStale]
  | setPublic change isPublic epochStale stays => exact stays isStale
  | newEpoch change key bundles => cases notEpoch
  | _ => first | exact isStale | rfl

theorem Effect.lastEpochMs_eq
    (notEpoch : change.isNewEpoch = false) : next.lastEpochMs = state.lastEpochMs := by
  cases effect with
  | newEpoch change key bundles => cases notEpoch
  | _ => rfl

/-- A user who joins a group that is not public makes the epoch stale. -/
theorem Effect.joined_stale {user : String}
    (isPrivate : state.isPublic = none) (notRename : ∀ rename, change ≠ .renameMember rename)
    (wasNot : user ∉ state.members)
    (isMember : user ∈ next.members) : next.epochStale = true := by
  cases effect with
  | addMember change member links isNew notBanned room sameLinks => rfl
  | joinLink change isLink isNew notBanned room => rfl
  | joinPublic change isPublic isNew notBanned room =>
      rw [isPublicLink, isPrivate] at isPublic
      cases isPublic
  | renameMember op old member verified sameRoot isNew notBanned found =>
      exact absurd rfl (notRename (some op))
  | removeMember other member target found allowed notOwner =>
      exact absurd (Std.ExtTreeMap.mem_of_mem_erase isMember) wasNot
  | ban other member allowed notOwner =>
      exact absurd (Std.ExtTreeMap.mem_of_mem_erase isMember) wasNot
  | leave _ notOwner => exact absurd (Std.ExtTreeMap.mem_of_mem_erase isMember) wasNot
  | setOwner change member _ isOwner other =>
      exact absurd (Std.ExtTreeMap.mem_modify.1 (Std.ExtTreeMap.mem_modify.1 isMember)) wasNot
  | setRank change member target role rights found notOwner rank allowed =>
      exact absurd (Std.ExtTreeMap.mem_modify.1 isMember) wasNot
  | mute change member target found allowed notOwner =>
      exact absurd (Std.ExtTreeMap.mem_modify.1 isMember) wasNot
  | _ => exact absurd isMember wasNot

/-- While the epoch is not stale, who could write can write. -/
theorem Effect.canWrite {user : String} {ts : Int64}
    (notEpoch : change.isNewEpoch = false) (notStale : next.epochStale = false)
    (notDeleted : next.deleted = false) (could : state.canWrite user ts = true) :
    next.canWrite (Label.move library ⟨signer, now, change⟩ user) ts = true := by
  obtain ⟨member, found, notBanned, notMuted, _, mayWrite⟩ := canWrite_iff.1 could
  cases effect with
  | newEpoch change key bundles => cases notEpoch
  | deleteGroup isOwner => cases notDeleted
  | addMember | removeMember | ban | mute | setPermissions | joinLink | leave => cases notStale
  | setOwner change new isMember isOwner other =>
      rw [move_of_not_rename (by simp)]
      refine canWrite_iff.2 ?_
      simp only [Std.ExtTreeMap.getElem?_modify, compare_eq_iff_eq]
      by_cases isNew : new = user
      · subst isNew
        rw [if_pos rfl, if_neg (Ne.symm other), found]
        exact ⟨_, rfl, notBanned, notMuted, notDeleted, .inl rfl⟩
      · rw [if_neg isNew]
        by_cases isSigner : signer.user = user
        · rw [if_pos isSigner, ← isSigner, isSigner, found]
          exact ⟨_, rfl, notBanned, notMuted, notDeleted, .inr (.inl rfl)⟩
        · rw [if_neg isSigner, found]
          refine ⟨member, rfl, notBanned, notMuted, notDeleted, .inr ?_⟩
          exact mayWrite.resolve_left (isOwner ▸ isSigner)
  | setRank change other target role rights targetFound notOwner rank allowed =>
      rw [move_of_not_rename (by simp)]
      refine canWrite_iff.2 ?_
      simp only [Std.ExtTreeMap.getElem?_modify, compare_eq_iff_eq]
      by_cases isTarget : other = user
      · subst isTarget
        rw [targetFound] at found
        cases found
        rw [if_pos rfl, targetFound]
        refine ⟨_, rfl, notBanned, notMuted, notDeleted, .inr ?_⟩
        rcases rank with rfl | rfl
        · exact .inl rfl
        · -- An administrator who is demoted makes the epoch stale.
          simp only [beq_self_eq_true, Bool.and_true, Bool.or_eq_false_iff,
            beq_eq_false_iff_ne] at notStale
          exact .inr ((mayWrite.resolve_left (Ne.symm notOwner)).resolve_left notStale.2)
      · rw [if_neg isTarget, found]
        exact ⟨member, rfl, notBanned, notMuted, notDeleted, mayWrite⟩
  | unban other unbanned =>
      rw [move_of_not_rename (by simp)]
      refine canWrite_iff.2 ⟨member, found, ?_, notMuted, notDeleted, mayWrite⟩
      exact fun isBanned => notBanned (Std.ExtTreeSet.mem_of_mem_erase isBanned)
  | joinPublic change isPublic isNew signerNotBanned room =>
      rw [move_of_not_rename (by simp)]
      refine canWrite_iff.2 ⟨member, ?_, notBanned, notMuted, notDeleted, mayWrite⟩
      rw [Std.ExtTreeMap.getElem?_insert, if_neg ?_]
      · exact found
      · rw [compare_eq_iff_eq]
        rintro rfl
        exact isNew (mem_of_getElem? found)
  | renameMember op old moved verified sameRoot isNew signerNotBanned movedFound =>
      have former : Label.formerAddress library ⟨signer, now, .renameMember (some op)⟩ =
          some old := by
        simp only [Label.formerAddress, verified]
        rfl
      have moves : Label.move library ⟨signer, now, .renameMember (some op)⟩ user =
          if old = user then signer.user else user := by
        simp only [Label.move, former, Option.some.injEq]
      rw [moves]
      refine canWrite_iff.2 ?_
      by_cases isOld : old = user
      · subst isOld
        rw [movedFound] at found
        cases found
        rw [if_pos rfl]
        refine ⟨member, Std.ExtTreeMap.getElem?_insert_self, signerNotBanned, notMuted, notDeleted,
          ?_⟩
        rcases mayWrite with isOwner | mayWrite
        · exact .inl (if_pos isOwner)
        · exact .inr mayWrite
      · rw [if_neg isOld]
        have notSigner : signer.user ≠ user := by
          rintro rfl
          exact isNew (mem_of_getElem? found)
        refine ⟨member, ?_, notBanned, notMuted, notDeleted, ?_⟩
        · simp only [Std.ExtTreeMap.getElem?_insert, Std.ExtTreeMap.getElem?_erase,
            compare_eq_iff_eq, notSigner, isOld, if_false, found]
        · rcases mayWrite with isOwner | mayWrite
          · left
            dsimp only
            rw [if_neg (fun same => isOld (same.symm.trans isOwner)), isOwner]
          · exact .inr mayWrite
  | _ =>
      rw [move_of_not_rename (by simp)]
      exact canWrite_iff.2 ⟨member, found, notBanned, notMuted, notDeleted, mayWrite⟩

end

/-! ## Whole runs -/

theorem Step.deleted_eq {label : Label}
    (step : Step library lookup state label next) : state.deleted = false := by
  obtain ⟨_, _, _, notDeleted, -⟩ := step
  exact notDeleted

variable {labels : List Label}

section

variable (run : Run (Accepts library) state labels next)

include run

/-- Nothing but a new epoch clears the flag. -/
theorem stale_of_run
    (noEpoch : ∀ label ∈ labels, label.change.isNewEpoch = false)
    (isStale : state.epochStale = true) : next.epochStale = true := by
  refine run_keeps (fun later => later.epochStale = true) run ?_ isStale
  rintro before after _ label member ⟨changed, hash, versions, -, effect, rfl⟩ isStale
  exact effect.stays_stale (noEpoch label member) isStale

theorem lastEpochMs_of_run
    (noEpoch : ∀ label ∈ labels, label.change.isNewEpoch = false) :
    next.lastEpochMs = state.lastEpochMs := by
  refine run_keeps (fun later => later.lastEpochMs = state.lastEpochMs) run ?_ rfl
  rintro before after _ label member ⟨changed, hash, versions, -, effect, rfl⟩ same
  exact (effect.lastEpochMs_eq (noEpoch label member)).trans same

/-- Within one epoch that is not stale, who could write can write. -/
theorem canWrite_of_run {user : String} {ts : Int64}
    (noEpoch : ∀ label ∈ labels, label.change.isNewEpoch = false)
    (notStale : next.epochStale = false) (notDeleted : next.deleted = false)
    (could : state.canWrite user ts = true) :
    next.canWrite (movedTo library labels user) ts = true := by
  induction run generalizing user with
  | nil state => exact could
  | @cons state later final label labels first rest inductionHypothesis =>
      obtain ⟨_, changed, hash, versions, -, effect, rfl⟩ := first.step
      have restNot := fun other member => noEpoch other (List.mem_cons_of_mem label member)
      have laterNotStale : (changed.place (state.version + 1) hash versions).epochStale = false := by
        by_contra isStale
        rw [Bool.not_eq_false] at isStale
        rw [stale_of_run rest restNot isStale] at notStale
        cases notStale
      have laterNotDeleted : (changed.place (state.version + 1) hash versions).deleted = false := by
        cases rest with
        | nil => exact notDeleted
        | cons second _ =>
            obtain ⟨_, step⟩ := second.step
            exact step.deleted_eq
      exact inductionHypothesis restNot notStale notDeleted
        (effect.canWrite (noEpoch label List.mem_cons_self) laterNotStale laterNotDeleted could)

end

/-- The last epoch began with the labelled entry, between the two states. -/
structure LastEpoch
    (library : Library) (genesis : SignedOp) (earlier later : GroupState) (label : Label)
    (after : List Label) (state : GroupState) : Prop where
  reached : ∃ before, Reaches library genesis before earlier
  accepted : Accepts library earlier label later
  isEpoch : label.change.isNewEpoch = true
  run : Run (Accepts library) later after state
  last : ∀ other ∈ after, other.change.isNewEpoch = false

/-- A state whose epoch is not stale is in some epoch. -/
theorem exists_lastEpoch {genesis : SignedOp}
    (reaches : Reaches library genesis labels state) (notStale : state.epochStale = false) :
    ∃ earlier later label after, LastEpoch library genesis earlier later label after state := by
  obtain ⟨entry, resolve, lookup, start, isGenesis, created, run⟩ := reaches
  have firstCreated := created
  simp only [applyWith, bind_eq_ok] at firstCreated
  obtain ⟨signed, -, firstCreated⟩ := firstCreated
  rcases run.exists_last fun label => label.change.isNewEpoch with
    none | ⟨before, label, after, earlier, later, -, first, accepts, rest, isEpoch, last⟩
  · have isStale := stale_of_run run none (applyGenesis_spec firstCreated).2.2.2.1
    rw [notStale] at isStale
    cases isStale
  · exact ⟨earlier, later, label, after,
      ⟨before, entry, resolve, lookup, start, isGenesis, created, first⟩, accepts, isEpoch, rest,
      last⟩

theorem LastEpoch.time_eq
    {genesis : SignedOp} {earlier later : GroupState} {label : Label} {after : List Label}
    (epoch : LastEpoch library genesis earlier later label after state) :
    state.lastEpochMs = label.now := by
  obtain ⟨_, changed, hash, versions, -, effect, laterEq⟩ := epoch.accepted.step
  have began : changed.lastEpochMs = label.now := by
    have isEpoch := epoch.isEpoch
    generalize label.change = change at effect isEpoch
    cases effect with
    | newEpoch => rfl
    | _ => cases isEpoch
  rw [lastEpochMs_of_run epoch.run epoch.last, laterEq]
  exact began

/-- In a group whose epoch is not stale, everyone who could write when the epoch began can
still write; and who joined a private group since the last epoch made it stale. -/
theorem sending_key_safe
    (library : Library)
    (genesis : SignedOp)
    (labels : List Label)
    (state : GroupState)
    (reaches : Reaches library genesis labels state) :
    (state.epochStale = false -> state.deleted = false ->
      (∃ earlier later label after, LastEpoch library genesis earlier later label after state) ∧
      ∀ earlier later label after, LastEpoch library genesis earlier later label after state ->
        state.lastEpochMs = label.now ∧
          ∀ user, later.canWrite user label.now = true ->
            state.canWrite (movedTo library after user) label.now = true) ∧
      ∀ before after earlier later label user,
        Reaches library genesis before earlier ->
        Accepts library earlier label later ->
        Run (Accepts library) later after state ->
        (∀ other ∈ after, other.change.isNewEpoch = false) ->
        earlier.isPublic = none -> (∀ rename, label.change ≠ .renameMember rename) ->
        user ∉ earlier.members -> user ∈ later.members -> state.epochStale = true := by
  constructor
  · intro notStale notDeleted
    refine ⟨exists_lastEpoch reaches notStale, fun earlier later label after epoch => ?_⟩
    refine ⟨epoch.time_eq, fun user could => ?_⟩
    exact canWrite_of_run epoch.run epoch.last notStale notDeleted could
  · intro before after earlier later label user _ accepts run noEpoch isPrivate notRename wasNot
      isMember
    obtain ⟨_, changed, hash, versions, -, effect, rfl⟩ := accepts.step
    exact stale_of_run run noEpoch (effect.joined_stale isPrivate notRename wasNot isMember)

/-! ## A sample -/

/-- The owner begins an epoch, then a member becomes an administrator. -/
def epochChange (number : Nat) : Change :=
  if number = 1 then sampleCreate
  else if number = 2 then .newEpoch ⟨1, sampleKey 9, []⟩
  else .setRole ⟨some ⟨"b@x.org"⟩, 2, some { inviteUsers := true }⟩

def epochLibrary : Library := sampleLibrary epochChange

def epochEntries : List GroupStateEntry := [sampleEntry 2 1, sampleEntry 3 1]

theorem isSome_sampleAfter_epoch : (sampleAfter epochLibrary epochEntries).isSome = true := by
  decide +kernel

def epochState : GroupState :=
  ((sampleAfter epochLibrary epochEntries).get isSome_sampleAfter_epoch).2

theorem sending_key_safe_sample :
    epochState.canWrite "b@x.org" epochState.lastEpochMs = true ∧
      ∃ earlier later label after, LastEpoch epochLibrary
        ⟨sampleBody 1, List.replicate 64 0, sampleKey 1⟩ earlier later label after epochState := by
  have reached : sampleAfter epochLibrary epochEntries =
      some (((sampleAfter epochLibrary epochEntries).get isSome_sampleAfter_epoch).1,
        epochState) := by
    rw [epochState, Prod.mk.eta, Option.some_get]
  refine ⟨by decide +kernel, ?_⟩
  exact ((sending_key_safe epochLibrary _ _ epochState (reaches_sampleAfter reached)).1
    (by decide +kernel) (by decide +kernel)).1

end Parvane.Group
