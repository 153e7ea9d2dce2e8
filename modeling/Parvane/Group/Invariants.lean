import Parvane.Group.Steps

/-!
# Roles in a group

The owner is the one member with that role, banned users are no members, and who is not
the owner cannot touch the owner or another administrator.
-/

namespace Parvane.Group

open Wire Sign

variable {library : Library} {lookup : Option Lookup} {state next : GroupState}
  {signer : SignerInfo} {now : Int64} {change : Change}

/-- What holds of the state of a group at any time. -/
structure Invariant (state : GroupState) : Prop where
  owner : ∃ member, state.members[state.owner]? = some member ∧ member.role = .owner
  only : ∀ user member, state.members[user]? = some member -> member.role = .owner ->
    user = state.owner
  notBanned : ∀ user ∈ state.members, user ∉ state.banned
  few : state.members.size ≤ maxMembers
  hashes : state.hashes.length = state.version
  disjoint : ∀ id ∈ state.inviteLinks, id ∉ state.revokedLinks

/-! ## Members -/

/-- The part of the invariant that is about members. -/
structure Ruled (owner : String) (members : Std.ExtTreeMap String Member) : Prop where
  led : ∃ member, members[owner]? = some member ∧ member.role = .owner
  only : ∀ user member, members[user]? = some member -> member.role = .owner -> user = owner

variable {owner : String} {members : Std.ExtTreeMap String Member}

theorem mem_of_getElem? {user : String} {member : Member} (found : members[user]? = some member) :
    user ∈ members :=
  Std.ExtTreeMap.mem_iff_isSome_getElem?.2 (by rw [found]; rfl)

variable {user : String}

section

variable (ruled : Ruled owner members)

include ruled

theorem Ruled.insert
    (isNew : user ∉ members) : Ruled owner (members.insert user newMember) := by
  obtain ⟨member, found, isOwner⟩ := ruled.led
  refine ⟨⟨member, ?_, isOwner⟩, ?_⟩
  · rw [Std.ExtTreeMap.getElem?_insert, if_neg ?_]
    · exact found
    · rw [compare_eq_iff_eq]
      rintro rfl
      exact isNew (mem_of_getElem? found)
  · intro other member found isOwner
    rw [Std.ExtTreeMap.getElem?_insert] at found
    split at found
    · cases found
      cases isOwner
    · exact ruled.only other member found isOwner

theorem Ruled.erase
    (notOwner : user ≠ owner) : Ruled owner (members.erase user) := by
  obtain ⟨member, found, isOwner⟩ := ruled.led
  refine ⟨⟨member, ?_, isOwner⟩, ?_⟩
  · rw [Std.ExtTreeMap.getElem?_erase, if_neg (by simpa using notOwner)]
    exact found
  · intro other member found isOwner
    rw [Std.ExtTreeMap.getElem?_erase] at found
    split at found
    · cases found
    · exact ruled.only other member found isOwner

/-- A member other than the owner changes, but does not become the owner. -/
theorem Ruled.modify
    {edit : Member -> Member} (notOwner : user ≠ owner)
    (keeps : ∀ member, members[user]? = some member -> (edit member).role ≠ .owner) :
    Ruled owner (members.modify user edit) := by
  obtain ⟨member, found, isOwner⟩ := ruled.led
  refine ⟨⟨member, ?_, isOwner⟩, ?_⟩
  · rw [Std.ExtTreeMap.getElem?_modify, if_neg (by simpa using notOwner)]
    exact found
  · intro other member found isOwner
    rw [Std.ExtTreeMap.getElem?_modify] at found
    split at found
    · obtain ⟨before, beforeFound, rfl⟩ := Option.map_eq_some_iff.1 found
      exact absurd isOwner (keeps before beforeFound)
    · exact ruled.only other member found isOwner

/-- The owner hands the group over to another member. -/
theorem Ruled.handOver
    (isMember : user ∈ members) (other : user ≠ owner) :
    Ruled user
      ((members.modify owner fun previous =>
          { previous with role := .admin, rights := fullRights }).modify
        user fun target => { target with role := .owner, rights := fullRights }) := by
  obtain ⟨target, found⟩ := Option.isSome_iff_exists.1
    (Std.ExtTreeMap.mem_iff_isSome_getElem?.1 isMember)
  refine ⟨⟨{ target with role := .owner, rights := fullRights }, ?_, rfl⟩, ?_⟩
  · simp [Std.ExtTreeMap.getElem?_modify, other.symm, found]
  · intro third member found isOwner
    by_contra different
    simp only [Std.ExtTreeMap.getElem?_modify, compare_eq_iff_eq, Ne.symm different,
      if_false] at found
    split at found
    · obtain ⟨before, -, rfl⟩ := Option.map_eq_some_iff.1 found
      cases isOwner
    · next notPrevious => exact notPrevious (ruled.only third member found isOwner).symm

/-- A member goes on under another address. -/
theorem Ruled.rename {old new : String} {member : Member}
    (found : members[old]? = some member)
    (isNew : new ∉ members) :
    Ruled (if owner = old then new else owner) ((members.erase old).insert new member) := by
  obtain ⟨head, headFound, isOwner⟩ := ruled.led
  have notNew : new ≠ owner := by
    rintro rfl
    exact isNew (mem_of_getElem? headFound)
  constructor
  · by_cases same : owner = old
    · subst same
      rw [headFound] at found
      cases found
      exact ⟨member, by simp, isOwner⟩
    · refine ⟨head, ?_, isOwner⟩
      rw [if_neg same, Std.ExtTreeMap.getElem?_insert, if_neg (by simpa using notNew),
        Std.ExtTreeMap.getElem?_erase, if_neg (by simpa using Ne.symm same)]
      exact headFound
  · intro user other otherFound otherOwner
    rw [Std.ExtTreeMap.getElem?_insert] at otherFound
    split at otherFound
    · next same =>
        cases otherFound
        rw [if_pos (ruled.only old _ found otherOwner).symm]
        exact (compare_eq_iff_eq.1 same).symm
    · rw [Std.ExtTreeMap.getElem?_erase] at otherFound
      split at otherFound
      · cases otherFound
      · next notOld =>
          have isHead := ruled.only user other otherFound otherOwner
          rw [compare_eq_iff_eq] at notOld
          rw [if_neg (by rintro rfl; exact notOld isHead.symm)]
          exact isHead

end

/-! ## One entry -/

theorem Invariant.ruled (invariant : Invariant state) : Ruled state.owner state.members :=
  ⟨invariant.owner, invariant.only⟩

section

variable (effect : Effect library lookup state signer now change next)

include effect

theorem Effect.ruled
    (invariant : Invariant state) : Ruled next.owner next.members := by
  have ruled := invariant.ruled
  cases effect with
  | addMember change member links isNew notBanned room sameLinks => exact ruled.insert isNew
  | removeMember user member target found allowed notOwner => exact ruled.erase notOwner
  | setOwner change member isMember isOwner other =>
      rw [← isOwner] at other ⊢
      exact ruled.handOver isMember other
  | setRank change member target role rights found notOwner rank allowed =>
      refine ruled.modify notOwner fun _ _ => ?_
      rcases rank with rfl | rfl <;> simp
  | ban user member allowed notOwner => exact ruled.erase notOwner
  | mute change member target found allowed notOwner =>
      refine ruled.modify notOwner fun before beforeFound isOwner => ?_
      exact notOwner (ruled.only member before beforeFound isOwner)
  | renameMember op old member verified sameRoot isNew notBanned found =>
      exact ruled.rename found isNew
  | joinPublic change isPublic isNew notBanned room => exact ruled.insert isNew
  | joinLink change isLink isNew notBanned room => exact ruled.insert isNew
  | leave isMember notOwner => exact ruled.erase notOwner
  | _ => exact ruled

theorem Effect.notBanned
    (invariant : Invariant state) : ∀ user ∈ next.members, user ∉ next.banned := by
  have inserted : ∀ {user : String} {member : Member}, user ∉ state.banned ->
      ∀ other ∈ state.members.insert user member, other ∉ state.banned := by
    intro user member notBanned other isMember
    rw [Std.ExtTreeMap.mem_insert, compare_eq_iff_eq] at isMember
    rcases isMember with rfl | isMember
    · exact notBanned
    · exact invariant.notBanned other isMember
  have erased : ∀ {user : String}, ∀ other ∈ state.members.erase user, other ∉ state.banned := by
    intro user other isMember
    exact invariant.notBanned other (Std.ExtTreeMap.mem_of_mem_erase isMember)
  cases effect with
  | addMember change member links isNew notBanned room sameLinks => exact inserted notBanned
  | joinPublic change isPublic isNew notBanned room => exact inserted notBanned
  | joinLink change isLink isNew notBanned room => exact inserted notBanned
  | removeMember user member target found allowed notOwner => exact erased
  | leave isMember notOwner => exact erased
  | setOwner change member isMember isOwner other =>
      intro user isMember
      simp only [Std.ExtTreeMap.mem_modify] at isMember
      exact invariant.notBanned user isMember
  | setRank change member target role rights found notOwner rank allowed =>
      intro user isMember
      simp only [Std.ExtTreeMap.mem_modify] at isMember
      exact invariant.notBanned user isMember
  | mute change member target found allowed notOwner =>
      intro user isMember
      simp only [Std.ExtTreeMap.mem_modify] at isMember
      exact invariant.notBanned user isMember
  | ban user member allowed notOwner =>
      intro other isMember isBanned
      rw [Std.ExtTreeMap.mem_erase, ne_eq, compare_eq_iff_eq] at isMember
      rw [Std.ExtTreeSet.mem_insert, compare_eq_iff_eq] at isBanned
      rcases isBanned with same | isBanned
      · exact isMember.1 same
      · exact invariant.notBanned other isMember.2 isBanned
  | unban user member =>
      intro other isMember isBanned
      exact invariant.notBanned other isMember (Std.ExtTreeSet.mem_of_mem_erase isBanned)
  | renameMember op old member verified sameRoot isNew notBanned found =>
      intro user isMember
      rw [Std.ExtTreeMap.mem_insert, compare_eq_iff_eq] at isMember
      rcases isMember with rfl | isMember
      · exact notBanned
      · exact invariant.notBanned user (Std.ExtTreeMap.mem_of_mem_erase isMember)
  | _ => exact invariant.notBanned

theorem Effect.few
    (invariant : Invariant state) : next.members.size ≤ maxMembers := by
  have inserted : ∀ {user : String} {member : Member}, state.members.size < maxMembers ->
      (state.members.insert user member).size ≤ maxMembers :=
    fun room => Std.ExtTreeMap.size_insert_le.trans room
  have erased : ∀ {user : String}, (state.members.erase user).size ≤ maxMembers :=
    Std.ExtTreeMap.size_erase_le.trans invariant.few
  cases effect with
  | addMember change member links isNew notBanned room sameLinks => exact inserted room
  | joinPublic change isPublic isNew notBanned room => exact inserted room
  | joinLink change isLink isNew notBanned room => exact inserted room
  | removeMember user member target found allowed notOwner => exact erased
  | leave isMember notOwner => exact erased
  | ban user member allowed notOwner => exact erased
  | setOwner change member isMember isOwner other =>
      simp only [Std.ExtTreeMap.size_modify]
      exact invariant.few
  | setRank change member target role rights found notOwner rank allowed =>
      simp only [Std.ExtTreeMap.size_modify]
      exact invariant.few
  | mute change member target found allowed notOwner =>
      simp only [Std.ExtTreeMap.size_modify]
      exact invariant.few
  | renameMember op old member verified sameRoot isNew notBanned found =>
      have isMember := mem_of_getElem? found
      have notEmpty : 0 < state.members.size := by
        rw [Nat.pos_iff_ne_zero]
        intro isEmpty
        rw [Std.ExtTreeMap.eq_empty_iff_size_eq_zero.2 isEmpty] at isMember
        simp at isMember
      have size : ((state.members.erase old).insert signer.user member).size ≤
          (state.members.erase old).size + 1 := Std.ExtTreeMap.size_insert_le
      rw [Std.ExtTreeMap.size_erase, if_pos (Std.ExtTreeMap.contains_iff_mem.2 isMember)] at size
      have few := invariant.few
      dsimp only
      omega
  | _ => exact invariant.few

theorem Effect.disjoint
    (invariant : Invariant state) : ∀ id ∈ next.inviteLinks, id ∉ next.revokedLinks := by
  cases effect with
  | addMember change member links isNew notBanned room sameLinks =>
      intro id isActive
      exact invariant.disjoint id ((sameLinks id).1 isActive)
  | inviteKey announce link notActive notRevoked =>
      intro id isActive
      rw [Std.ExtTreeMap.mem_insert, compare_eq_iff_eq] at isActive
      rcases isActive with rfl | isActive
      · exact notRevoked
      · exact invariant.disjoint id isActive
  | inviteKeyRevoke id link found =>
      intro other isActive
      rw [Std.ExtTreeMap.mem_erase, ne_eq, compare_eq_iff_eq] at isActive
      dsimp only
      split
      · rw [Std.ExtTreeMap.mem_insert, compare_eq_iff_eq, not_or]
        exact ⟨isActive.1, invariant.disjoint other isActive.2⟩
      · exact invariant.disjoint other isActive.2
  | renameMember op old member verified sameRoot isNew notBanned found =>
      intro id isActive
      exact invariant.disjoint id (Std.ExtTreeMap.mem_map.1 isActive)
  | inviteEdit change id edit =>
      intro other isActive
      exact invariant.disjoint other (Std.ExtTreeMap.mem_modify.1 isActive)
  | joinLink change isLink isNew notBanned room =>
      intro id isActive
      exact invariant.disjoint id (Std.ExtTreeMap.mem_modify.1 isActive)
  | _ => exact invariant.disjoint

theorem Effect.sameLog :
    next.hashes = state.hashes ∧ next.version = state.version ∧ next.group = state.group := by
  cases effect <;> exact ⟨rfl, rfl, rfl⟩

end

/-- An accepted entry keeps the invariant. -/
theorem Step.invariant {label : Label}
    (step : Step library lookup state label next)
    (invariant : Invariant state) : Invariant next := by
  obtain ⟨changed, hash, versions, -, effect, rfl⟩ := step
  have ruled := effect.ruled invariant
  refine ⟨ruled.led, ruled.only, effect.notBanned invariant, effect.few invariant, ?_,
    effect.disjoint invariant⟩
  simp only [GroupState.place, List.length_append, List.length_singleton, effect.sameLog.1,
    invariant.hashes]

/-! ## The first entry -/

theorem Ruled.foldlM_addInitial
    (ruled : Ruled owner members)
    {users : List UserRef} {initial : Std.ExtTreeMap String Member}
    (created : users.foldlM addInitial members = .ok initial) : Ruled owner initial := by
  induction users generalizing members with
  | nil =>
      cases created
      exact ruled
  | cons user users inductionHypothesis =>
      simp only [List.foldlM_cons, addInitial, bind_eq_ok, pure, Except.pure,
        Except.ok.injEq] at created
      obtain ⟨_, ⟨address, -, rfl⟩, created⟩ := created
      refine inductionHypothesis ?_ created
      split
      · exact ruled
      · next isNew => exact ruled.insert (mt Std.ExtTreeMap.contains_iff_mem.2 isNew)

theorem ruled_initialMembers {users : List UserRef} {initial : Std.ExtTreeMap String Member}
    (created : initialMembers owner users = .ok initial) : Ruled owner initial := by
  refine Ruled.foldlM_addInitial ⟨⟨⟨.owner, fullRights, 0⟩, by simp, rfl⟩, ?_⟩ created
  intro user member found isOwner
  rw [Std.ExtTreeMap.getElem?_insert] at found
  split at found
  · next same => exact (compare_eq_iff_eq.1 same).symm
  · simp at found

/-- What the first entry makes. -/
theorem applyGenesis_spec {entry : GroupStateEntry} {signed : Signed}
    (created : applyGenesis library entry signed = .ok state) :
    Invariant state ∧ state.version = 1 ∧ state.epoch = 0 ∧ state.epochStale = true ∧
      state.group.id = genesisGroupId library signed.op.body ∧ state.signerVersions =
        (if signed.stateChange.signerLogVersion > 0 then
          (∅ : Std.ExtTreeMap String UInt64).insert signed.signer.user
            signed.stateChange.signerLogVersion
        else ∅) := by
  rw [applyGenesis] at created
  split at created
  · simp only [bind_eq_ok, require_eq_ok, decide_eq_true_eq, beq_iff_eq, pure, Except.pure,
      Except.ok.injEq] at created
    obtain ⟨_, -, inner, -, _, -, _, isId, _, -, members, membersEq, _, few, rfl⟩ := created
    have ruled := ruled_initialMembers membersEq
    refine ⟨⟨ruled.led, ruled.only, ?_, few, rfl, ?_⟩, rfl, rfl, rfl, isId, rfl⟩
    · simp
    · simp
  · cases created

/-! ## Whole runs -/

/-- The state is reached from the first entry by the labelled ones. -/
def Reaches
    (library : Library) (genesis : SignedOp) (labels : List Label) (state : GroupState) : Prop :=
  ∃ entry resolve lookup start, entry.change = some genesis ∧
    applyWith library none entry resolve lookup = .ok start ∧
    Run (Accepts library) start labels state

/-- A new epoch began. -/
def Change.isNewEpoch : Change -> Bool
  | .newEpoch _ => true
  | _ => false

theorem Effect.epoch_eq (effect : Effect library lookup state signer now change next) :
    next.epoch = state.epoch + if change.isNewEpoch then 1 else 0 := by
  cases effect <;> rfl

variable {labels : List Label}

theorem Invariant.run
    (invariant : Invariant state)
    (run : Run (Accepts library) state labels next) : Invariant next :=
  run_keeps Invariant run (fun _ _ _ _ _ step => step.invariant) invariant

theorem epoch_of_run
    (run : Run (Accepts library) state labels next) :
    next.epoch = state.epoch + labels.countP fun label => label.change.isNewEpoch := by
  induction run with
  | nil state => rfl
  | cons first rest inductionHypothesis =>
      obtain ⟨_, changed, hash, versions, -, effect, rfl⟩ := first.step
      rw [inductionHypothesis, List.countP_cons]
      simp only [GroupState.place, effect.epoch_eq]
      omega

theorem group_of_run
    (run : Run (Accepts library) state labels next) : next.group = state.group := by
  refine run_keeps (fun later => later.group = state.group) run ?_ rfl
  rintro before after _ label - ⟨changed, hash, versions, -, effect, rfl⟩ same
  exact effect.sameLog.2.2.trans same

theorem readEntry_op
    {before : Option GroupState} {entry : GroupStateEntry} {resolve : Resolve} {signed : Signed}
    (read : readEntry library before entry resolve lookup = .ok signed) :
    entry.change = some signed.op := by
  simp only [readEntry, bind_eq_ok, present_eq_ok, pure, Except.pure, Except.ok.injEq] at read
  obtain ⟨_, -, _, -, op, opEq, _, -, _, -, _, -, _, -, _, -, _, -, _, -, _, -, rfl⟩ := read
  exact opEq

/-- What the log of a group promises about its state, after any entries. -/
theorem group_invariant
    (library : Library)
    (genesis : SignedOp)
    (labels : List Label)
    (state : GroupState)
    (reaches : Reaches library genesis labels state) :
    (∃ owner, state.members[state.owner]? = some owner ∧ owner.role = .owner) ∧
      (∀ user member, state.members[user]? = some member -> member.role = .owner ->
        user = state.owner) ∧
      (∀ user ∈ state.members, user ∉ state.banned) ∧
      state.members.size ≤ maxMembers ∧
      state.hashes.length = state.version ∧
      state.epoch = labels.countP (fun label => label.change.isNewEpoch) ∧
      (∀ id ∈ state.inviteLinks, id ∉ state.revokedLinks) ∧
      state.group.id = genesisGroupId library genesis.body := by
  obtain ⟨entry, resolve, lookup, start, isGenesis, created, run⟩ := reaches
  simp only [applyWith, bind_eq_ok] at created
  obtain ⟨signed, read, created⟩ := created
  obtain ⟨initially, -, epoch, -, groupId, -⟩ := applyGenesis_spec created
  have invariant := initially.run run
  have isOp := readEntry_op read
  rw [isGenesis, Option.some.injEq] at isOp
  refine ⟨invariant.owner, invariant.only, invariant.notBanned, invariant.few, invariant.hashes, ?_,
    invariant.disjoint, ?_⟩
  · rw [epoch_of_run run, epoch, Nat.zero_add]
  · rw [group_of_run run, groupId, isOp]

/-! ## Privileges -/

/-- The owner and the administrators other than the actor are as before, and new
administrators have rights of the actor only. -/
structure Bounded
    (state : GroupState) (actor : String) (members : Std.ExtTreeMap String Member) : Prop where
  kept : ∀ user member, state.members[user]? = some member ->
    (user = state.owner ∨ member.role = .admin) -> user ≠ actor -> members[user]? = some member
  promoted : ∀ (user : String) (member : Member), members[user]? = some member ->
    member.role = .admin ->
    (∀ before, state.members[user]? = some before -> before.role ≠ .admin) ->
    ∃ own, state.members[actor]? = some own ∧ rightsSubset member.rights own.rights = true

variable {actor : String}

theorem Bounded.refl (state : GroupState) (actor : String) : Bounded state actor state.members :=
  ⟨fun _ _ found _ _ => found, fun _ member found isAdmin wasNot =>
    absurd isAdmin (wasNot member found)⟩

theorem bounded_insert {user : String} (isNew : user ∉ state.members) :
    Bounded state actor (state.members.insert user newMember) := by
  constructor
  · intro other member found _ _
    rw [Std.ExtTreeMap.getElem?_insert, if_neg ?_]
    · exact found
    · rw [compare_eq_iff_eq]
      rintro rfl
      exact isNew (mem_of_getElem? found)
  · intro other member found isAdmin wasNot
    rw [Std.ExtTreeMap.getElem?_insert] at found
    split at found
    · cases found
      cases isAdmin
    · exact absurd isAdmin (wasNot member found)

/-- The user is the actor or an ordinary member. -/
def Ordinary (state : GroupState) (actor user : String) : Prop :=
  user = actor ∨
    user ≠ state.owner ∧ ∀ member, state.members[user]? = some member -> member.role = .member

theorem Ordinary.ne {user other : String} {member : Member}
    (ordinary : Ordinary state actor user)
    (found : state.members[other]? = some member)
    (isProtected : other = state.owner ∨ member.role = .admin)
    (notActor : other ≠ actor) : user ≠ other := by
  rintro rfl
  rcases ordinary with isActor | ⟨notOwner, isMember⟩
  · exact notActor isActor
  · rcases isProtected with isOwner | isAdmin
    · exact notOwner isOwner
    · cases (isMember member found).symm.trans isAdmin

theorem Ordinary.erase {user : String} (ordinary : Ordinary state actor user) :
    Bounded state actor (state.members.erase user) := by
  constructor
  · intro other member found isProtected notActor
    rw [Std.ExtTreeMap.getElem?_erase,
      if_neg (by simpa using ordinary.ne found isProtected notActor)]
    exact found
  · intro other member found isAdmin wasNot
    rw [Std.ExtTreeMap.getElem?_erase] at found
    split at found
    · cases found
    · exact absurd isAdmin (wasNot member found)

theorem Ordinary.modify {edit : Member -> Member}
    (ordinary : Ordinary state actor user)
    (allowed : ∀ before, state.members[user]? = some before -> (edit before).role = .admin ->
      before.role ≠ .admin -> ∃ own, state.members[actor]? = some own ∧
        rightsSubset (edit before).rights own.rights = true) :
    Bounded state actor (state.members.modify user edit) := by
  constructor
  · intro other member found isProtected notActor
    rw [Std.ExtTreeMap.getElem?_modify,
      if_neg (by simpa using ordinary.ne found isProtected notActor)]
    exact found
  · intro other member found isAdmin wasNot
    rw [Std.ExtTreeMap.getElem?_modify] at found
    split at found
    · next same =>
        rw [compare_eq_iff_eq] at same
        subst same
        obtain ⟨before, beforeFound, rfl⟩ := Option.map_eq_some_iff.1 found
        exact allowed before beforeFound isAdmin (wasNot before beforeFound)
    · exact absurd isAdmin (wasNot member found)

/-- An entry of someone other than the owner. -/
theorem Effect.bounded
    (effect : Effect library lookup state signer now change next)
    (notOwner : signer.user ≠ state.owner) (notRename : ∀ rename, change ≠ .renameMember rename) :
    next.owner = state.owner ∧ Bounded state signer.user next.members := by
  have ordinary : ∀ {member : String} {target : Member}, state.members[member]? = some target ->
      (state.owner = signer.user ∨ target.role = .member) -> member ≠ state.owner ->
      Ordinary state signer.user member := by
    intro member target found allowed other
    refine .inr ⟨other, fun before beforeFound => ?_⟩
    rw [found] at beforeFound
    cases beforeFound
    exact allowed.resolve_left (Ne.symm notOwner)
  cases effect with
  | addMember change member links isNew notBanned room sameLinks => exact ⟨rfl, bounded_insert isNew⟩
  | joinPublic change isPublic isNew notBanned room => exact ⟨rfl, bounded_insert isNew⟩
  | joinLink change isLink isNew notBanned room => exact ⟨rfl, bounded_insert isNew⟩
  | removeMember user member target found allowed other =>
      exact ⟨rfl, (ordinary found allowed other).erase⟩
  | leave isMember _ => exact ⟨rfl, Ordinary.erase (.inl rfl)⟩
  | ban user member allowed other =>
      exact ⟨rfl, Ordinary.erase (.inr ⟨other, allowed.resolve_left (Ne.symm notOwner)⟩)⟩
  | setOwner change member isMember isOwner other => exact absurd isOwner.symm notOwner
  | setRank change member target role rights found other rank allowed =>
      obtain ⟨isMember, rfl, own, ownFound, subset⟩ := allowed.resolve_left (Ne.symm notOwner)
      refine ⟨rfl, (ordinary found (.inr isMember) other).modify fun before _ _ _ => ?_⟩
      exact ⟨own, ownFound, by simpa using subset⟩
  | mute change member target found allowed other =>
      refine ⟨rfl, (ordinary found allowed other).modify fun before _ isAdmin wasNot => ?_⟩
      exact absurd isAdmin wasNot
  | renameMember op old member verified sameRoot isNew notBanned found =>
      exact absurd rfl (notRename (some op))
  | _ => exact ⟨rfl, .refl state signer.user⟩

/-- Who is not the owner cannot change the owner or other administrators, nor give rights
beyond the own ones.  A change of address moves one member, whose root key stays. -/
theorem privilege_bound
    (library : Library)
    (state next : GroupState)
    (entry : GroupStateEntry)
    (resolve : Resolve)
    (lookup : Option Lookup)
    (signed : Signed)
    (read : readEntry library (some state) entry resolve lookup = .ok signed)
    (accepted : applyWith library (some state) entry resolve lookup = .ok next) :
    ((∀ rename, signed.change ≠ .renameMember rename) -> signed.signer.user ≠ state.owner ->
        next.owner = state.owner ∧
        (∀ user member, state.members[user]? = some member ->
          (user = state.owner ∨ member.role = .admin) -> user ≠ signed.signer.user ->
          next.members[user]? = some member) ∧
        ∀ (user : String) (member : Member), next.members[user]? = some member ->
          member.role = .admin ->
          (∀ before, state.members[user]? = some before -> before.role ≠ .admin) ->
          ∃ own, state.members[signed.signer.user]? = some own ∧
            rightsSubset member.rights own.rights = true) ∧
      ∀ rename, signed.change = .renameMember rename ->
        ∃ old member hash versions, state.members[old]? = some member ∧
          signed.signer.user ∉ state.members ∧
          (lookup.bind fun known => known.rootOf old) = some signed.signer.rootKey ∧
          next = GroupState.place
            { state with
              members := (state.members.erase old).insert signed.signer.user member
              owner := if state.owner = old then signed.signer.user else state.owner
              inviteLinks := state.inviteLinks.map fun _ link =>
                if link.creator = old then { link with creator := signed.signer.user } else link }
            (state.version + 1) hash versions := by
  obtain ⟨changed, hash, versions, -, effect, rfl⟩ := step_of_applyWith read accepted
  constructor
  · intro notRename notOwner
    obtain ⟨sameOwner, bounded⟩ := effect.bounded notOwner notRename
    exact ⟨sameOwner, bounded.kept, bounded.promoted⟩
  · intro rename isRename
    dsimp only [Signed.label] at effect
    rw [isRename] at effect
    cases effect with
    | renameMember op old member verified sameRoot isNew notBanned found =>
        exact ⟨old, member, hash, versions, found, isNew, sameRoot, rfl⟩

/-! ## A sample -/

/-- The entries after each other, if all of them are accepted. -/
def replay (library : Library) (resolve : Resolve) :
    List GroupStateEntry -> GroupState -> Option (List Label × GroupState)
  | [], state => some ([], state)
  | entry :: entries, state =>
      match readEntry library (some state) entry resolve none,
          applyWith library (some state) entry resolve none with
      | .ok signed, .ok next =>
          (replay library resolve entries next).map fun later =>
            (signed.label :: later.1, later.2)
      | _, _ => none

theorem run_replay {resolve : Resolve} {entries : List GroupStateEntry}
    (accepted : replay library resolve entries state = some (labels, next)) :
    Run (Accepts library) state labels next := by
  induction entries generalizing state labels with
  | nil =>
      cases accepted
      exact .nil _
  | cons entry entries inductionHypothesis =>
      rw [replay] at accepted
      split at accepted
      · next signed later read applied =>
          obtain ⟨⟨labels, final⟩, laterEq, pairEq⟩ := Option.map_eq_some_iff.1 accepted
          cases pairEq
          exact .cons ⟨entry, resolve, none, signed, read, applied, rfl⟩
            (inductionHypothesis laterEq)
      · cases accepted

/-- The first bytes stand for the hash. -/
def sampleHash (bytes : Bytes) : Hash :=
  ⟨(bytes ++ List.replicate 32 0).take 32, by simp⟩

def sampleKey (byte : UInt8) : Bytes := List.replicate 32 byte

def sampleGroup : Ref := ⟨"x.org", (utf8 "parvane/v2/group-genesis").take 16⟩

/-- The bytes of the entry with the given number. -/
def sampleBody (number : Nat) : Bytes := [UInt8.ofNat (number / 256), UInt8.ofNat number]

def sampleNumber (body : Bytes) : Nat := (body.getD 0 0).toNat * 256 + (body.getD 1 0).toNat

def samplePrevious (number : Nat) : Bytes :=
  if number ≤ 1 then zeroHash.bytes
  else (sampleHash (groupEntryHashContext ++ sampleBody (number - 1) ++ List.replicate 64 0)).bytes

/-- Every signature is good, and the payloads are given by their numbers. -/
def sampleLibrary (change : Nat -> Change) : Library where
  sha256 := sampleHash
  isVerifyingKey _ := true
  verifyStrict _ _ _ := true
  decodeOpBody body := .ok
    { header := some
        { domain := groupDomain, opType := groupOp, opId := List.replicate 16 112
          target := if sampleNumber body = 1 then none else some sampleGroup
          audience := [], tsMs := 20000 * Int64.ofNat (sampleNumber body) }
      payload := body }
  decodeDeviceCertificate _ := .error .malformed
  decodeDeviceLogEntry _ := .error .malformed
  decodeStateChange body := .ok
    { group := some (if sampleNumber body = 1 then ⟨"x.org", []⟩ else sampleGroup)
      version := UInt64.ofNat (sampleNumber body)
      prevHash := samplePrevious (sampleNumber body)
      change := some (change (sampleNumber body))
      signerLogVersion := 0
      signerAddress := ""
      floors := [] }
  publicLinkKey secret := secret

/-- The entry of the given number, signed by the key that consists of the byte. -/
def sampleEntry (number : Nat) (signer : UInt8) : GroupStateEntry where
  group := some sampleGroup
  version := UInt64.ofNat number
  prevHash := samplePrevious number
  change := some ⟨sampleBody number, List.replicate 64 0, sampleKey signer⟩

/-- The three users have the keys 1, 2 and 3. -/
def sampleResolve : Resolve := fun key _ =>
  match key.bytes.head? with
  | some 1 => some ⟨"a@x.org", key⟩
  | some 2 => some ⟨"b@x.org", key⟩
  | some 3 => some ⟨"c@x.org", key⟩
  | _ => none

def sampleCreate : Change :=
  .create ⟨1, "", "", some { sendMessages := true, inviteUsers := true }, [⟨"b@x.org"⟩], ""⟩

/-- The owner makes the second member an administrator who may add administrators, and
begins an epoch; the administrator adds a user and promotes the user. -/
def rolesChange (number : Nat) : Change :=
  if number = 1 then sampleCreate
  else if number = 2 then
    .setRole ⟨some ⟨"b@x.org"⟩, 2, some { inviteUsers := true, addAdmins := true }⟩
  else if number = 3 then .newEpoch ⟨1, sampleKey 9, []⟩
  else if number = 4 then .addMember ⟨some ⟨"c@x.org"⟩, []⟩
  else .setRole ⟨some ⟨"c@x.org"⟩, 2, some { inviteUsers := true }⟩

def rolesLibrary : Library := sampleLibrary rolesChange

/-- The state after the first entry. -/
def sampleStart (library : Library) : Option GroupState :=
  (applyWith library none (sampleEntry 1 1) sampleResolve none).toOption

/-- The state after the first entry and some more. -/
def sampleAfter (library : Library) (entries : List GroupStateEntry) :
    Option (List Label × GroupState) :=
  (sampleStart library).bind (replay library sampleResolve entries)

theorem created_sampleStart (started : sampleStart library = some state) :
    applyWith library none (sampleEntry 1 1) sampleResolve none = .ok state := by
  rw [sampleStart] at started
  cases created : applyWith library none (sampleEntry 1 1) sampleResolve none with
  | error error =>
      rw [created] at started
      cases started
  | ok found =>
      rw [created] at started
      cases started
      rfl

theorem reaches_sampleAfter {entries : List GroupStateEntry}
    (after : sampleAfter library entries = some (labels, state)) :
    Reaches library ⟨sampleBody 1, List.replicate 64 0, sampleKey 1⟩ labels state := by
  obtain ⟨start, startEq, accepted⟩ := Option.bind_eq_some_iff.1 after
  exact ⟨sampleEntry 1 1, sampleResolve, none, start, rfl, created_sampleStart startEq,
    run_replay accepted⟩

def rolesEntries : List GroupStateEntry := [sampleEntry 2 1, sampleEntry 3 1, sampleEntry 4 2]

theorem isSome_sampleAfter : (sampleAfter rolesLibrary rolesEntries).isSome = true := by
  decide +kernel

/-- The labels of these entries. -/
def rolesLabels : List Label :=
  ((sampleAfter rolesLibrary rolesEntries).get isSome_sampleAfter).1

/-- The state after these entries. -/
def rolesState : GroupState :=
  ((sampleAfter rolesLibrary rolesEntries).get isSome_sampleAfter).2

theorem sampleAfter_roles :
    sampleAfter rolesLibrary rolesEntries = some (rolesLabels, rolesState) := by
  rw [rolesLabels, rolesState, Prod.mk.eta, Option.some_get]

theorem group_invariant_sample :
    rolesState.epoch = 1 ∧ rolesState.hashes.length = rolesState.version :=
  ⟨by decide +kernel, (group_invariant rolesLibrary _ rolesLabels rolesState
    (reaches_sampleAfter sampleAfter_roles)).2.2.2.2.1⟩

/-- The administrator promotes the user. -/
theorem privilege_bound_sample :
    ∃ next, applyWith rolesLibrary (some rolesState) (sampleEntry 5 2) sampleResolve none =
        .ok next ∧
      rolesState.owner = "a@x.org" ∧ next.owner = rolesState.owner := by
  obtain ⟨next, accepted⟩ := exists_of_isOk (show (applyWith rolesLibrary (some rolesState)
    (sampleEntry 5 2) sampleResolve none).isOk = true by decide +kernel)
  obtain ⟨signed, read⟩ := exists_of_isOk (show (readEntry rolesLibrary (some rolesState)
    (sampleEntry 5 2) sampleResolve none).isOk = true by decide +kernel)
  have facts : (readEntry rolesLibrary (some rolesState) (sampleEntry 5 2) sampleResolve
      none).toOption.map (fun signed => (signed.signer.user, signed.change)) =
      some ("b@x.org", .setRole ⟨some ⟨"c@x.org"⟩, 2, some { inviteUsers := true }⟩) := by
    decide +kernel
  rw [read] at facts
  obtain ⟨user, change⟩ := Prod.mk.inj (Option.some.inj facts)
  have owner : rolesState.owner = "a@x.org" := by decide +kernel
  refine ⟨next, accepted, owner, ((privilege_bound rolesLibrary rolesState next _ _ _ signed read
    accepted).1 ?_ ?_).1⟩
  · intro rename isRename
    rw [isRename] at change
    cases change
  · rw [user, owner]
    decide

end Parvane.Group
