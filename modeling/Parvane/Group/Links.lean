import Parvane.Group.Invariants

/-!
# Invite links that were revoked

A revoked link that is remembered does not come back.  A group remembers a bounded number
of revoked links; the others are as if they had never been there.
-/

namespace Parvane.Group

open Wire Sign

variable {library : Library} {lookup : Option Lookup} {state next : GroupState}
  {signer : SignerInfo} {now : Int64} {change : Change} {id : Hash}

theorem Effect.keeps_revoked
    (effect : Effect library lookup state signer now change next)
    (isRevoked : id ∈ state.revokedLinks) : id ∈ next.revokedLinks := by
  cases effect with
  | inviteKeyRevoke other link found =>
      dsimp only
      split
      · exact Std.ExtTreeMap.mem_insert.2 (.inr isRevoked)
      · exact isRevoked
  | _ => exact isRevoked

/-- What a group remembers as revoked, it remembers for ever. -/
theorem revoked_of_run {labels : List Label}
    (run : Run (Accepts library) state labels next)
    (isRevoked : id ∈ state.revokedLinks) : id ∈ next.revokedLinks := by
  refine run_keeps (fun later => id ∈ later.revokedLinks) run ?_ isRevoked
  rintro before after _ label - ⟨changed, hash, versions, -, effect, rfl⟩ isRevoked
  exact effect.keeps_revoked isRevoked

/-- With room in the memory, a revoked link is remembered. -/
theorem Effect.remembers
    (effect : Effect library lookup state signer now (.inviteKeyRevoke id.bytes) next)
    (room : state.revokedLinks.size < maxRevokedLinks) : id ∈ next.revokedLinks := by
  generalize changeEq : Change.inviteKeyRevoke id.bytes = change at effect
  cases effect with
  | inviteKeyRevoke other link found =>
      cases FixedBytes.bytes_injective (Change.inviteKeyRevoke.inj changeEq)
      dsimp only
      rw [if_pos room]
      exact Std.ExtTreeMap.mem_insert_self
  | _ => cases changeEq

theorem Effect.not_announced {announce : GroupInviteKeyAnnounce}
    (effect : Effect library lookup state signer now (.inviteKey announce) next)
    (isRevoked : id ∈ state.revokedLinks) : linkId library announce.linkPublicKey ≠ id := by
  cases effect with
  | inviteKey announce link notActive notRevoked =>
      rintro rfl
      exact notRevoked isRevoked

theorem Effect.not_joined {join : JoinByInvite}
    (effect : Effect library lookup state signer now (.joinByInvite join) next)
    (notActive : id ∉ state.inviteLinks) (isLink : linkId library join.linkPublicKey = id) :
    isPublicLink state join.linkPublicKey = true := by
  cases effect with
  | joinPublic join isPublic isNew notBanned room => exact isPublic
  | joinLink join isActive isNew notBanned room =>
      rw [isLink] at isActive
      exact absurd isActive notActive

theorem invariant_of_reaches {genesis : SignedOp} {labels : List Label}
    (reaches : Reaches library genesis labels state) : Invariant state := by
  obtain ⟨entry, resolve, lookup, start, -, created, run⟩ := reaches
  simp only [applyWith, bind_eq_ok] at created
  obtain ⟨signed, -, created⟩ := created
  exact (applyGenesis_spec created).1.run run

/-- A link that was revoked while there was room to remember it is never in force again,
is not announced again, and is not joined by, except if it is the public link. -/
theorem revoked_link_stays
    (library : Library)
    (genesis : SignedOp)
    (before after : List Label)
    (earlier later state : GroupState)
    (revocation : Label)
    (id : Hash)
    (reaches : Reaches library genesis before earlier)
    (accepts : Accepts library earlier revocation later)
    (isRevocation : revocation.change = .inviteKeyRevoke id.bytes)
    (room : earlier.revokedLinks.size < maxRevokedLinks)
    (run : Run (Accepts library) later after state) :
    id ∉ state.inviteLinks ∧
      ∀ label next, Accepts library state label next ->
        (∀ announce, label.change = .inviteKey announce ->
          linkId library announce.linkPublicKey ≠ id) ∧
        ∀ join, label.change = .joinByInvite join -> linkId library join.linkPublicKey = id ->
          isPublicLink state join.linkPublicKey = true := by
  obtain ⟨lookup, step⟩ := accepts.step
  have invariant := (step.invariant (invariant_of_reaches reaches)).run run
  obtain ⟨changed, hash, versions, -, effect, rfl⟩ := step
  rw [isRevocation] at effect
  have isRevoked : id ∈ state.revokedLinks := revoked_of_run run (effect.remembers room)
  have notActive : id ∉ state.inviteLinks := fun isActive =>
    invariant.disjoint id isActive isRevoked
  refine ⟨notActive, fun label next continues => ?_⟩
  obtain ⟨_, _, _, _, -, continued, -⟩ := continues.step
  constructor
  · intro announce isAnnounce
    rw [isAnnounce] at continued
    exact continued.not_announced isRevoked
  · intro join isJoin isLink
    rw [isJoin] at continued
    exact continued.not_joined notActive isLink

/-! ## Samples -/

/-- The entry of the given number as the owner signed it. -/
def sampleSigned (change : Nat -> Change) (number : Nat) : Signed where
  group := sampleGroup
  op := ⟨sampleBody number, List.replicate 64 0, sampleKey 1⟩
  verified :=
    { header :=
        { domain := groupDomain, opType := groupOp, opId := List.replicate 16 112
          target := some sampleGroup
          audience := [], tsMs := 20000 * Int64.ofNat number }
      payload := sampleBody number
      signer := ⟨sampleKey 1, rfl⟩ }
  stateChange :=
    { group := some sampleGroup
      version := UInt64.ofNat number
      prevHash := samplePrevious number
      change := some (change number)
      signerLogVersion := 0
      signerAddress := ""
      floors := [] }
  signer := ⟨"a@x.org", ⟨sampleKey 1, rfl⟩⟩
  change := change number

theorem sampleNumber_sampleBody {number : Nat} (small : number < 65536) :
    sampleNumber (sampleBody number) = number := by
  simp only [sampleNumber, sampleBody, List.getD_cons_zero, List.getD_cons_succ,
    UInt8.toNat_ofNat']
  omega

theorem readEntry_sample {change : Nat -> Change} {number : Nat}
    (later : 1 < number) (small : number < 65536) (noVersions : state.signerVersions = ∅) :
    readEntry (sampleLibrary change) (some state) (sampleEntry number 1) sampleResolve none =
      .ok (sampleSigned change number) := by
  have groupOk : checkRef sampleGroup = .ok () := by decide +kernel
  have keyOk : verifyingKey (sampleLibrary change).toIdentity.toLibrary (sampleKey 1) =
      .ok ⟨sampleKey 1, rfl⟩ := rfl
  have nameOk : isValidName groupDomain = true ∧ isValidName groupOp = true := by decide +kernel
  have signatureOk : signature (List.replicate 64 0) = .ok ⟨List.replicate 64 0, rfl⟩ := rfl
  have idOk : isValidOpId (List.replicate 16 112) = true := by decide +kernel
  have decoded : (sampleLibrary change).decodeOpBody (sampleBody number) =
      .ok ⟨some (sampleSigned change number).verified.header, sampleBody number⟩ := by
    simp only [sampleLibrary, sampleNumber_sampleBody small, if_neg (Nat.ne_of_gt later),
      sampleSigned]
  have opOk : verifyOp (sampleLibrary change).toIdentity.toLibrary
      ⟨sampleBody number, List.replicate 64 0, sampleKey 1⟩ groupDomain groupOp
      (some ⟨sampleKey 1, rfl⟩) = .ok (sampleSigned change number).verified := by
    simp only [verifyOp, keyOk, signatureOk, opSigningBytes, nameOk, decoded, require, bind,
      Except.bind, Option.all_some, beq_self_eq_true, if_true, pure, Except.pure]
    simp only [sampleLibrary, sampleSigned, present, idOk, groupOk, beq_self_eq_true,
      Bool.and_self, if_true]
    rfl
  have payload : (sampleLibrary change).decodeStateChange (sampleBody number) =
      .ok (sampleSigned change number).stateChange := by
    simp only [sampleLibrary, sampleNumber_sampleBody small, if_neg (Nat.ne_of_gt later),
      sampleSigned]
  simp only [readEntry, sampleEntry, present, groupOk, keyOk, opOk, bind, Except.bind, pure,
    Except.pure]
  rw [show (sampleSigned change number).verified.payload = sampleBody number from rfl, payload]
  simp [sampleSigned, sampleResolve, sampleKey, require, noVersions, List.replicate_succ]

/-- The owner can write the entry of the given number next. -/
structure Expects (number : Nat) (state : GroupState) : Prop where
  version : state.version + 1 = number
  head : state.headHash.bytes = samplePrevious number
  group : state.group = sampleGroup
  notDeleted : state.deleted = false
  isOwner : state.isOwner "a@x.org" = true
  noVersions : state.signerVersions = ∅

/-- The state after a change by the entry of the given number. -/
def samplePlace (changed : GroupState) (number : Nat) : GroupState :=
  changed.place number (sampleHash (groupEntryHashContext ++ sampleBody number ++
    List.replicate 64 0)) ∅

theorem Expects.accepts {change : Nat -> Change} {number : Nat} {changed : GroupState}
    (expects : Expects number state) (later : 1 < number) (small : number < 65536)
    (applied : applyChange (sampleLibrary change) state (sampleEntry number 1)
      (sampleSigned change number) none = .ok changed)
    (noVersions : changed.signerVersions = ∅) :
    Accepts (sampleLibrary change) state (sampleSigned change number).label
      (samplePlace changed number) := by
  have read : readEntry (sampleLibrary change) (some state) (sampleEntry number 1) sampleResolve
      none = .ok (sampleSigned change number) :=
    readEntry_sample later small expects.noVersions
  have toNat : (UInt64.ofNat number).toNat = number := by
    rw [UInt64.toNat_ofNat']
    omega
  have placed : checkPlace state (sampleEntry number 1) (sampleSigned change number) = .ok () := by
    simp [checkPlace, require, expects.notDeleted, sampleEntry, toNat, expects.version, expects.head,
      expects.group, sampleSigned, VerifiedOp.requireTarget, bind, Except.bind]
  have floors : raiseFloors state changed (sampleSigned change number) = ∅ := by
    simp [raiseFloors, sampleSigned, noVersions]
  refine ⟨sampleEntry number 1, sampleResolve, none, _, read, ?_, rfl⟩
  simp only [applyWith, read, placed, applied, bind, Except.bind, pure, Except.pure, floors]
  simp only [sampleEntry, toNat]
  rfl

theorem Expects.place {number : Nat} {changed : GroupState}
    (expects : Expects number state) (later : 1 < number) (group : changed.group = state.group)
    (deleted : changed.deleted = state.deleted) (owner : changed.owner = state.owner)
    (members : changed.members = state.members) :
    Expects (number + 1) (samplePlace changed number) := by
  refine ⟨rfl, ?_, group.trans expects.group, deleted.trans expects.notDeleted, ?_, rfl⟩
  · rw [samplePrevious, if_neg (by omega)]
    simp [samplePlace, GroupState.place, GroupState.headHash]
  · have isOwner := expects.isOwner
    simp only [GroupState.isOwner] at isOwner
    simp only [GroupState.isOwner, samplePlace, GroupState.place, owner, members, isOwner]

def linkKey (number : Nat) : Bytes := sampleBody number ++ List.replicate 30 0

def linkHash (number : Nat) : Hash := ⟨linkKey number, rfl⟩

theorem linkId_sample (change : Nat -> Change) (number : Nat) :
    linkId (sampleLibrary change) (linkKey number) = linkHash number := by
  apply FixedBytes.bytes_injective
  exact List.take_left' rfl

def linkAnnounce (number : Nat) : GroupInviteKeyAnnounce := ⟨linkKey number, 0, 0, false, ""⟩

theorem Expects.announce {change : Nat -> Change} {number link : Nat}
    (expects : Expects number state)
    (isAnnounce : change number = .inviteKey (linkAnnounce link))
    (notActive : linkHash link ∉ state.inviteLinks)
    (notRevoked : linkHash link ∉ state.revokedLinks) :
    ∃ found, applyChange (sampleLibrary change) state (sampleEntry number 1)
        (sampleSigned change number) none =
      .ok { state with inviteLinks := state.inviteLinks.insert (linkHash link) found } := by
  have active : (!state.inviteLinks.contains (linkHash link)) = true :=
    (not_contains_links _ _).2 notActive
  have revoked : (!state.revokedLinks.contains (linkHash link)) = true :=
    (not_contains_links _ _).2 notRevoked
  refine ⟨⟨linkAnnounce link, "a@x.org", 0, 20000 * Int64.ofNat number, []⟩, ?_⟩
  simp only [applyChange, sampleSigned, isAnnounce, inviteKey, linkAnnounce, linkId_sample,
    GroupState.adminCan, expects.isOwner, active, revoked]
  rfl

theorem Expects.revoke {change : Nat -> Change} {number link : Nat} {found : InviteLink}
    (expects : Expects number state)
    (isRevoke : change number = .inviteKeyRevoke (linkKey link))
    (isActive : state.inviteLinks[linkHash link]? = some found) :
    applyChange (sampleLibrary change) state (sampleEntry number 1)
        (sampleSigned change number) none =
      .ok
        { state with
          inviteLinks := state.inviteLinks.erase (linkHash link)
          revokedLinks :=
            if state.revokedLinks.size < maxRevokedLinks then
              state.revokedLinks.insert (linkHash link) found
            else state.revokedLinks } := by
  have hashOk : hash32 (linkKey link) "link_id" = .ok (linkHash link) := hash32_eq_ok.2 rfl
  simp only [applyChange, sampleSigned, isRevoke, inviteKeyRevoke, hashOk, isActive, mayManage,
    GroupState.adminCan, expects.isOwner, present, bind, Except.bind, pure, Except.pure, require,
    Bool.true_or, if_true]

theorem linkHash_injective {first second : Nat}
    (firstSmall : first < 65536) (secondSmall : second < 65536)
    (same : linkHash first = linkHash second) : first = second := by
  have bodies : sampleBody first = sampleBody second :=
    List.append_cancel_right (congrArg FixedBytes.bytes same)
  rw [← sampleNumber_sampleBody firstSmall, ← sampleNumber_sampleBody secondSmall, bodies]

/-- Links are announced and revoked, one after the other. -/
def linksChange (number : Nat) : Change :=
  if number = 1 then sampleCreate
  else if number = 404 then .inviteKey (linkAnnounce 201)
  else if number % 2 = 0 then .inviteKey (linkAnnounce (number / 2))
  else .inviteKeyRevoke (linkKey (number / 2))

def linksLibrary : Library := sampleLibrary linksChange

theorem linksChange_announce {count : Nat} (few : count ≤ 200) :
    linksChange (2 * count + 2) = .inviteKey (linkAnnounce (count + 1)) := by
  have half : (2 * count + 2) / 2 = count + 1 := by omega
  rw [linksChange, if_neg (by omega), if_neg (by omega), if_pos (by omega), half]

theorem linksChange_revoke (count : Nat) :
    linksChange (2 * count + 3) = .inviteKeyRevoke (linkKey (count + 1)) := by
  have half : (2 * count + 3) / 2 = count + 1 := by omega
  rw [linksChange, if_neg (by omega), if_neg (by omega), if_neg (by omega), half]

/-- So many links were announced and revoked. -/
structure Revoked (count : Nat) (state : GroupState) : Prop where
  expects : Expects (2 * count + 2) state
  size : state.revokedLinks.size = count
  fresh : ∀ number, count < number -> number < 65536 ->
    linkHash number ∉ state.inviteLinks ∧ linkHash number ∉ state.revokedLinks

/-- The next link is announced and revoked. -/
theorem Revoked.pair {count : Nat}
    (revoked : Revoked count state) (few : count ≤ 200) :
    ∃ middle found, Accepts linksLibrary state (sampleSigned linksChange (2 * count + 2)).label
        middle ∧
      middle.revokedLinks = state.revokedLinks ∧
      middle.inviteLinks = state.inviteLinks.insert (linkHash (count + 1)) found ∧
      Expects (2 * count + 3) middle ∧
      ∃ next, Accepts linksLibrary middle (sampleSigned linksChange (2 * count + 3)).label next ∧
        next.inviteLinks = middle.inviteLinks.erase (linkHash (count + 1)) ∧
        next.revokedLinks =
          (if state.revokedLinks.size < maxRevokedLinks then
            state.revokedLinks.insert (linkHash (count + 1)) found
          else state.revokedLinks) ∧
        Expects (2 * count + 4) next := by
  obtain ⟨notActive, notRevoked⟩ := revoked.fresh (count + 1) (by omega) (by omega)
  obtain ⟨found, announced⟩ := revoked.expects.announce (linksChange_announce few) notActive
    notRevoked
  refine ⟨_, found, revoked.expects.accepts (by omega) (by omega) announced
    revoked.expects.noVersions, rfl, rfl, revoked.expects.place (by omega) rfl rfl rfl rfl, ?_⟩
  have expects : Expects (2 * count + 3) (samplePlace
      { state with inviteLinks := state.inviteLinks.insert (linkHash (count + 1)) found }
      (2 * count + 2)) :=
    revoked.expects.place (by omega) rfl rfl rfl rfl
  have revokes := expects.revoke (linksChange_revoke count) (Std.ExtTreeMap.getElem?_insert_self)
  exact ⟨_, expects.accepts (by omega) (by omega) revokes rfl, rfl, rfl,
    expects.place (by omega) rfl rfl rfl rfl⟩

/-- With room in the memory, the revoked link is remembered. -/
theorem Revoked.succ {count : Nat}
    (revoked : Revoked count state) (room : count < 200) :
    ∃ labels next, Run (Accepts linksLibrary) state labels next ∧ Revoked (count + 1) next := by
  obtain ⟨middle, found, first, -, active, -, next, second, erased, remembered, expects⟩ :=
    revoked.pair (by omega)
  obtain ⟨-, notRevoked⟩ := revoked.fresh (count + 1) (by omega) (by omega)
  rw [if_pos (show state.revokedLinks.size < maxRevokedLinks by rw [revoked.size]; exact room)]
    at remembered
  refine ⟨_, next, .cons first (.cons second (.nil next)), expects, ?_, ?_⟩
  · rw [remembered, Std.ExtTreeMap.size_insert, revoked.size,
      if_neg (mt Std.ExtTreeMap.contains_iff_mem.1 notRevoked)]
  · intro number larger small
    obtain ⟨numberNotActive, numberNotRevoked⟩ := revoked.fresh number (by omega) small
    have different : linkHash (count + 1) ≠ linkHash number := fun same => by
      have := linkHash_injective (by omega) small same
      omega
    rw [erased, active, remembered]
    constructor
    · intro member
      rcases Std.ExtTreeMap.mem_insert.1 (Std.ExtTreeMap.mem_of_mem_erase member) with same | member
      · exact different (compare_eq_iff_eq.1 same)
      · exact numberNotActive member
    · intro member
      rcases Std.ExtTreeMap.mem_insert.1 member with same | member
      · exact different (compare_eq_iff_eq.1 same)
      · exact numberNotRevoked member

theorem isSome_linksStart : (sampleStart linksLibrary).isSome = true := by decide +kernel

def linksStart : GroupState := (sampleStart linksLibrary).get isSome_linksStart

theorem linksStart_eq : sampleStart linksLibrary = some linksStart := by
  rw [linksStart, Option.some_get]

theorem revoked_linksStart : Revoked 0 linksStart := by
  have noVersions : linksStart.signerVersions = ∅ :=
    Std.ExtTreeMap.eq_empty_iff_size_eq_zero.2 (by decide +kernel)
  have noLinks : linksStart.inviteLinks = ∅ :=
    Std.ExtTreeMap.eq_empty_iff_size_eq_zero.2 (by decide +kernel)
  have noneRevoked : linksStart.revokedLinks = ∅ :=
    Std.ExtTreeMap.eq_empty_iff_size_eq_zero.2 (by decide +kernel)
  refine ⟨⟨by decide +kernel, by decide +kernel, by decide +kernel, by decide +kernel,
    by decide +kernel, noVersions⟩, by decide +kernel, fun number _ _ => ?_⟩
  simp [noLinks, noneRevoked]

/-- Any number of links up to the bound can be announced and revoked. -/
theorem exists_revoked (count : Nat) (few : count ≤ 200) :
    ∃ labels state, Run (Accepts linksLibrary) linksStart labels state ∧ Revoked count state := by
  induction count with
  | zero => exact ⟨[], linksStart, .nil linksStart, revoked_linksStart⟩
  | succ count inductionHypothesis =>
      obtain ⟨before, state, run, revoked⟩ := inductionHypothesis (by omega)
      obtain ⟨labels, next, more, nextRevoked⟩ := revoked.succ (by omega)
      exact ⟨before ++ labels, next, run.append more, nextRevoked⟩

theorem reaches_of_run {labels : List Label}
    (run : Run (Accepts linksLibrary) linksStart labels state) :
    Reaches linksLibrary ⟨sampleBody 1, List.replicate 64 0, sampleKey 1⟩ labels state :=
  ⟨sampleEntry 1 1, sampleResolve, none, linksStart, rfl, created_sampleStart linksStart_eq,
    run⟩

theorem revoked_link_stays_sample :
    ∃ labels state, Reaches linksLibrary ⟨sampleBody 1, List.replicate 64 0, sampleKey 1⟩ labels
        state ∧
      ∃ next, Accepts linksLibrary state (sampleSigned linksChange 3).label next ∧
        linkHash 1 ∉ next.inviteLinks := by
  obtain ⟨middle, found, first, same, active, -, next, second, -⟩ :=
    revoked_linksStart.pair (by omega)
  have reaches := reaches_of_run (.cons first (.nil middle))
  refine ⟨_, middle, reaches, next, second, ?_⟩
  refine (revoked_link_stays linksLibrary _ _ [] middle next next _ (linkHash 1) reaches second rfl
    ?_ (.nil next)).1
  rw [same, revoked_linksStart.size]
  decide

/-- The key of the public link is also announced as an ordinary link, which is then
revoked; the third user joins by the public link. -/
def publicChange (number : Nat) : Change :=
  if number = 1 then sampleCreate
  else if number = 2 then .setPublic ⟨true, "group", sampleKey 5, false, false⟩
  else if number = 3 then .inviteKey ⟨sampleKey 5, 0, 0, false, ""⟩
  else if number = 4 then .inviteKeyRevoke (sampleKey 5)
  else .joinByInvite ⟨sampleKey 5, sampleKey 3, List.replicate 64 0⟩

def publicLibrary : Library := sampleLibrary publicChange

def publicEntries : List GroupStateEntry :=
  [sampleEntry 2 1, sampleEntry 3 1, sampleEntry 4 1, sampleEntry 5 3]

/-- The two hundred and first link is revoked, forgotten and announced again; and a link
with the key of the public one is joined by after it was revoked. -/
theorem revoked_link_returns :
    (∃ labels state, Reaches linksLibrary ⟨sampleBody 1, List.replicate 64 0, sampleKey 1⟩ labels
        state ∧
      ∃ next, Accepts linksLibrary state (sampleSigned linksChange 403).label next ∧
        (sampleSigned linksChange 403).label.change = .inviteKeyRevoke (linkHash 201).bytes ∧
        ∃ final, Accepts linksLibrary next (sampleSigned linksChange 404).label final ∧
          (sampleSigned linksChange 404).label.change = .inviteKey (linkAnnounce 201) ∧
          linkId linksLibrary (linkAnnounce 201).linkPublicKey = linkHash 201 ∧
          linkHash 201 ∈ final.inviteLinks) ∧
      (sampleAfter publicLibrary publicEntries).map (fun found => found.1.map Label.change) =
          some [publicChange 2, publicChange 3, publicChange 4, publicChange 5] ∧
        publicChange 4 = .inviteKeyRevoke (linkId publicLibrary (sampleKey 5)).bytes ∧
        publicChange 5 = .joinByInvite ⟨sampleKey 5, sampleKey 3, List.replicate 64 0⟩ := by
  refine ⟨?_, by decide +kernel, by decide +kernel, rfl⟩
  obtain ⟨labels, state, run, revoked⟩ := exists_revoked 200 le_rfl
  obtain ⟨middle, found, first, same, active, -, next, second, erased, kept, expects⟩ :=
    revoked.pair le_rfl
  rw [if_neg (by rw [revoked.size]; decide)] at kept
  have isAnnounce : linksChange 404 = .inviteKey (linkAnnounce 201) := rfl
  have notActive : linkHash 201 ∉ next.inviteLinks := by
    rw [erased]
    simp
  have notRevoked : linkHash 201 ∉ next.revokedLinks := by
    rw [kept]
    exact (revoked.fresh 201 (by omega) (by omega)).2
  obtain ⟨link, announced⟩ := expects.announce isAnnounce notActive notRevoked
  refine ⟨_, middle, reaches_of_run (run.append (.cons first (.nil middle))), next, second, rfl, _,
    expects.accepts (by omega) (by omega) announced expects.noVersions, rfl,
    linkId_sample linksChange 201, ?_⟩
  exact Std.ExtTreeMap.mem_insert_self

end Parvane.Group
