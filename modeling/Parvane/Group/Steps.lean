import Parvane.Group.State
import Parvane.Foundation.Run

/-!
# What an entry of a group log does

One case for each change, with what was checked before it.
-/

namespace Parvane.Group

open Wire Sign

/-- The actor may give the role and the rights to a member. -/
def MayRank
    (state : GroupState) (actor : String) (target : Member) (role : Role)
    (rights : AdminRights) : Prop :=
  state.owner = actor ∨
    target.role = .member ∧ role = .admin ∧
      ∃ own, state.members[actor]? = some own ∧ rightsSubset rights own.rights = true

/-- What a change does to the state, apart from its place in the log. -/
inductive Effect
    (library : Library) (lookup : Option Lookup) (state : GroupState) (signer : SignerInfo)
    (now : Int64) : Change -> GroupState -> Prop
  | addMember
      (change : AddMember)
      (member : String)
      (inviteLinks : Std.ExtTreeMap Hash InviteLink)
      (isNew : member ∉ state.members)
      (notBanned : member ∉ state.banned)
      (room : state.members.size < maxMembers)
      (sameLinks : ∀ id, id ∈ inviteLinks ↔ id ∈ state.inviteLinks) :
      Effect library lookup state signer now (.addMember change)
        { state with
          inviteLinks := inviteLinks
          members := state.members.insert member newMember
          epochStale := true }
  | removeMember
      (user : Option UserRef)
      (member : String)
      (target : Member)
      (found : state.members[member]? = some target)
      (allowed : state.owner = signer.user ∨ target.role = .member)
      (notOwner : member ≠ state.owner) :
      Effect library lookup state signer now (.removeMember user)
        { state with members := state.members.erase member, epochStale := true }
  | setOwner
      (change : SetRole)
      (member : String)
      (isMember : member ∈ state.members)
      (isOwner : state.owner = signer.user)
      (other : member ≠ signer.user) :
      Effect library lookup state signer now (.setRole change)
        { state with
          members :=
            (state.members.modify signer.user fun previous =>
                { previous with role := .admin, rights := fullRights }).modify
              member fun target => { target with role := .owner, rights := fullRights }
          owner := member }
  | setRank
      (change : SetRole)
      (member : String)
      (target : Member)
      (role : Role)
      (rights : AdminRights)
      (found : state.members[member]? = some target)
      (notOwner : member ≠ state.owner)
      (rank : role = .admin ∨ role = .member)
      (allowed : MayRank state signer.user target role rights) :
      Effect library lookup state signer now (.setRole change)
        { state with
          members := state.members.modify member fun target =>
            { target with role := role, rights := if role = .admin then rights else {} }
          epochStale := state.epochStale || (target.role == .admin && role == .member) }
  | ban
      (user : Option UserRef)
      (member : String)
      (allowed : state.owner = signer.user ∨
        ∀ target, state.members[member]? = some target -> target.role = .member)
      (notOwner : member ≠ state.owner) :
      Effect library lookup state signer now (.ban user)
        { state with
          members := state.members.erase member
          banned := state.banned.insert member
          epochStale := true }
  | unban
      (user : Option UserRef)
      (member : String) :
      Effect library lookup state signer now (.unban user)
        { state with banned := state.banned.erase member }
  | mute
      (change : Mute)
      (member : String)
      (target : Member)
      (found : state.members[member]? = some target)
      (allowed : state.owner = signer.user ∨ target.role = .member)
      (notOwner : member ≠ state.owner) :
      Effect library lookup state signer now (.mute change)
        { state with
          members := state.members.modify member fun target =>
            { target with mutedUntilMs := max change.untilMs 0 }
          epochStale := true }
  | setInfo
      (change : SetInfo) :
      Effect library lookup state signer now (.setInfo change)
        { state with
          name := change.name
          about := change.about
          avatarFileId := change.avatarFileId
          avatarKey := change.avatarKey }
  | setPrivacyMode
      (l2 : Bool) :
      Effect library lookup state signer now (.setPrivacyMode l2)
        { state with l2 := l2, l2By := signer.user }
  | setPublic
      (change : SetPublic)
      (isPublic : Option PublicInfo)
      (epochStale : Bool)
      (stays : state.epochStale = true -> epochStale = true) :
      Effect library lookup state signer now (.setPublic change)
        { state with isPublic := isPublic, epochStale := epochStale }
  | setPermissions
      (permissions : Option Permissions) :
      Effect library lookup state signer now (.setPermissions permissions)
        { state with defaultPermissions := permissions.getD {}, epochStale := true }
  | newEpoch
      (change : NewEpoch)
      (key : Hash)
      (bundles : Std.ExtTreeMap Nat Bytes) :
      Effect library lookup state signer now (.newEpoch change)
        { state with
          epoch := state.epoch + 1
          sendPublicKey := some key
          publicBundles := bundles
          lastEpochMs := now
          epochStale := false }
  | inviteKey
      (announce : GroupInviteKeyAnnounce)
      (link : InviteLink)
      (notActive : linkId library announce.linkPublicKey ∉ state.inviteLinks)
      (notRevoked : linkId library announce.linkPublicKey ∉ state.revokedLinks) :
      Effect library lookup state signer now (.inviteKey announce)
        { state with
          inviteLinks :=
            state.inviteLinks.insert (linkId library announce.linkPublicKey) link }
  | inviteKeyRevoke
      (id : Hash)
      (link : InviteLink)
      (found : state.inviteLinks[id]? = some link) :
      Effect library lookup state signer now (.inviteKeyRevoke id.bytes)
        { state with
          inviteLinks := state.inviteLinks.erase id
          revokedLinks :=
            if state.revokedLinks.size < maxRevokedLinks then state.revokedLinks.insert id link
            else state.revokedLinks }
  | renameMember
      (op : SignedOp)
      (old : String)
      (member : Member)
      (verified : Identity.verifyRenameOp library.toIdentity op signer.user =
        .ok (old, signer.rootKey))
      (sameRoot : (lookup.bind fun known => known.rootOf old) = some signer.rootKey)
      (isNew : signer.user ∉ state.members)
      (notBanned : signer.user ∉ state.banned)
      (found : state.members[old]? = some member) :
      Effect library lookup state signer now (.renameMember (some op))
        { state with
          members := (state.members.erase old).insert signer.user member
          owner := if state.owner = old then signer.user else state.owner
          inviteLinks := state.inviteLinks.map fun _ link =>
            if link.creator = old then { link with creator := signer.user } else link }
  | inviteEdit
      (change : InviteEdit)
      (id : Hash)
      (edit : InviteLink -> InviteLink) :
      Effect library lookup state signer now (.inviteEdit change)
        { state with inviteLinks := state.inviteLinks.modify id edit }
  | joinPublic
      (change : JoinByInvite)
      (isPublic : isPublicLink state change.linkPublicKey = true)
      (isNew : signer.user ∉ state.members)
      (notBanned : signer.user ∉ state.banned)
      (room : state.members.size < maxMembers) :
      Effect library lookup state signer now (.joinByInvite change)
        { state with members := state.members.insert signer.user newMember }
  | joinLink
      (change : JoinByInvite)
      (isLink : linkId library change.linkPublicKey ∈ state.inviteLinks)
      (isNew : signer.user ∉ state.members)
      (notBanned : signer.user ∉ state.banned)
      (room : state.members.size < maxMembers) :
      Effect library lookup state signer now (.joinByInvite change)
        { state with
          inviteLinks := state.inviteLinks.modify (linkId library change.linkPublicKey) fun link =>
            link.noteJoin signer.user now
          members := state.members.insert signer.user newMember
          epochStale := true }
  | leave
      (isMember : signer.user ∈ state.members)
      (notOwner : signer.user ≠ state.owner) :
      Effect library lookup state signer now .leave
        { state with members := state.members.erase signer.user, epochStale := true }
  | deleteGroup
      (isOwner : state.owner = signer.user) :
      Effect library lookup state signer now .deleteGroup { state with deleted := true }

/-! ## Each change -/

section

variable {library : Library} {lookup : Option Lookup} {state next : GroupState}
  {signer : SignerInfo} {now : Int64}

theorem owner_of_isOwner {user : String} (isOwner : state.isOwner user = true) :
    state.owner = user := by
  rw [GroupState.isOwner, Bool.and_eq_true, beq_iff_eq] at isOwner
  exact isOwner.1

theorem hash32_eq_ok {bytes : Bytes} {field : String} {hash : Hash} :
    hash32 bytes field = .ok hash ↔ hash.bytes = bytes := by
  rw [hash32, present_eq_ok, FixedBytes.ofBytes?]
  constructor
  · intro found
    split at found
    · cases found
      rfl
    · cases found
  · rintro rfl
    rw [dif_pos hash.length_eq]

theorem mayRestrict_spec {actor : String} {target : Option Member}
    (allowed : mayRestrict state actor target = true) :
    state.owner = actor ∨ ∀ member ∈ target, member.role = .member := by
  rw [mayRestrict, Bool.or_eq_true, Bool.and_eq_true] at allowed
  rcases allowed with isOwner | ⟨-, isMember⟩
  · exact .inl (owner_of_isOwner isOwner)
  · refine .inr fun member isTarget => ?_
    cases isTarget
    simpa using isMember

theorem mem_countRequest {member : String} {adminInvites : Bool} {viaLinkId : Bytes}
    {links : Std.ExtTreeMap Hash InviteLink}
    (counted : countRequest state now member adminInvites viaLinkId = .ok links)
    (id : Hash) : id ∈ links ↔ id ∈ state.inviteLinks := by
  rw [countRequest] at counted
  split at counted
  · cases counted
    rfl
  · simp only [bind_eq_ok, pure, Except.pure, Except.ok.injEq] at counted
    obtain ⟨link, -, rfl⟩ := counted
    exact Std.ExtTreeMap.mem_modify

@[simp] theorem not_contains_map {value : Type} (map : Std.ExtTreeMap String value) (key : String) :
    (!map.contains key) = true ↔ key ∉ map := by
  rw [Bool.not_eq_true', ← Bool.not_eq_true, Std.ExtTreeMap.contains_iff_mem]

@[simp] theorem not_contains_links (map : Std.ExtTreeMap Hash InviteLink) (key : Hash) :
    (!map.contains key) = true ↔ key ∉ map := by
  rw [Bool.not_eq_true', ← Bool.not_eq_true, Std.ExtTreeMap.contains_iff_mem]

@[simp] theorem not_contains_set (set : Std.ExtTreeSet String) (key : String) :
    (!set.contains key) = true ↔ key ∉ set := by
  rw [Bool.not_eq_true', ← Bool.not_eq_true, Std.ExtTreeSet.contains_iff_mem]

theorem addMember_effect {change : AddMember}
    (applied : addMember state signer.user now change = .ok next) :
    Effect library lookup state signer now (.addMember change) next := by
  simp only [addMember, bind_eq_ok, require_eq_ok, Bool.and_eq_true, not_contains_map,
    not_contains_set, decide_eq_true_eq, pure, Except.pure, Except.ok.injEq] at applied
  obtain ⟨member, -, _, ⟨⟨-, isNew⟩, notBanned⟩, _, room, links, counted, rfl⟩ := applied
  exact .addMember change member links isNew notBanned room (mem_countRequest counted)

theorem removeMember_effect {user : Option UserRef}
    (applied : removeMember state signer.user user = .ok next) :
    Effect library lookup state signer now (.removeMember user) next := by
  simp only [removeMember, bind_eq_ok, require_eq_ok, present_eq_ok, Bool.and_eq_true, bne_iff_ne,
    pure, Except.pure, Except.ok.injEq] at applied
  obtain ⟨member, -, target, found, _, ⟨allowed, notOwner⟩, rfl⟩ := applied
  exact .removeMember user member target found ((mayRestrict_spec allowed).imp_right
    fun isMember => isMember target rfl) notOwner

theorem setRank_effect
    {change : SetRole} {member : String} {target : Member} {role : Role} {rights : AdminRights}
    (found : state.members[member]? = some target)
    (rank : role = .admin ∨ role = .member)
    (applied : setRank state signer.user member target role rights = .ok next) :
    Effect library lookup state signer now (.setRole change) next := by
  simp only [setRank, bind_eq_ok, require_eq_ok, Bool.or_eq_true, Bool.and_eq_true, beq_iff_eq,
    bne_iff_ne, pure, Except.pure, Except.ok.injEq] at applied
  obtain ⟨_, notOwner, _, allowed, rfl⟩ := applied
  refine .setRank change member target role rights found notOwner rank ?_
  rcases allowed with isOwner | ⟨⟨⟨canAdd, isMember⟩, toAdmin⟩, subset⟩
  · exact .inl (owner_of_isOwner isOwner)
  · rw [GroupState.adminCan, Bool.or_eq_true] at canAdd
    rcases canAdd with isOwner | isAdmin
    · exact .inl (owner_of_isOwner isOwner)
    · rw [Option.any_eq_true] at isAdmin
      obtain ⟨own, ownFound, -⟩ := isAdmin
      refine .inr ⟨isMember, toAdmin, own, ownFound, ?_⟩
      simpa [ownFound] using subset

theorem setRole_effect {change : SetRole}
    (applied : setRole state signer.user change = .ok next) :
    Effect library lookup state signer now (.setRole change) next := by
  simp only [setRole, bind_eq_ok, present_eq_ok] at applied
  obtain ⟨member, -, target, found, applied⟩ := applied
  split at applied
  · simp only [setOwner, bind_eq_ok, require_eq_ok, Bool.and_eq_true, bne_iff_ne, pure,
      Except.pure, Except.ok.injEq] at applied
    obtain ⟨_, ⟨isOwner, other⟩, rfl⟩ := applied
    refine .setOwner change member ?_ (owner_of_isOwner isOwner) other
    exact Std.ExtTreeMap.mem_iff_isSome_getElem?.2 (by rw [found]; rfl)
  · exact setRank_effect found (.inl rfl) applied
  · exact setRank_effect found (.inr rfl) applied
  · cases applied

theorem ban_effect {user : Option UserRef}
    (applied : ban state signer.user user = .ok next) :
    Effect library lookup state signer now (.ban user) next := by
  simp only [ban, bind_eq_ok, require_eq_ok, Bool.and_eq_true, bne_iff_ne, pure, Except.pure,
    Except.ok.injEq] at applied
  obtain ⟨member, -, _, ⟨allowed, notOwner⟩, rfl⟩ := applied
  exact .ban user member (mayRestrict_spec allowed) notOwner

theorem unban_effect {user : Option UserRef}
    (applied : unban state signer.user user = .ok next) :
    Effect library lookup state signer now (.unban user) next := by
  simp only [unban, bind_eq_ok, pure, Except.pure, Except.ok.injEq] at applied
  obtain ⟨member, -, _, -, rfl⟩ := applied
  exact .unban user member

theorem mute_effect {change : Mute}
    (applied : mute state signer.user change = .ok next) :
    Effect library lookup state signer now (.mute change) next := by
  simp only [mute, bind_eq_ok, require_eq_ok, present_eq_ok, Bool.and_eq_true, bne_iff_ne, pure,
    Except.pure, Except.ok.injEq] at applied
  obtain ⟨member, -, target, found, _, ⟨allowed, notOwner⟩, rfl⟩ := applied
  exact .mute change member target found ((mayRestrict_spec allowed).imp_right
    fun isMember => isMember target rfl) notOwner

theorem setInfo_effect {change : SetInfo}
    (applied : setInfo state signer.user change = .ok next) :
    Effect library lookup state signer now (.setInfo change) next := by
  simp only [setInfo, bind_eq_ok, pure, Except.pure, Except.ok.injEq] at applied
  obtain ⟨_, -, _, -, rfl⟩ := applied
  exact .setInfo change

theorem setPrivacyMode_effect {l2 : Bool}
    (applied : setPrivacyMode state signer.user l2 = .ok next) :
    Effect library lookup state signer now (.setPrivacyMode l2) next := by
  simp only [setPrivacyMode, bind_eq_ok, pure, Except.pure, Except.ok.injEq] at applied
  obtain ⟨_, -, rfl⟩ := applied
  exact .setPrivacyMode l2

theorem setPublic_effect {change : SetPublic}
    (applied : setPublic library state signer.user change = .ok next) :
    Effect library lookup state signer now (.setPublic change) next := by
  simp only [setPublic, bind_eq_ok] at applied
  obtain ⟨_, -, applied⟩ := applied
  split at applied
  · simp only [bind_eq_ok, pure, Except.pure, Except.ok.injEq] at applied
    obtain ⟨name, -, secret, -, rfl⟩ := applied
    exact .setPublic change _ _ fun isStale => by rw [isStale, Bool.true_or]
  · simp only [bind_eq_ok, pure, Except.pure, Except.ok.injEq] at applied
    obtain ⟨_, -, rfl⟩ := applied
    exact .setPublic change none true fun _ => rfl

theorem setPermissions_effect {permissions : Option Permissions}
    (applied : setPermissions state signer.user permissions = .ok next) :
    Effect library lookup state signer now (.setPermissions permissions) next := by
  simp only [setPermissions, bind_eq_ok, pure, Except.pure, Except.ok.injEq] at applied
  obtain ⟨_, -, rfl⟩ := applied
  exact .setPermissions permissions

theorem newEpoch_effect {change : NewEpoch}
    (applied : newEpoch state signer.user now change = .ok next) :
    Effect library lookup state signer now (.newEpoch change) next := by
  simp only [newEpoch, bind_eq_ok, require_eq_ok, beq_iff_eq, pure, Except.pure,
    Except.ok.injEq] at applied
  obtain ⟨_, -, _, isNext, _, -, key, -, rfl⟩ := applied
  rw [isNext]
  exact .newEpoch change key _

theorem inviteKey_effect {announce : GroupInviteKeyAnnounce}
    (applied : inviteKey library state signer.user now announce = .ok next) :
    Effect library lookup state signer now (.inviteKey announce) next := by
  simp only [inviteKey, bind_eq_ok, require_eq_ok, Bool.and_eq_true, not_contains_links, pure,
    Except.pure, Except.ok.injEq] at applied
  obtain ⟨_, -, _, ⟨notActive, notRevoked⟩, rfl⟩ := applied
  exact .inviteKey announce _ notActive notRevoked

theorem inviteKeyRevoke_effect {bytes : Bytes}
    (applied : inviteKeyRevoke state signer.user bytes = .ok next) :
    Effect library lookup state signer now (.inviteKeyRevoke bytes) next := by
  simp only [inviteKeyRevoke, bind_eq_ok, hash32_eq_ok, present_eq_ok, pure, Except.pure,
    Except.ok.injEq] at applied
  obtain ⟨id, rfl, link, found, _, -, rfl⟩ := applied
  exact .inviteKeyRevoke id link found

theorem renameMember_effect {rename : Option SignedOp}
    (applied : renameMember library state signer lookup rename = .ok next) :
    Effect library lookup state signer now (.renameMember rename) next := by
  simp only [renameMember, bind_eq_ok, present_eq_ok, require_eq_ok, Bool.and_eq_true, beq_iff_eq,
    not_contains_map, not_contains_set, pure, Except.pure, Except.ok.injEq] at applied
  obtain ⟨op, rfl, ⟨old, root⟩, verified, oldRoot, known, _, ⟨rfl, rfl⟩, _, ⟨isNew, notBanned⟩,
    member, found, rfl⟩ := applied
  exact .renameMember op old member verified known isNew notBanned found

theorem inviteEdit_effect {change : InviteEdit}
    (applied : inviteEdit state signer.user change = .ok next) :
    Effect library lookup state signer now (.inviteEdit change) next := by
  simp only [inviteEdit, bind_eq_ok, pure, Except.pure, Except.ok.injEq] at applied
  obtain ⟨id, -, link, -, _, -, _, -, rfl⟩ := applied
  exact .inviteEdit change id _

theorem checkJoin_spec {entry : GroupStateEntry} {change : JoinByInvite}
    (checked : checkJoin library state entry signer change = .ok ()) :
    signer.user ∉ state.members ∧ signer.user ∉ state.banned ∧
      state.members.size < maxMembers := by
  simp only [checkJoin, bind_eq_ok, require_eq_ok, Bool.and_eq_true, not_contains_map,
    not_contains_set, decide_eq_true_eq] at checked
  obtain ⟨_, ⟨⟨-, isNew⟩, notBanned⟩, _, room, -⟩ := checked
  exact ⟨isNew, notBanned, room⟩

theorem joinByInvite_effect {entry : GroupStateEntry} {change : JoinByInvite}
    (applied : joinByInvite library state now entry signer change = .ok next) :
    Effect library lookup state signer now (.joinByInvite change) next := by
  rw [joinByInvite] at applied
  split at applied
  · next isPublic =>
      simp only [bind_eq_ok, pure, Except.pure, Except.ok.injEq] at applied
      obtain ⟨_, checked, rfl⟩ := applied
      obtain ⟨isNew, notBanned, room⟩ := checkJoin_spec checked
      exact .joinPublic change isPublic isNew notBanned room
  · simp only [bind_eq_ok, present_eq_ok, pure, Except.pure, Except.ok.injEq] at applied
    obtain ⟨link, found, _, -, _, checked, rfl⟩ := applied
    obtain ⟨isNew, notBanned, room⟩ := checkJoin_spec checked
    refine .joinLink change ?_ isNew notBanned room
    exact Std.ExtTreeMap.mem_iff_isSome_getElem?.2 (by rw [found]; rfl)

theorem leave_effect (applied : leave state signer.user = .ok next) :
    Effect library lookup state signer now .leave next := by
  simp only [leave, bind_eq_ok, require_eq_ok, Bool.and_eq_true, bne_iff_ne,
    Std.ExtTreeMap.contains_iff_mem, pure, Except.pure, Except.ok.injEq] at applied
  obtain ⟨_, ⟨isMember, notOwner⟩, rfl⟩ := applied
  exact .leave isMember notOwner

theorem deleteGroup_effect (applied : deleteGroup state signer.user = .ok next) :
    Effect library lookup state signer now .deleteGroup next := by
  simp only [deleteGroup, bind_eq_ok, require_eq_ok, pure, Except.pure, Except.ok.injEq] at applied
  obtain ⟨_, isOwner, rfl⟩ := applied
  exact .deleteGroup (owner_of_isOwner isOwner)

/-- A change that is accepted has its effect. -/
theorem applyChange_effect {entry : GroupStateEntry} {signed : Signed}
    (applied : applyChange library state entry signed lookup = .ok next) :
    Effect library lookup state signed.signer signed.verified.header.tsMs signed.change next := by
  rw [applyChange] at applied
  cases changeEq : signed.change <;> rw [changeEq] at applied
  case create => cases applied
  case addMember => exact addMember_effect applied
  case removeMember => exact removeMember_effect applied
  case setRole => exact setRole_effect applied
  case ban => exact ban_effect applied
  case unban => exact unban_effect applied
  case mute => exact mute_effect applied
  case setInfo => exact setInfo_effect applied
  case setPrivacyMode => exact setPrivacyMode_effect applied
  case setPublic => exact setPublic_effect applied
  case setPermissions => exact setPermissions_effect applied
  case newEpoch => exact newEpoch_effect applied
  case inviteKey => exact inviteKey_effect applied
  case inviteKeyRevoke => exact inviteKeyRevoke_effect applied
  case renameMember => exact renameMember_effect applied
  case inviteEdit => exact inviteEdit_effect applied
  case joinByInvite => exact joinByInvite_effect applied
  case leave => exact leave_effect applied
  case deleteGroup => exact deleteGroup_effect applied

end

/-! ## Entries -/

/-- Write down the place of the entry that made the change. -/
def GroupState.place
    (changed : GroupState) (version : Nat) (hash : Hash)
    (signerVersions : Std.ExtTreeMap String UInt64) : GroupState :=
  { changed with
    version := version
    hashes := changed.hashes ++ [hash]
    signerVersions := signerVersions }

/-- Who signed an accepted entry, when, and what it changed. -/
structure Label where
  signer : SignerInfo
  now : Int64
  change : Change

def Signed.label (signed : Signed) : Label :=
  ⟨signed.signer, signed.verified.header.tsMs, signed.change⟩

/-- An entry is accepted. -/
def Accepts (library : Library) (state : GroupState) (label : Label) (next : GroupState) : Prop :=
  ∃ entry resolve lookup signed,
    readEntry library (some state) entry resolve lookup = .ok signed ∧
    applyWith library (some state) entry resolve lookup = .ok next ∧
    label = signed.label

/-- What an accepted entry does. -/
def Step
    (library : Library) (lookup : Option Lookup) (state : GroupState) (label : Label)
    (next : GroupState) : Prop :=
  ∃ changed hash versions, state.deleted = false ∧
    Effect library lookup state label.signer label.now label.change changed ∧
    next = changed.place (state.version + 1) hash versions

section

variable {library : Library} {state next : GroupState} {entry : GroupStateEntry}
  {resolve : Resolve} {lookup : Option Lookup}

theorem applyWith_some (applied : applyWith library (some state) entry resolve lookup = .ok next) :
    ∃ signed changed, readEntry library (some state) entry resolve lookup = .ok signed ∧
      state.deleted = false ∧ applyChange library state entry signed lookup = .ok changed ∧
      next = changed.place (state.version + 1) (entryHash library signed.op)
        (raiseFloors state changed signed) := by
  simp only [applyWith, bind_eq_ok, checkPlace, require_eq_ok, Bool.and_eq_true, beq_iff_eq,
    Bool.not_eq_true', pure, Except.pure, Except.ok.injEq] at applied
  obtain ⟨signed, read, _, ⟨_, notDeleted, _, ⟨version, -⟩, -⟩, changed, applied, rfl⟩ := applied
  refine ⟨signed, changed, read, notDeleted, applied, ?_⟩
  rw [version]
  rfl

theorem step_of_applyWith {signed : Signed}
    (read : readEntry library (some state) entry resolve lookup = .ok signed)
    (applied : applyWith library (some state) entry resolve lookup = .ok next) :
    Step library lookup state signed.label next := by
  obtain ⟨found, changed, foundRead, notDeleted, changes, rfl⟩ := applyWith_some applied
  rw [read] at foundRead
  cases foundRead
  exact ⟨changed, _, _, notDeleted, applyChange_effect changes, rfl⟩

theorem Accepts.step {label : Label} (accepts : Accepts library state label next) :
    ∃ lookup, Step library lookup state label next := by
  obtain ⟨entry, resolve, lookup, signed, read, applied, rfl⟩ := accepts
  exact ⟨lookup, step_of_applyWith read applied⟩

/-- Whatever every step keeps, every run keeps. -/
theorem run_keeps
    (holds : GroupState -> Prop) {labels : List Label}
    (run : Run (Accepts library) state labels next)
    (keeps : ∀ state next lookup, ∀ label ∈ labels, Step library lookup state label next ->
      holds state -> holds next)
    (initially : holds state) : holds next := by
  refine run.invariant ?_ initially
  intro before after label member accepts
  obtain ⟨lookup, step⟩ := accepts.step
  exact keeps before after lookup label member step

end

end Parvane.Group
