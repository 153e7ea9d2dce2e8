import Parvane.Engine.Folders
import Parvane.Engine.Renames
import Parvane.Shared.Agreement

/-!
# Granting is all or nothing

A grant is applied before the messages that belong to it are made, and undone when they
cannot be made.  Making messages does not touch the folders, and a rotation changes a folder
only when nothing can fail any more.
-/

namespace Parvane.Engine

open Wire Sign Identity Domain Fallible

abbrev Folders := Std.ExtTreeMap Bytes CloudLocal

/-! ## One folder among others -/

section

variable {base : Folders} {id : Bytes} {folder : CloudLocal} {state : CloudClient}

theorem modify_insert (base : Folders) (id : Bytes) (folder : CloudLocal)
    (change : CloudLocal -> CloudLocal) :
    (base.insert id folder).modify id change = base.insert id (change folder) := by
  apply Std.ExtTreeMap.ext_getElem?
  intro other
  rw [Std.ExtTreeMap.getElem?_modify, Std.ExtTreeMap.getElem?_insert_self,
    Std.ExtTreeMap.getElem?_insert (k := id) (v := change folder)]
  split
  · rfl
  · next different => rw [Std.ExtTreeMap.getElem?_insert, if_neg different]

theorem insert_of_getElem? (held : base[id]? = some folder) : base.insert id folder = base := by
  apply Std.ExtTreeMap.ext_getElem?
  intro other
  rw [Std.ExtTreeMap.getElem?_insert]
  split
  · next same => rw [← Std.LawfulEqCmp.eq_of_compare same, held]
  · rfl

/-- The folders are as before, apart from one. -/
def Shows (base : Folders) (id : Bytes) (folder : CloudLocal) (state : CloudClient) : Prop :=
  state.cloud = base.insert id folder

theorem Shows.onFolder (shows_ : Shows base id folder state)
    (change : CloudLocal -> CloudLocal) :
    Shows base id (change folder) (onFolder id change state) := by
  rw [Shows, Engine.onFolder, shows_]
  exact modify_insert base id folder change

theorem Shows.folderOf (shows_ : Shows base id folder state) : folderOf id state = .ok folder := by
  rw [Engine.folderOf, shows_, Std.ExtTreeMap.getElem?_insert_self]
  rfl

theorem shows_of_folderOf (found : folderOf id state = .ok folder) :
    state.cloud[id]? = some folder ∧ Shows state.cloud id folder state := by
  rw [folderOf, liftProto_eq_ok, present_eq_ok] at found
  exact ⟨found, (insert_of_getElem? found).symm⟩

end

/-! ## What messages leave as it was -/

section

variable (library : FolderLibrary) (id : Bytes)

theorem keeps_onClient (action : Act α) : Keeps CloudClient.cloud (onClient action) := by
  apply keeps_within
  intro client state
  rfl

theorem keeps_cloudAuthorMap : Keeps CloudClient.cloud cloudAuthorMap :=
  keeps_bind (keeps_modify fun _ => rfl) fun _ => keeps_bind keeps_get fun _ => keeps_pure _

theorem keeps_cloudShareWithOwnDevices :
    Keeps CloudClient.cloud (cloudShareWithOwnDevices library id) :=
  keeps_bind keeps_get fun _ =>
    keeps_bind (keeps_mapM fun _ _ => keeps_onClient _) fun _ => keeps_pure _

theorem keeps_cloudShareWithUser (user : String) (allEpochs : Bool) :
    Keeps CloudClient.cloud (cloudShareWithUser library id user allEpochs) :=
  keeps_bind keeps_get fun _ =>
    keeps_bind (keeps_mapM fun _ _ => keeps_onClient _) fun _ => keeps_pure _

theorem keeps_cloudShareCurrent : Keeps CloudClient.cloud (cloudShareCurrent library id) := by
  refine keeps_bind (keeps_attempt (keeps_cloudShareWithOwnDevices library id)) fun _ => ?_
  refine keeps_bind keeps_get fun _ => keeps_bind (keeps_mapM fun user _ => ?_) fun _ =>
    keeps_pure _
  exact keeps_bind (keeps_attempt (keeps_cloudShareWithUser library id user false)) fun _ =>
    keeps_pure _

/-- Messages that cannot be made are passed over. -/
theorem total_cloudShareCurrent : Total (cloudShareCurrent library id) :=
  total_bind (total_attempt _) fun _ => total_bind total_get fun _ =>
    total_bind (total_mapM (fun _ => total_bind (total_attempt _) fun _ => total_pure _) _) fun _ =>
      total_pure _

theorem total_drawKey : Total (onClient (drawKey library.toSending)) :=
  fun _ => ⟨_, _, rfl⟩

end

/-! ## Entries -/

section

variable (library : FolderLibrary)

/-- The entry says what the next entry of the log has to say. -/
def IsNext (access : ContainerAccess) (kind : GrantOp) (grantee : Option Grantee)
    (level : GrantLevel) (keyEpoch : UInt64) (tsMs : Int64) (boundary : Option UInt64)
    (entry : SignedOp) : Prop :=
  ∃ ref opId, containerRef access.container = .ok ref ∧
    entry.body = library.encodeOpBody (grantHeader kind ref opId tsMs) plainHeader
      (library.encodeGrant (nextGrant access ref grantee level keyEpoch boundary))

/-- An entry leads from one access to the next. -/
def Applies (entry : SignedOp) (access next : ContainerAccess) : Prop :=
  ∃ resolve event,
    (ContainerAccess.apply library.toDomain entry resolve Shared.noGroups).exec access =
      (.ok event, next)

variable {library} {base : Folders} {id : Bytes} {folder : CloudLocal} {state : CloudClient}

theorem yields_signGrantEntry
    (access : ContainerAccess) (kind : GrantOp) (grantee : Option Grantee) (level : GrantLevel)
    (keyEpoch : UInt64) (tsMs : Int64) (boundary : Option UInt64) :
    Yields (IsNext library access kind grantee level keyEpoch tsMs boundary)
      (signGrantEntry library access kind grantee level keyEpoch tsMs boundary) := by
  intro client entry later ran
  obtain ⟨ref, isRef, ran⟩ := exec_check_eq_ok.1 ran
  obtain ⟨opId, middle, -, ran⟩ := exec_bind_eq_ok.1 ran
  rw [exec_get_bind] at ran
  rw [exec_liftM, Prod.mk.injEq, liftProto_eq_ok, signOp, bind_eq_ok] at ran
  obtain ⟨⟨message, -, isEntry⟩, -⟩ := ran
  cases isEntry
  exact ⟨ref, opId, (liftProto_eq_ok _ _).1 isRef, rfl⟩

theorem yields_onClient {good : α -> Prop} {action : Act α}
    (yields : Yields good action) : Yields good (onClient action) := by
  intro state value later ran
  rw [onClient, exec_within, Prod.mk.injEq] at ran
  exact yields state.client value _ (Prod.ext ran.1 rfl)

theorem yields_signGrant
    (access : ContainerAccess) (grantee : Grantee) (level : GrantLevel) (tsMs : Int64) :
    Yields (IsNext library access .grant (some grantee) level access.epoch tsMs none)
      (signGrant library access grantee level tsMs) :=
  yields_bind_any fun _ => yields_signGrantEntry _ _ _ _ _ _ _

theorem yields_signRotateAt (access : ContainerAccess) (tsMs : Int64) (boundary : Option UInt64) :
    Yields (fun entry => ∃ next, checkedSucc access.epoch = some next ∧
        IsNext library access .rotate none .unspecified next tsMs boundary entry)
      (signRotateAt library access tsMs boundary) := by
  intro client entry later ran
  obtain ⟨next, isNext, ran⟩ := exec_check_eq_ok.1 ran
  rw [liftProto_eq_ok, present_eq_ok] at isNext
  exact ⟨next, isNext, yields_signGrantEntry _ _ _ _ _ _ _ client entry later ran⟩

/-- A refused entry leaves the folders as they were. -/
theorem ends_applyTo
    (entry : SignedOp) (resolve : KeyResolver) (shows_ : Shows base id folder state) :
    Ends (applyTo library id entry resolve folder) state (Shows base id folder)
      fun _ later => ∃ next, Applies library entry folder.access next ∧
        next.container.ref = folder.access.container.ref ∧
        Shows base id { folder with access := next } later := by
  have atomic := ContainerAccess.apply_atomic library.toDomain entry folder.access resolve
    Shared.noGroups
  unfold Update.Atomic at atomic
  unfold applyTo
  refine ends_modify_bind ?_
  rcases ran : (ContainerAccess.apply library.toDomain entry resolve Shared.noGroups).exec
    folder.access with ⟨error | event, next⟩
  · rw [ran] at atomic
    dsimp only at atomic
    subst atomic
    exact shows_.onFolder _
  · rw [ran] at atomic
    obtain ⟨read, -, step⟩ := atomic
    refine ⟨next, ⟨resolve, event, ran⟩, ?_, shows_.onFolder _⟩
    exact congrArg Prod.fst (Shared.Step.identity step)

theorem ends_pushEntry
    (entry : SignedOp) (shows_ : Shows base id folder state) {failed : CloudClient -> Prop} :
    Ends (pushEntry id entry) state failed fun _ later =>
      Shows base id { folder with grants := folder.grants ++ [entry] } later :=
  shows_.onFolder _

end

/-! ## Rotation -/

section

variable {library : FolderLibrary} {base : Folders} {id : Bytes} {folder : CloudLocal}
  {state : CloudClient} {tsMs : Int64}

/-- What is kept, is kept while one folder is shown. -/
theorem Shows.ends_kept
    (shows_ : Shows base id folder state)
    {action : CloudAct α} {good : α -> Prop} (kept : Keeps CloudClient.cloud action)
    (yields : Yields good action) :
    Ends action state (Shows base id folder) fun value later =>
      Shows base id folder later ∧ good value :=
  (kept.ends yields state).mono (fun _ same => same.trans shows_)
    fun _ _ ended => ⟨ended.1.trans shows_, ended.2⟩

/-- A rotation that was applied after the given access. -/
inductive Rotated (library : FolderLibrary) (tsMs : Int64) (folder : CloudLocal) :
    List CloudRequest -> CloudLocal -> Prop
  | rotate
      (rotate : SignedOp)
      (next : UInt64)
      (access : ContainerAccess)
      (key : Hash)
      (messages : List OutRequest)
      (follows : checkedSucc folder.access.epoch = some next)
      (isNext : IsNext library folder.access .rotate none .unspecified next tsMs
        (some folder.headSeq) rotate)
      (applies : Applies library rotate folder.access access) :
      Rotated library tsMs folder (.keyRotate rotate :: messages.map .message)
        { folder with
          access := access
          grants := folder.grants ++ [rotate]
          keys := folder.keys.insert access.epoch key }

/-- A refused rotation leaves the folders as they were. -/
theorem ends_cloudRotate (shows_ : Shows base id folder state) :
    Ends (cloudRotate library id tsMs) state (Shows base id folder) fun requests later =>
      ∃ rotated, Rotated library tsMs folder requests rotated ∧ Shows base id rotated later := by
  unfold cloudRotate
  refine (shows_.ends_kept keeps_cloudAuthorMap (yields_any _)).bind fun resolve state before => ?_
  obtain ⟨shows_, -⟩ := before
  refine ends_get_bind (ends_check shows_ fun found isFolder => ?_)
  obtain rfl : folder = found := by
    rw [shows_.folderOf] at isFolder
    exact Except.ok.inj isFolder
  refine ends_check shows_ fun _ _ => ?_
  refine (shows_.ends_kept (keeps_onClient _) (yields_onClient (yields_signRotateAt _ _ _))).bind
    fun rotate state signed => ?_
  obtain ⟨shows_, next, follows, isNext⟩ := signed
  refine (ends_applyTo rotate resolve shows_).bind fun _ state applied => ?_
  obtain ⟨access, applies, -, shows_⟩ := applied
  refine (ends_pushEntry rotate shows_).bind fun _ state shows_ => ?_
  -- From here on nothing can fail.
  refine ((keeps_onClient _).ends_total (total_drawKey library) _).bind fun key state kept => ?_
  have shows_ : Shows base id _ state := kept.trans shows_
  refine ends_modify_bind ?_
  have shows_ := shows_.onFolder fun folder =>
    { folder with keys := folder.keys.insert folder.access.epoch key }
  refine ((keeps_cloudShareCurrent library id).ends_total
    (total_cloudShareCurrent library id) _).bind fun sent state kept => ?_
  exact ends_pure ⟨_, .rotate rotate next access key sent follows isNext applies,
    kept.trans shows_⟩

/-! ## Grants -/

/-- The user could write and now only reads. -/
def demotes (before : Option GrantLevel) (write : Bool) : Bool :=
  (before.any fun level => GrantLevel.write ≤ level) && !write

theorem ends_cloudGrantMessages
    {user name inviteText : String} {write : Bool} {before : Option GrantLevel} {container : Ref}
    (shows_ : Shows base id folder state) :
    Ends (cloudGrantMessages library id user write before container name inviteText tsMs) state
      (Shows base id folder) fun requests later =>
        if demotes before write then
          ∃ rotated, Rotated library tsMs folder requests rotated ∧ Shows base id rotated later
        else
          (∃ messages : List OutRequest, requests = messages.map .message) ∧
            Shows base id folder later := by
  unfold cloudGrantMessages
  change Ends (if demotes before write = true then _ else _) _ _ _
  by_cases demotion : demotes before write = true
  · simp only [if_pos demotion]
    exact ends_cloudRotate shows_
  · simp only [if_neg demotion]
    refine (shows_.ends_kept (keeps_cloudShareWithUser library id user true)
      (yields_any _)).bind fun keys state shared => ?_
    have sent (invitation : List OutRequest) (state : CloudClient)
        (shows_ : Shows base id folder state) :
        Ends (pure ((keys ++ invitation).map .message) : CloudAct (List CloudRequest)) state
          (Shows base id folder) fun requests later =>
            (∃ messages : List OutRequest, requests = messages.map .message) ∧
              Shows base id folder later :=
      ends_pure ⟨⟨_, rfl⟩, shows_⟩
    split
    · refine (shared.1.ends_kept (keeps_onClient _) (yields_any _)).bind fun invitation later => ?_
      exact fun invited => sent invitation later invited.1
    · exact sent [] state shared.1

/-- A grant that was applied to the folder, and the rotation after it when an editor becomes a
reader. -/
inductive Granted (library : FolderLibrary) (user : String) (write : Bool) (tsMs : Int64)
    (folder : CloudLocal) : List CloudRequest -> CloudLocal -> Prop
  | share
      (grant : SignedOp)
      (access : ContainerAccess)
      (messages : List OutRequest)
      (isNext : IsNext library folder.access .grant (some (.user user))
        (if write then .write else .read) folder.access.epoch tsMs none grant)
      (applies : Applies library grant folder.access access)
      (stays : demotes folder.access.grants[Grantee.user user]? write = false) :
      Granted library user write tsMs folder (.grantSet grant :: messages.map .message)
        { folder with access := access, grants := folder.grants ++ [grant] }
  | demote
      (grant : SignedOp)
      (access : ContainerAccess)
      (requests : List CloudRequest)
      (rotated : CloudLocal)
      (isNext : IsNext library folder.access .grant (some (.user user))
        (if write then .write else .read) folder.access.epoch tsMs none grant)
      (applies : Applies library grant folder.access access)
      (demotion : demotes folder.access.grants[Grantee.user user]? write = true)
      (rotates : Rotated library tsMs
        { folder with access := access, grants := folder.grants ++ [grant] } requests rotated) :
      Granted library user write tsMs folder (.grantSet grant :: requests) rotated

theorem ends_cloudGrant
    (library : FolderLibrary) (id : Bytes) (user : String) (write : Bool) (inviteText : String)
    (tsMs : Int64) (state : CloudClient) :
    Ends (cloudGrant library id user write inviteText tsMs) state
      (fun later => later.cloud = state.cloud) fun requests later =>
        requests = [] ∧ later.cloud = state.cloud ∨
          ∃ folder changed, state.cloud[id]? = some folder ∧
            Granted library user write tsMs folder requests changed ∧
            Shows state.cloud id changed later := by
  unfold cloudGrant
  refine ends_get_bind (ends_check rfl fun _ _ => ends_check rfl fun _ _ => ?_)
  refine (keeps_cloudAuthorMap.ends (yields_any _) _).bind fun resolve middle kept => ?_
  refine ends_get_bind (ends_check kept.1 fun folder isFolder => ?_)
  obtain ⟨held, shows_⟩ := shows_of_folderOf isFolder
  rw [kept.1] at held shows_
  have asBefore (later : CloudClient) (shows_ : Shows state.cloud id folder later) :
      later.cloud = state.cloud :=
    shows_.trans (insert_of_getElem? held)
  refine ends_check kept.1 fun _ _ => ?_
  dsimp only
  by_cases same : folder.access.grants[Grantee.user user]? =
      some (if write = true then GrantLevel.write else .read)
  · rw [if_pos same]
    exact ends_pure (.inl ⟨rfl, kept.1⟩)
  rw [if_neg same]
  refine ((shows_.ends_kept (keeps_onClient _) (yields_onClient (yields_signGrant _ _ _ _))).mono
    asBefore fun _ _ ended => ended).bind fun grant middle signed => ?_
  obtain ⟨shows_, isNext⟩ := signed
  refine ((ends_applyTo grant resolve shows_).mono asBefore fun _ _ ended => ended).bind
    fun _ middle applied => ?_
  obtain ⟨access, applies, sameRef, shows_⟩ := applied
  refine (ends_pushEntry grant shows_).bind fun _ middle shows_ => ?_
  obtain ⟨ref, opId, isRef, body⟩ := isNext
  have grantedRef : liftProto (containerRef access.container) = .ok ref := by
    rw [liftProto_eq_ok, ← isRef]
    unfold containerRef
    rw [sameRef]
  refine ends_get_bind (ends_check_ok shows_.folderOf (ends_check_ok grantedRef ?_))
  refine (ends_cloudGrantMessages shows_).attempt_bind ?_ ?_
  · intro requests later ended
    refine ends_pure (.inr ⟨folder, ?_⟩)
    by_cases demotion : demotes folder.access.grants[Grantee.user user]? write = true
    · rw [if_pos demotion] at ended
      obtain ⟨rotated, rotates, shows_⟩ := ended
      exact ⟨rotated, held, .demote grant access requests rotated ⟨ref, opId, isRef, body⟩ applies
        demotion rotates, shows_⟩
    · rw [if_neg demotion] at ended
      obtain ⟨⟨messages, rfl⟩, shows_⟩ := ended
      exact ⟨_, held, .share grant access messages ⟨ref, opId, isRef, body⟩ applies
        (Bool.eq_false_iff.2 demotion), shows_⟩
  · intro error later shows_
    refine ends_modify_bind (ends_throw ?_)
    have restored := shows_.onFolder fun changed =>
      { changed with
        access := folder.access
        grants := changed.grants.take folder.grants.length }
    apply asBefore
    rwa [List.take_left] at restored

/-- When granting fails, the folders are as before.  When it gives requests, the first one is
the grant that was applied, and the rotation of a demotion was applied after it. -/
theorem cloudGrant_all_or_nothing
    (library : FolderLibrary)
    (id : Bytes)
    (user : String)
    (write : Bool)
    (inviteText : String)
    (tsMs : Int64)
    (state : CloudClient) :
    (∀ error later,
      exec (cloudGrant library id user write inviteText tsMs) state = (.error error, later) ->
        later.cloud = state.cloud) ∧
      ∀ requests later,
        exec (cloudGrant library id user write inviteText tsMs) state = (.ok requests, later) ->
          requests = [] ∧ later.cloud = state.cloud ∨
            ∃ folder changed, state.cloud[id]? = some folder ∧
              Granted library user write tsMs folder requests changed ∧
              later.cloud = state.cloud.insert id changed := by
  have ends := ends_cloudGrant library id user write inviteText tsMs state
  exact ⟨fun error later ran => ends.of_error ran, fun requests later ran => ends.of_ok ran⟩

end

end Parvane.Engine
