import Mathlib.Data.List.Induction
import Parvane.State.Convergence

/-!
# Where the entries of the state come from

An entry of a map or of a register was written by an accepted operation, and stays until
another operation writes the same key.
-/

namespace Parvane.State

open Wire Convergence

variable {κ ν ε ρ : Type}

/-- A map of the state, with what an operation offers to it and the order of what is
offered. -/
structure IsMap [Ord κ] [Std.TransOrd κ] [LinearOrder ρ] (sha256 : Bytes -> Digest)
    (offer : StateOp -> Option (κ × ε))
    (rank : ε -> ρ) (read : PersonalState -> Std.ExtTreeMap κ ε) : Prop where
  initially : read .new = ∅
  step : ∀ state op, read (effect sha256 state op) =
    alterAt (fun op => (offer op).map Prod.fst)
      (fun slot op => ((offer op).map Prod.snd).elim slot (keepGreatest rank slot)) (read state) op

/-- A register of the state, with what an operation writes into it. -/
structure IsRegister (sha256 : Bytes -> Digest) (write : Op -> Option ν)
    (read : PersonalState -> Option (Lww ν)) : Prop where
  initially : read .new = none
  step : ∀ state op, read (effect sha256 state op) = registerStep sha256 write (read state) op

section

variable (sha256 : Bytes -> Digest)

theorem isMap_of_mapStep [Ord κ] [Std.TransOrd κ] [Std.LawfulEqOrd κ]
    {sha256 : Bytes -> Digest}
    {write : Op -> Option (κ × Option ν)}
    {read : PersonalState -> Std.ExtTreeMap κ (Lww ν)}
    (initially : read .new = ∅)
    (step : ∀ state op, read (effect sha256 state op) = mapStep sha256 write (read state) op) :
    IsMap sha256 (entryOf sha256 write) Lww.stamp read :=
  ⟨initially, fun state op => by rw [step, mapStep_eq_alterAt]⟩

theorem isMap_folders : IsMap sha256 (entryOf sha256 foldersWrite) Lww.stamp PersonalState.folders :=
  isMap_of_mapStep rfl fun _ _ => by rw [effect_eq]

theorem isMap_blocked : IsMap sha256 (entryOf sha256 blockedWrite) Lww.stamp PersonalState.blocked :=
  isMap_of_mapStep rfl fun _ _ => by rw [effect_eq]

theorem isMap_notify : IsMap sha256 (entryOf sha256 notifyWrite) Lww.stamp PersonalState.notify :=
  isMap_of_mapStep rfl fun _ _ => by rw [effect_eq]

theorem isMap_drafts : IsMap sha256 (entryOf sha256 draftsWrite) Lww.stamp PersonalState.drafts :=
  isMap_of_mapStep rfl fun _ _ => by rw [effect_eq]

theorem isMap_scheduled : IsMap sha256 (entryOf sha256 scheduledWrite) Lww.stamp PersonalState.scheduled :=
  isMap_of_mapStep rfl fun _ _ => by rw [effect_eq]

theorem isMap_archived : IsMap sha256 (entryOf sha256 archivedWrite) Lww.stamp PersonalState.archived :=
  isMap_of_mapStep rfl fun _ _ => by rw [effect_eq]

theorem isMap_pinned : IsMap sha256 (entryOf sha256 pinnedWrite) Lww.stamp PersonalState.pinned :=
  isMap_of_mapStep rfl fun _ _ => by rw [effect_eq]

theorem isMap_calls : IsMap sha256 (entryOf sha256 callsWrite) Lww.stamp PersonalState.calls :=
  isMap_of_mapStep rfl fun _ _ => by rw [effect_eq]

theorem isMap_invites : IsMap sha256 (entryOf sha256 invitesWrite) Lww.stamp PersonalState.invites :=
  isMap_of_mapStep rfl fun _ _ => by rw [effect_eq]

theorem isMap_cloudContainers :
    IsMap sha256 (entryOf sha256 cloudContainersWrite) Lww.stamp PersonalState.cloudContainers :=
  isMap_of_mapStep rfl fun _ _ => by rw [effect_eq]

theorem isMap_unreadMarks : IsMap sha256 (entryOf sha256 unreadMarksWrite) Lww.stamp PersonalState.unreadMarks :=
  isMap_of_mapStep rfl fun _ _ => by rw [effect_eq]

theorem isMap_stickerPacks : IsMap sha256 (entryOf sha256 stickerPacksWrite) Lww.stamp PersonalState.stickerPacks :=
  isMap_of_mapStep rfl fun _ _ => by rw [effect_eq]

theorem isMap_cleared :
    IsMap sha256 (clearedOf sha256) (fun mark => mark.clearedUntilMs.toInt)
      PersonalState.cleared :=
  ⟨rfl, fun state op => by
    rw [← clearedStep_eq_alterAt]
    exact congrArg PersonalState.cleared (effect_eq sha256 state op)⟩

theorem isRegister_folderOrder : IsRegister sha256 folderOrderWrite PersonalState.folderOrder :=
  ⟨rfl, fun _ _ => by rw [effect_eq]⟩

theorem isRegister_notifyDefaults :
    IsRegister sha256 notifyDefaultsWrite PersonalState.notifyDefaults :=
  ⟨rfl, fun _ _ => by rw [effect_eq]⟩

theorem isRegister_plannerContainer :
    IsRegister sha256 plannerContainerWrite PersonalState.plannerContainer :=
  ⟨rfl, fun _ _ => by rw [effect_eq]⟩

theorem isRegister_quickReaction :
    IsRegister sha256 quickReactionWrite PersonalState.quickReaction :=
  ⟨rfl, fun _ _ => by rw [effect_eq]⟩

end

variable {sha256 : Bytes -> Digest}

variable {op : StateOp}

/-- What an operation offers is what its kind writes. -/
theorem write_of_entryOf {write : Op -> Option (κ × Option ν)}
    {key : κ} {entry : Lww ν}
    (offered : entryOf sha256 write op = some (key, entry)) :
    ∃ kind, op.op = some kind ∧ write kind = some (key, entry.value) := by
  simp only [entryOf, Option.bind_eq_bind, Option.bind_eq_some_iff, pure, Option.some.injEq,
    Prod.mk.injEq] at offered
  obtain ⟨_, -, kind, carried, ⟨other, value⟩, written, rfl, rfl⟩ := offered
  exact ⟨kind, carried, written⟩

theorem write_of_clearedOf {entry : String × ChatCleared}
    (offered : clearedOf sha256 op = some entry) :
    ∃ kind, op.op = some kind ∧ clearedWrite kind = some entry := by
  simp only [clearedOf, Option.bind_eq_bind, Option.bind_eq_some_iff] at offered
  obtain ⟨_, -, kind, carried, written⟩ := offered
  exact ⟨kind, carried, written⟩

namespace IsMap

variable [Ord κ] [Std.TransOrd κ] [Std.LawfulEqOrd κ] [DecidableEq κ] [LinearOrder ρ]
  {offer : StateOp -> Option (κ × ε)}
  {rank : ε -> ρ}
  {read : PersonalState -> Std.ExtTreeMap κ ε}

/-- The entry of a key after an operation. -/
theorem getElem?_effect
    (isMap : IsMap sha256 offer rank read) (state : PersonalState) (op : StateOp) (key : κ) :
    (read (effect sha256 state op))[key]? =
      match offer op with
      | some (target, entry) =>
          if target = key then keepGreatest rank (read state)[key]? entry else (read state)[key]?
      | none => (read state)[key]? := by
  rw [isMap.step, getElem?_alterAt]
  cases offer op with
  | none => simp
  | some entry => simp

variable {ops : List StateOp}

section

variable (isMap : IsMap sha256 offer rank read)

include isMap

/-- What was offered for a key leaves an entry there. -/
theorem getElem?_foldl_of_offered
    {key : κ} {entry : ε} (member : op ∈ ops)
    (offered : offer op = some (key, entry)) :
    (read (ops.foldl (effect sha256) .new))[key]? ≠ none := by
  induction ops using List.reverseRecOn with
  | nil => simp at member
  | append_singleton ops last inductionHypothesis =>
      rw [List.foldl_append, List.foldl_cons, List.foldl_nil, isMap.getElem?_effect]
      have kept (written : ε) :
          keepGreatest rank (read (ops.foldl (effect sha256) .new))[key]? written ≠ none := by
        obtain ⟨held, isHeld, -⟩ := keepGreatest_eq_some rank
          (read (ops.foldl (effect sha256) .new))[key]? written
        rw [isHeld]
        exact Option.some_ne_none held
      rcases List.mem_append.1 member with earlier | isLast
      · split
        · split
          · exact kept _
          · exact inductionHypothesis earlier
        · exact inductionHypothesis earlier
      · rw [← List.mem_singleton.1 isLast, offered]
        simp only [if_true]
        exact kept entry

/-- Every entry was offered by one of the operations. -/
theorem offered {key : κ} {entry : ε}
    (found : (read (applyAll sha256 ops .new).2)[key]? = some entry) :
    ∃ op ∈ ops, accepted sha256 op = true ∧ offer op = some (key, entry) := by
  rw [applyAll, applyAllFrom_state] at found
  suffices offered : ∃ op ∈ ops.filter (accepted sha256), offer op = some (key, entry) by
    obtain ⟨op, member, offered⟩ := offered
    rw [List.mem_filter] at member
    exact ⟨op, member.1, member.2, offered⟩
  revert found
  generalize ops.filter (accepted sha256) = ops
  induction ops using List.reverseRecOn with
  | nil =>
      intro found
      rw [List.foldl_nil, isMap.initially] at found
      simp at found
  | append_singleton ops op inductionHypothesis =>
      intro found
      rw [List.foldl_append, List.foldl_cons, List.foldl_nil, isMap.getElem?_effect] at found
      have earlier (found : (read (ops.foldl (effect sha256) .new))[key]? = some entry) :
          ∃ other ∈ ops ++ [op], offer other = some (key, entry) := by
        obtain ⟨other, member, offered⟩ := inductionHypothesis found
        exact ⟨other, List.mem_append_left _ member, offered⟩
      split at found
      · next target written offered =>
        split at found
        · next same =>
          obtain ⟨kept, isKept, cases⟩ := keepGreatest_eq_some rank
            (read (ops.foldl (effect sha256) .new))[key]? written
          cases isKept.symm.trans found
          rcases cases with rfl | before
          · exact ⟨op, by simp, same ▸ offered⟩
          · exact earlier before
        · exact earlier found
      · exact earlier found

/-- No accepted operation offered a greater entry. -/
theorem offered_le {key : κ} {entry other : ε}
    (found : (read (applyAll sha256 ops .new).2)[key]? = some entry)
    (member : op ∈ ops) (isAccepted : accepted sha256 op = true)
    (offered : offer op = some (key, other)) : rank other ≤ rank entry := by
  rw [applyAll, applyAllFrom_state] at found
  have member : op ∈ ops.filter (accepted sha256) := List.mem_filter.2 ⟨member, isAccepted⟩
  revert found member
  generalize ops.filter (accepted sha256) = ops
  induction ops using List.reverseRecOn generalizing entry with
  | nil => simp
  | append_singleton ops last inductionHypothesis =>
      intro found member
      rw [List.foldl_append, List.foldl_cons, List.foldl_nil, isMap.getElem?_effect] at found
      rcases List.mem_append.1 member with earlier | isLast
      · split at found
        · next target written _ =>
          split at found
          · next same =>
            have grows := (le_of_keepGreatest rank found).2
            -- The key was offered before, so that the register held something.
            cases held : (read (ops.foldl (effect sha256) .new))[key]? with
            | none =>
                exact absurd held (isMap.getElem?_foldl_of_offered earlier offered)
            | some current => exact (inductionHypothesis held earlier).trans (grows current held)
          · exact inductionHypothesis found earlier
        · exact inductionHypothesis found earlier
      · rw [List.mem_singleton.1 isLast] at offered
        rw [offered] at found
        simp only [if_true] at found
        exact (le_of_keepGreatest rank found).1

/-- An entry stays if no operation offers its key. -/
theorem getElem?_of_unoffered {key : κ}
    (unoffered : ∀ op ∈ ops, ∀ entry, offer op ≠ some (key, entry))
    (state : PersonalState) : (read (applyAll sha256 ops state).2)[key]? = (read state)[key]? := by
  rw [applyAll, applyAllFrom_state]
  have unoffered (op) (member : op ∈ ops.filter (accepted sha256)) :=
    unoffered op (List.mem_of_mem_filter member)
  revert unoffered
  generalize ops.filter (accepted sha256) = ops
  intro unoffered
  induction ops generalizing state with
  | nil => rfl
  | cons op ops inductionHypothesis =>
      rw [List.forall_mem_cons] at unoffered
      rw [List.foldl_cons, inductionHypothesis _ unoffered.2, isMap.getElem?_effect]
      split
      · next target entry offered =>
        refine if_neg ?_
        rintro rfl
        exact unoffered.1 entry offered
      · rfl

end

end IsMap

namespace IsRegister

variable {write : Op -> Option ν} {read : PersonalState -> Option (Lww ν)}

/-- The value of a register was offered by one of the operations. -/
theorem offered
    (isRegister : IsRegister sha256 write read)
    {ops : List StateOp} {entry : Lww ν}
    (found : read (applyAll sha256 ops .new).2 = some entry) :
    ∃ op ∈ ops, accepted sha256 op = true ∧ offerOf sha256 write op = some entry := by
  rw [applyAll, applyAllFrom_state] at found
  suffices offered : ∃ op ∈ ops.filter (accepted sha256), offerOf sha256 write op = some entry by
    obtain ⟨op, member, offered⟩ := offered
    rw [List.mem_filter] at member
    exact ⟨op, member.1, member.2, offered⟩
  revert found
  generalize ops.filter (accepted sha256) = ops
  induction ops using List.reverseRecOn with
  | nil =>
      intro found
      rw [List.foldl_nil, isRegister.initially] at found
      cases found
  | append_singleton ops op inductionHypothesis =>
      intro found
      rw [List.foldl_append, List.foldl_cons, List.foldl_nil, isRegister.step,
        registerStep_eq_elim] at found
      dsimp only at found
      have earlier (found : read (ops.foldl (effect sha256) .new) = some entry) :
          ∃ other ∈ ops ++ [op], offerOf sha256 write other = some entry := by
        obtain ⟨other, member, offered⟩ := inductionHypothesis found
        exact ⟨other, List.mem_append_left _ member, offered⟩
      cases offered : offerOf sha256 write op with
      | none =>
          rw [offered] at found
          exact earlier found
      | some written =>
          rw [offered] at found
          obtain ⟨kept, isKept, cases⟩ := keepGreatest_eq_some Lww.stamp
            (read (ops.foldl (effect sha256) .new)) written
          cases isKept.symm.trans found
          rcases cases with rfl | before
          · exact ⟨op, by simp, offered⟩
          · exact earlier before

/-- A register stays if no operation writes it. -/
theorem read_of_unwritten
    (isRegister : IsRegister sha256 write read) {ops : List StateOp}
    (unwritten : ∀ op ∈ ops, ∀ kind ∈ op.op, write kind = none)
    (state : PersonalState) : read (applyAll sha256 ops state).2 = read state := by
  rw [applyAll, applyAllFrom_state]
  have unwritten (op) (member : op ∈ ops.filter (accepted sha256)) :=
    unwritten op (List.mem_of_mem_filter member)
  revert unwritten
  generalize ops.filter (accepted sha256) = ops
  intro unwritten
  induction ops generalizing state with
  | nil => rfl
  | cons op ops inductionHypothesis =>
      rw [List.forall_mem_cons] at unwritten
      rw [List.foldl_cons, inductionHypothesis _ unwritten.2, isRegister.step, registerStep]
      split
      · next stamp kind _ carried => rw [unwritten.1 kind carried, registerWrite]
      · rfl

end IsRegister

/-! ## Times -/

theorem le_maxLamport_applyAll {ops : List StateOp}
    (member : op ∈ ops) (isAccepted : accepted sha256 op = true)
    (state : PersonalState) : op.lamport ≤ (applyAll sha256 ops state).2.maxLamport := by
  have member := List.mem_filter.2 ⟨member, isAccepted⟩
  have grows (ops : List StateOp) (state : PersonalState) :
      state.maxLamport ≤ (ops.foldl (effect sha256) state).maxLamport := by
    induction ops generalizing state with
    | nil => exact le_rfl
    | cons op ops inductionHypothesis =>
        have step : state.maxLamport ≤ (effect sha256 state op).maxLamport := le_max_left _ _
        exact step.trans (inductionHypothesis _)
  rw [applyAll, applyAllFrom_state]
  revert member
  generalize ops.filter (accepted sha256) = ops
  intro member
  induction ops generalizing state with
  | nil => cases member
  | cons first ops inductionHypothesis =>
      rcases List.mem_cons.1 member with rfl | member
      · have step : op.lamport ≤ (effect sha256 state op).maxLamport := le_max_right _ _
        exact step.trans (grows ops _)
      · exact inductionHypothesis _ member

/-! ## Sent marks -/

theorem mem_sentStep {sent : Std.ExtTreeSet OpId} {op : StateOp} {id : OpId} :
    id ∈ sentStep sha256 sent op ↔ id ∈ sent ∨ sentOf sha256 op = some id := by
  unfold sentStep sentOf
  cases stampOf sha256 op with
  | none => simp
  | some stamp =>
      cases op.op with
      | none => simp
      | some kind =>
          cases written : scheduledSentWrite kind with
          | none => simp [written, sentWrite]
          | some marked => simp [written, sentWrite, or_comm]

theorem write_of_sentOf {id : OpId}
    (marked : sentOf sha256 op = some id) :
    ∃ kind, op.op = some kind ∧ scheduledSentWrite kind = some id := by
  simp only [sentOf, Option.bind_eq_bind, Option.bind_eq_some_iff] at marked
  obtain ⟨_, -, kind, carried, written⟩ := marked
  exact ⟨kind, carried, written⟩

/-- A message is marked as sent when it was before or one of the operations marks it. -/
theorem mem_scheduledSent_applyAll {ops : List StateOp} {state : PersonalState} {id : OpId} :
    id ∈ (applyAll sha256 ops state).2.scheduledSent ↔
      id ∈ state.scheduledSent ∨
        ∃ op ∈ ops, accepted sha256 op = true ∧ sentOf sha256 op = some id := by
  have filtered : (∃ op ∈ ops, accepted sha256 op = true ∧ sentOf sha256 op = some id) ↔
      ∃ op ∈ ops.filter (accepted sha256), sentOf sha256 op = some id := by
    simp only [List.mem_filter, and_assoc]
  rw [applyAll, applyAllFrom_state, filtered]
  generalize ops.filter (accepted sha256) = ops
  induction ops generalizing state with
  | nil => simp
  | cons op ops inductionHypothesis =>
      have step : (effect sha256 state op).scheduledSent = sentStep sha256 state.scheduledSent op :=
        congrArg PersonalState.scheduledSent (effect_eq sha256 state op)
      have rest := @inductionHypothesis (effect sha256 state op)
      rw [step, mem_sentStep] at rest
      simp [rest, or_assoc]

/-! ## Keys -/

theorem eq_ok_of_map_toOption {result : Result τ} {value : Option ν} {entry : τ × Option ν}
    (found : result.toOption.map (·, value) = some entry) :
    result = .ok entry.1 ∧ value = entry.2 := by
  cases result with
  | error error => cases found
  | ok key =>
      cases found
      exact ⟨rfl, rfl⟩

section

variable {kind : Op}

theorem id_of_foldersWrite {key : UInt32} {folder : Folder}
    (written : foldersWrite kind = some (key, some folder)) : folder.id = key := by
  cases kind <;> simp [foldersWrite] at written
  rw [← written.2, written.1]

theorem peer_of_blockedWrite {key : String} {entry : BlockEntry}
    (written : blockedWrite kind = some (key, some entry)) : optPeerKey entry.peer = .ok key := by
  cases kind <;> simp only [blockedWrite, reduceCtorEq] at written
  · obtain ⟨isKey, same⟩ := eq_ok_of_map_toOption written
    cases same
    exact isKey
  · cases (eq_ok_of_map_toOption written).2

theorem peer_of_notifyWrite {key : String} {notify : PeerNotify}
    (written : notifyWrite kind = some (key, some notify)) : optPeerKey notify.peer = .ok key := by
  cases kind <;> simp only [notifyWrite, reduceCtorEq] at written
  · obtain ⟨isKey, same⟩ := eq_ok_of_map_toOption written
    cases same
    exact isKey
  · cases (eq_ok_of_map_toOption written).2

theorem peer_of_draftsWrite {key : String} {draft : Draft}
    (written : draftsWrite kind = some (key, some draft)) : optPeerKey draft.peer = .ok key := by
  cases kind <;> simp only [draftsWrite, reduceCtorEq] at written
  · obtain ⟨isKey, same⟩ := eq_ok_of_map_toOption written
    cases same
    exact isKey
  · cases (eq_ok_of_map_toOption written).2

theorem peerKey_of_archivedWrite {key : String} {peer : Peer}
    (written : archivedWrite kind = some (key, some peer)) : peerKey peer = .ok key := by
  cases kind <;> simp only [archivedWrite, reduceCtorEq] at written
  · obtain ⟨isKey, same⟩ := eq_ok_of_map_toOption written
    rw [same] at isKey
    exact isKey
  · cases (eq_ok_of_map_toOption written).2

theorem peerKey_of_unreadMarksWrite {key : String} {peer : Peer}
    (written : unreadMarksWrite kind = some (key, some peer)) : peerKey peer = .ok key := by
  cases kind <;> simp only [unreadMarksWrite, reduceCtorEq] at written
  · obtain ⟨isKey, same⟩ := eq_ok_of_map_toOption written
    rw [same] at isKey
    exact isKey
  · cases (eq_ok_of_map_toOption written).2

theorem ofBytes?_eq_some {length : Nat} {bytes : Bytes} {fixed : FixedBytes length} :
    FixedBytes.ofBytes? length bytes = some fixed ↔ fixed.bytes = bytes := by
  rw [FixedBytes.ofBytes?]
  split
  · next fits =>
    rw [Option.some.injEq]
    constructor
    · rintro rfl
      rfl
    · rintro rfl
      rfl
  · next short =>
    refine iff_of_false nofun ?_
    rintro rfl
    exact short fixed.length_eq

theorem opId_of_scheduledWrite {key : OpId} {scheduled : ScheduledMessage}
    (written : scheduledWrite kind = some (key, some scheduled)) : key.bytes = scheduled.opId := by
  cases kind <;> simp [scheduledWrite, ofBytes?_eq_some] at written
  rw [← written.2, written.1]

theorem callId_of_callsWrite {key : OpId} {record : CallRecord}
    (written : callsWrite kind = some (key, some record)) : key.bytes = record.callId := by
  cases kind <;> simp [callsWrite, ofBytes?_eq_some] at written
  rw [← written.2, written.1]

theorem list_of_pinnedWrite {key : Int32} {order : PinnedOrder}
    (written : pinnedWrite kind = some (key, some order)) : order.list = key := by
  cases kind <;> simp [pinnedWrite] at written
  rw [← written.2, written.1]

theorem linkId_of_invitesWrite {key : Bytes} {invite : GroupInvite}
    (written : invitesWrite kind = some (key, some invite)) : invite.linkId = key := by
  cases kind <;> simp [invitesWrite] at written
  rw [← written.2, written.1]

theorem ref_of_cloudContainersWrite {key : String ×ₗ Bytes} {container : CloudContainer}
    (written : cloudContainersWrite kind = some (key, some container)) :
    ∃ ref, container.ref = some ref ∧ toLex (ref.domain, ref.id) = key := by
  cases kind <;> simp [cloudContainersWrite] at written
  obtain ⟨ref, isRef, isKey, rfl⟩ := written
  exact ⟨ref, isRef, isKey⟩

theorem setId_of_stickerPacksWrite {key : String} {pack : StickerPack}
    (written : stickerPacksWrite kind = some (key, some pack)) : pack.setId = key := by
  cases kind <;> simp [stickerPacksWrite] at written
  rw [← written.2, written.1]

theorem peer_of_clearedWrite {key : String} {cleared : ChatCleared}
    (written : clearedWrite kind = some (key, cleared)) : optPeerKey cleared.peer = .ok key := by
  cases kind <;> simp only [clearedWrite, reduceCtorEq] at written
  next mark =>
    cases isKey : optPeerKey mark.peer with
    | error error =>
        rw [isKey] at written
        cases written
    | ok found =>
        rw [isKey] at written
        cases written
        exact isKey

end

end Parvane.State
