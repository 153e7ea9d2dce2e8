import Parvane.Cloud.View
import Parvane.Foundation.Register

/-!
# Convergence of the cloud tree

An accepted operation offers values to registers of one node, or a title to the
container.  Every register keeps the best offer in an order that tells offers
apart, so the state depends only on which operations were applied.

A batch is taken or refused as a whole by its stamps and blobs.  Batches whose
operations are stamped by the device of their author and bring only the author's
own blobs are never refused, and then their boundaries leave no trace.
-/

namespace Parvane.Cloud

open Wire Domain Convergence

/-! ## Contents -/

/-- Contents that passed the checks. -/
def CheckedBody (value : Body) : Prop :=
  ∃ stamp blob thumb mtimeMs, checkBlob blob = .ok () ∧
    checkThumbOption thumb = .ok () ∧ value = body stamp blob thumb mtimeMs

theorem bytes_ne_nil {number : Nat} {value : Bytes}
    (nonempty : value ≠ []) : bytes number value = [⟨number, .delimited value⟩] := by
  simp [bytes, nonempty]

theorem string_of_nonempty {number : Nat} {text : String}
    (nonempty : text.isEmpty = false) :
    string number text = [⟨number, .delimited (utf8 text)⟩] := by
  apply bytes_ne_nil
  intro empty
  have isEmpty : text = "" := (utf8_inj text "").1 empty
  rw [isEmpty] at nonempty
  cases nonempty

/-- Fields of two messages in a row can be told apart when the first field of
each has number 1 and no other field has. -/
theorem append_inj_of_head
    {firstHead secondHead : Field} {firstTail secondTail firstRest secondRest : List Field}
    (firstTailNumbers : ∀ field ∈ firstTail, field.number ≠ 1)
    (secondTailNumbers : ∀ field ∈ secondTail, field.number ≠ 1)
    (firstRestHead : ∀ field ∈ firstRest.head?, field.number = 1)
    (secondRestHead : ∀ field ∈ secondRest.head?, field.number = 1)
    (equal : firstHead :: (firstTail ++ firstRest) =
      secondHead :: (secondTail ++ secondRest)) :
    firstHead :: firstTail = secondHead :: secondTail ∧ firstRest = secondRest := by
  have split (tail rest : List Field)
      (tailNumbers : ∀ field ∈ tail, field.number ≠ 1)
      (restHead : ∀ field ∈ rest.head?, field.number = 1) :
      (tail ++ rest).takeWhile (fun field => field.number ≠ 1) = tail ∧
        (tail ++ rest).dropWhile (fun field => field.number ≠ 1) = rest := by
    have inside : ∀ field ∈ tail, decide (field.number ≠ 1) = true :=
      fun field member => decide_eq_true (tailNumbers field member)
    rw [List.takeWhile_append_of_pos inside, List.dropWhile_append_of_pos inside]
    cases rest with
    | nil => simp
    | cons head rest =>
        have headNumber := restHead head rfl
        simp [headNumber]
  obtain ⟨heads, tails⟩ := List.cons.inj equal
  obtain ⟨firstTake, firstDrop⟩ := split firstTail firstRest firstTailNumbers firstRestHead
  obtain ⟨secondTake, secondDrop⟩ :=
    split secondTail secondRest secondTailNumbers secondRestHead
  rw [tails] at firstTake firstDrop
  exact ⟨by rw [heads, ← firstTake, secondTake], by rw [← firstDrop, secondDrop]⟩

theorem blob_fields_eq_cons {blob : CloudBlobRef}
    (checked : checkBlob blob = .ok ()) :
    ∃ head tail, Message.fields blob = head :: tail ∧
      ∀ field ∈ tail, field.number ≠ 1 := by
  have fileId : blob.fileId.isEmpty = false := by
    simp only [checkBlob, bind_eq_ok, require_eq_ok] at checked
    obtain ⟨_, present, -⟩ := checked
    simp only [Bool.and_eq_true, Bool.not_eq_true'] at present
    exact present.1.1.1
  refine ⟨⟨1, .delimited (utf8 blob.fileId)⟩,
    bytes 2 blob.key ++ uint64 3 blob.size ++ uint32 4 blob.chunks ++
      string 5 blob.mime ++ bytes 6 blob.sha256 ++ bytes 7 blob.nonce ++
      bytes 8 blob.capability ++ string 9 blob.uploader, ?_, ?_⟩
  · simp [Message.fields, string_of_nonempty fileId]
  · intro field member isOne
    have selected : field ∈ select 1 (bytes 2 blob.key ++ uint64 3 blob.size ++
        uint32 4 blob.chunks ++ string 5 blob.mime ++ bytes 6 blob.sha256 ++
        bytes 7 blob.nonce ++ bytes 8 blob.capability ++ string 9 blob.uploader) :=
      List.mem_filter.2 ⟨member, decide_eq_true isOne⟩
    simp at selected

/-- The fields of a thumbnail, if there is one. -/
def thumbFields (thumb : Option CloudThumb) : List Field :=
  thumb.elim [] Message.fields

theorem thumbFields_head {thumb : Option CloudThumb}
    (checked : checkThumbOption thumb = .ok ()) :
    (thumb.isSome -> thumbFields thumb ≠ []) ∧
      ∀ field ∈ (thumbFields thumb).head?, field.number = 1 := by
  cases thumb with
  | none => simp [thumbFields]
  | some thumb =>
      have fileId : thumb.fileId.isEmpty = false := by
        simp only [checkThumbOption, checkThumb, require_eq_ok, Bool.and_eq_true,
          Bool.not_eq_true'] at checked
        exact checked.1.1
      simp [thumbFields, Message.fields, string_of_nonempty fileId]

theorem thumbFields_inj {first second : Option CloudThumb}
    (firstChecked : checkThumbOption first = .ok ())
    (secondChecked : checkThumbOption second = .ok ())
    (equal : thumbFields first = thumbFields second) : first = second := by
  have firstNonempty := (thumbFields_head firstChecked).1
  have secondNonempty := (thumbFields_head secondChecked).1
  cases first with
  | none =>
      cases second with
      | none => rfl
      | some _ => exact absurd equal.symm (secondNonempty rfl)
  | some first =>
      cases second with
      | none => exact absurd equal (firstNonempty rfl)
      | some second => rw [Message.fields_injective equal]

theorem encode_thumb (thumb : Option CloudThumb) :
    thumb.elim [] encode = encodeFields (thumbFields thumb) := by
  cases thumb <;> rfl

/-- The byte string that orders contents determines them. -/
theorem bodyKey_injOn : Set.InjOn Body.key { value | CheckedBody value } := by
  rintro _ ⟨firstStamp, firstBlob, firstThumb, firstTime, firstChecked, firstThumbChecked, rfl⟩
    _ ⟨secondStamp, secondBlob, secondThumb, secondTime, secondChecked, secondThumbChecked, rfl⟩
    equal
  simp only [Body.key, body, EmbeddingLike.apply_eq_iff_eq, Prod.mk.injEq] at equal
  obtain ⟨stamps, contents⟩ := equal
  obtain ⟨messages, times⟩ := List.append_inj' contents (by simp)
  simp only [encode_thumb, encode, ← encodeFields_append] at messages
  have fieldsEq := encodeFields_injective messages
  obtain ⟨firstHead, firstTail, firstFields, firstNumbers⟩ := blob_fields_eq_cons firstChecked
  obtain ⟨secondHead, secondTail, secondFields, secondNumbers⟩ :=
    blob_fields_eq_cons secondChecked
  rw [firstFields, secondFields] at fieldsEq
  obtain ⟨blobsEq, thumbsEq⟩ := append_inj_of_head firstNumbers secondNumbers
    (thumbFields_head firstThumbChecked).2 (thumbFields_head secondThumbChecked).2 fieldsEq
  have blobs : firstBlob = secondBlob :=
    Message.fields_injective (firstFields.trans (blobsEq.trans secondFields.symm))
  rw [stamps, blobs, bigEndian64_injective times,
    thumbFields_inj firstThumbChecked secondThumbChecked thumbsEq]

/-! ## Registers of a node -/

theorem putMax_eq_keepGreatest [LinearOrder α] (slot : Option α) (value : α) :
    putMax slot value = keepGreatest id slot value := by
  cases slot with
  | none => rfl
  | some current =>
      by_cases newer : current < value
      · simp [putMax, keepGreatest_some, newer, not_le.2 newer]
      · simp [putMax, keepGreatest_some, newer, not_lt.1 newer]

theorem putCreated_eq_keepGreatest (slot : Option Created) (value : Created) :
    putCreated slot value =
      keepGreatest (fun created => OrderDual.toDual (createdKey created)) slot value := by
  cases slot with
  | none => rfl
  | some current =>
      by_cases older : createdKey value < createdKey current
      · simp [putCreated, keepGreatest_some, older, not_le.2 older]
      · simp [putCreated, keepGreatest_some, older, not_lt.1 older]

theorem putBody_eq_keepGreatest (slot : Option Body) (value : Body) :
    putBody slot value = keepGreatest Body.key slot value := by
  cases slot with
  | none => rfl
  | some current =>
      by_cases newer : current.key < value.key
      · simp [putBody, keepGreatest_some, newer, not_le.2 newer]
      · simp [putBody, keepGreatest_some, newer, not_lt.1 newer]

theorem putPurged_eq_keepGreatest (slot : Option UInt64) (value : UInt64) :
    some (slot.elim value (min · value)) =
      keepGreatest OrderDual.toDual slot value := by
  cases slot with
  | none => rfl
  | some current =>
      by_cases earlier : value < current
      · simp [keepGreatest_some, earlier, earlier.le]
      · simp [keepGreatest_some, earlier, not_lt.1 earlier]

theorem createdKey_injective : Function.Injective createdKey := by
  intro first second equal
  simp only [createdKey, EmbeddingLike.apply_eq_iff_eq, Prod.mk.injEq] at equal
  exact Prod.ext equal.1 (CloudNodeKind.toNat_injective equal.2)

/-- What an operation offers to the registers of a node. -/
structure NodeOffer where
  created : Option Created
  place : Option Place
  body : Option Body
  trash : Option Trash
  purgedAt : Option UInt64

namespace NodeOffer

/-- Nothing offered. -/
def none : NodeOffer where
  created := .none
  place := .none
  body := .none
  trash := .none
  purgedAt := .none

end NodeOffer

/-- The registers after an offer. -/
def Node.take (node : Node) (offer : NodeOffer) : Node where
  created := offer.created.elim node.created (putCreated node.created)
  place := offer.place.elim node.place (putMax node.place)
  body := offer.body.elim node.body (putBody node.body)
  trash := offer.trash.elim node.trash (putMax node.trash)
  purgedAt := offer.purgedAt.elim node.purgedAt
    fun at_ => some (node.purgedAt.elim at_ (min · at_))

/-- A register that keeps the best of what it is offered, in an order that tells
all values apart. -/
theorem optional_commutesOn [LinearOrder κ]
    {rank : ν -> κ} (put : Option ν -> ν -> Option ν)
    (put_eq : ∀ slot value, put slot value = keepGreatest rank slot value) {values : Set ν}
    (rank_injOn : Set.InjOn rank values) (view : α -> Option ν) :
    CommutesOn (fun slot operation => (view operation).elim slot (put slot))
      (fun slot => ∀ value ∈ slot, value ∈ values)
      (fun operation => ∀ value ∈ view operation, value ∈ values) := by
  have puts : put = keepGreatest rank := funext fun slot => funext (put_eq slot)
  rw [puts]
  exact (keepGreatest_commutesOn rank rank_injOn).optional view

/-- Contents that a node holds or an operation offers are checked. -/
def Checked (slot : Option Body) : Prop :=
  ∀ value ∈ slot, CheckedBody value

theorem take_commutesOn :
    CommutesOn Node.take (fun node => Checked node.body)
      (fun offer => Checked offer.body) := by
  have created := optional_commutesOn putCreated putCreated_eq_keepGreatest
    ((OrderDual.toDual.injective.comp createdKey_injective).injOn (s := Set.univ))
    NodeOffer.created
  have place := optional_commutesOn putMax putMax_eq_keepGreatest
    (Function.injective_id.injOn (s := Set.univ)) NodeOffer.place
  have body := optional_commutesOn putBody putBody_eq_keepGreatest bodyKey_injOn NodeOffer.body
  have trash := optional_commutesOn putMax putMax_eq_keepGreatest
    (Function.injective_id.injOn (s := Set.univ)) NodeOffer.trash
  have purgedAt := optional_commutesOn
    (fun slot at_ => some (slot.elim at_ (min · at_))) putPurged_eq_keepGreatest
    (OrderDual.toDual.injective.injOn (s := Set.univ)) NodeOffer.purgedAt
  have all {ν : Type} (slot : Option ν) : ∀ value ∈ slot, value ∈ Set.univ :=
    fun _ _ => trivial
  refine ⟨?_, ?_, ?_⟩
  · intro node offer checked offered
    exact body.preserves node.body offer checked offered
  · intro node first second checked firstOffered secondOffered
    exact Node.ext (created.comm _ _ _ (all _) (all _) (all _))
      (place.comm _ _ _ (all _) (all _) (all _))
      (body.comm _ _ _ checked firstOffered secondOffered)
      (trash.comm _ _ _ (all _) (all _) (all _))
      (purgedAt.comm _ _ _ (all _) (all _) (all _))
  · intro node offer checked offered
    exact Node.ext (created.absorbs _ _ (all _) (all _))
      (place.absorbs _ _ (all _) (all _))
      (body.absorbs _ _ checked offered)
      (trash.absorbs _ _ (all _) (all _))
      (purgedAt.absorbs _ _ (all _) (all _))

/-! ## Operations as offers -/

/-- What an accepted operation offers. -/
inductive Offer
  | toNode (id : NodeId) (offer : NodeOffer)
  | toTitle (title : Stamp ×ₗ String)

/-- The checks of an operation, and what it offers when they pass. -/
def offerOf (op : CloudOp) : Result Offer := do
  match ← present op.op (.invalidField "op") with
  | .create create =>
      let id ← nodeId create.nodeId
      let parent ← parentId create.parentId
      let stamp ← Stamp.fromPb create.stamp
      checkName create.name
      let kind ← checkCreateKind create
      return .toNode id { NodeOffer.none with
        created := some (stamp, kind)
        place := some ⟨stamp, parent, create.name⟩
        body := create.blob.map fun blob => body stamp blob create.thumb create.mtimeMs }
  | .move move =>
      let id ← nodeId move.nodeId
      let parent ← parentId move.parentId
      let stamp ← Stamp.fromPb move.stamp
      checkName move.name
      return .toNode id { NodeOffer.none with place := some ⟨stamp, parent, move.name⟩ }
  | .setBlob setBlob =>
      let id ← nodeId setBlob.nodeId
      let stamp ← Stamp.fromPb setBlob.stamp
      let blob ← present setBlob.blob (.invalidField "blob")
      checkBlob blob
      checkThumbOption setBlob.thumb
      return .toNode id { NodeOffer.none with
        body := some (body stamp blob setBlob.thumb setBlob.mtimeMs) }
  | .trash trash =>
      let id ← nodeId trash.nodeId
      let stamp ← Stamp.fromPb trash.stamp
      return .toNode id { NodeOffer.none with
        trash := some ⟨stamp, trash.trashed, trash.atMs⟩ }
  | .purge purge =>
      let id ← nodeId purge.nodeId
      let _ ← Stamp.fromPb purge.stamp
      return .toNode id { NodeOffer.none with purgedAt := some purge.atMs }
  | .setMeta setMeta =>
      let stamp ← Stamp.fromPb setMeta.stamp
      checkName setMeta.name
      return .toTitle (toLex (stamp, setMeta.name))
  | .delete _ => .error (.invalidField "op")

/-- The state after an offer. -/
def CloudState.take (state : CloudState) : Offer -> CloudState
  | .toNode id offer => state.onNode id fun node => node.take offer
  | .toTitle title => { state with title := putMax state.title title }

/-- An operation is refused with no effect, or its offer is taken. -/
theorem apply_checksFirst (op : CloudOp) :
    Update.ChecksFirst (apply op) (offerOf op) CloudState.take := by
  refine Update.checksFirst_bind fun change => ?_
  cases change with
  | create create =>
      refine Update.checksFirst_bind fun id => ?_
      refine Update.checksFirst_bind fun parent => ?_
      refine Update.checksFirst_bind fun stamp => ?_
      refine Update.checksFirst_bind fun _ => ?_
      refine Update.checksFirst_bind fun kind => ?_
      refine Update.checksFirst_modify fun state => ?_
      cases create.blob <;> rfl
  | move move =>
      refine Update.checksFirst_bind fun id => ?_
      refine Update.checksFirst_bind fun parent => ?_
      refine Update.checksFirst_bind fun stamp => ?_
      refine Update.checksFirst_bind fun _ => ?_
      exact Update.checksFirst_modify fun _ => rfl
  | setBlob setBlob =>
      refine Update.checksFirst_bind fun id => ?_
      refine Update.checksFirst_bind fun stamp => ?_
      refine Update.checksFirst_bind fun blob => ?_
      refine Update.checksFirst_bind fun _ => ?_
      refine Update.checksFirst_bind fun _ => ?_
      exact Update.checksFirst_modify fun _ => rfl
  | trash trash =>
      refine Update.checksFirst_bind fun id => ?_
      refine Update.checksFirst_bind fun stamp => ?_
      exact Update.checksFirst_modify fun _ => rfl
  | purge purge =>
      refine Update.checksFirst_bind fun id => ?_
      refine Update.checksFirst_bind fun _ => ?_
      exact Update.checksFirst_modify fun _ => rfl
  | setMeta setMeta =>
      refine Update.checksFirst_bind fun stamp => ?_
      refine Update.checksFirst_bind fun _ => ?_
      exact Update.checksFirst_modify fun _ => rfl
  | delete _ => exact Update.checksFirst_throw _ _

/-- Contents come with an offer only after they were checked. -/
def Offer.Checked : Offer -> Prop
  | .toNode _ offer => Cloud.Checked offer.body
  | .toTitle _ => True

theorem checked_of_checkCreateKind {create : CloudCreate} {kind : CloudNodeKind}
    (checked : checkCreateKind create = .ok kind) :
    ∀ blob ∈ create.blob,
      checkBlob blob = .ok () ∧ checkThumbOption create.thumb = .ok () := by
  intro blob blobEq
  simp only [checkCreateKind, bind_eq_ok] at checked
  obtain ⟨found, -, checked⟩ := checked
  cases found with
  | unspecified => cases checked
  | folder =>
      simp only [bind_eq_ok, require_eq_ok] at checked
      obtain ⟨_, noBlob, -⟩ := checked
      rw [Option.mem_def.1 blobEq] at noBlob
      cases noBlob
  | file =>
      simp only [bind_eq_ok, present_eq_ok] at checked
      obtain ⟨other, otherEq, _, blobChecked, _, thumbChecked, -⟩ := checked
      rw [Option.mem_def.1 blobEq] at otherEq
      cases otherEq
      exact ⟨blobChecked, thumbChecked⟩

theorem offerOf_checked {op : CloudOp} {offer : Offer}
    (accepted : offerOf op = .ok offer) : offer.Checked := by
  simp only [offerOf, bind_eq_ok] at accepted
  obtain ⟨change, -, accepted⟩ := accepted
  cases change with
  | create create =>
      simp only [bind_eq_ok] at accepted
      obtain ⟨id, -, parent, -, stamp, -, _, -, kind, kindChecked, returned⟩ := accepted
      cases returned
      intro value member
      obtain ⟨blob, blobEq, rfl⟩ := Option.map_eq_some_iff.1 member
      obtain ⟨blobChecked, thumbChecked⟩ := checked_of_checkCreateKind kindChecked blob blobEq
      exact ⟨stamp, blob, create.thumb, create.mtimeMs, blobChecked, thumbChecked, rfl⟩
  | move move =>
      simp only [bind_eq_ok] at accepted
      obtain ⟨id, -, parent, -, stamp, -, _, -, returned⟩ := accepted
      cases returned
      intro value member
      cases member
  | setBlob setBlob =>
      simp only [bind_eq_ok] at accepted
      obtain ⟨id, -, stamp, -, blob, -, _, blobChecked, _, thumbChecked, returned⟩ := accepted
      cases returned
      intro value member
      cases member
      exact ⟨stamp, blob, setBlob.thumb, setBlob.mtimeMs, blobChecked, thumbChecked, rfl⟩
  | trash trash =>
      simp only [bind_eq_ok] at accepted
      obtain ⟨id, -, stamp, -, returned⟩ := accepted
      cases returned
      intro value member
      cases member
  | purge purge =>
      simp only [bind_eq_ok] at accepted
      obtain ⟨id, -, stamp, -, returned⟩ := accepted
      cases returned
      intro value member
      cases member
  | setMeta setMeta =>
      simp only [bind_eq_ok] at accepted
      obtain ⟨stamp, -, _, -, returned⟩ := accepted
      cases returned
      trivial
  | delete _ => cases accepted

/-! ## Convergence of offers -/

/-- The node an offer is for. -/
def Offer.node? : Offer -> Option (NodeId × NodeOffer)
  | .toNode id offer => some (id, offer)
  | .toTitle _ => none

/-- The title an offer brings. -/
def Offer.title? : Offer -> Option (Stamp ×ₗ String)
  | .toNode _ _ => none
  | .toTitle title => some title

theorem nodesTake_commutesOn :
    CommutesOn
      (alterAt (fun offer : Offer => offer.node?.map Prod.fst)
        (fun slot offer => some ((slot.getD Node.empty).take
          ((offer.node?.map Prod.snd).getD .none))))
      (fun nodes => ∀ id : NodeId, Checked (nodes[id]?.getD Node.empty).body)
      Offer.Checked := by
  refine alterAt_commutesOn
    (fun _ (slot : Option Node) => Checked (slot.getD Node.empty).body) fun id => ?_
  refine ((take_commutesOn.defaulted Node.empty).comap
    fun offer : Offer => (offer.node?.map Prod.snd).getD .none).mono ?_
  rintro (⟨_, offer⟩ | _) ⟨checked, addressed⟩
  · exact checked
  · cases addressed

/-- Offers may be taken in any order and repeatedly. -/
theorem stateTake_commutesOn :
    CommutesOn CloudState.take
      (fun state => ∀ id : NodeId, Checked (state.nodes[id]?.getD Node.empty).body)
      Offer.Checked := by
  have titles := optional_commutesOn putMax putMax_eq_keepGreatest
    (Function.injective_id.injOn (s := Set.univ)) Offer.title?
  have all {ν : Type} (slot : Option ν) : ∀ value ∈ slot, value ∈ Set.univ :=
    fun _ _ => trivial
  have nodes (state : CloudState) (offer : Offer) :
      (state.take offer).nodes =
        alterAt (fun offer : Offer => offer.node?.map Prod.fst)
          (fun slot offer => some ((slot.getD Node.empty).take
            ((offer.node?.map Prod.snd).getD .none))) state.nodes offer := by
    cases offer <;> rfl
  have title (state : CloudState) (offer : Offer) :
      (state.take offer).title = offer.title?.elim state.title (putMax state.title) := by
    cases offer <;> rfl
  refine ⟨?_, ?_, ?_⟩
  · intro state offer holds checked
    rw [nodes]
    exact nodesTake_commutesOn.preserves _ _ holds checked
  · intro state first second holds firstChecked secondChecked
    apply CloudState.ext
    · simp only [nodes]
      exact nodesTake_commutesOn.comm _ _ _ holds firstChecked secondChecked
    · simp only [title]
      exact titles.comm _ _ _ (all _) (all _) (all _)
  · intro state offer holds checked
    apply CloudState.ext
    · simp only [nodes]
      exact nodesTake_commutesOn.absorbs _ _ holds checked
    · simp only [title]
      exact titles.absorbs _ _ (all _) (all _)

/-! ## Batches -/

/-- What the accepted ones among some operations offer. -/
def offers (ops : List CloudOp) : List Offer :=
  ops.filterMap fun op => (offerOf op).toOption

theorem applyOps_eq_foldl (ops : List CloudOp) (state : CloudState) :
    (applyOps ops state).2 = (offers ops).foldl CloudState.take state := by
  induction ops generalizing state with
  | nil => rfl
  | cons op ops inductionHypothesis =>
      have ran := apply_checksFirst op state
      cases offered : offerOf op with
      | error error =>
          rw [offered] at ran
          simp [applyOps, ran, offers, offered, Except.toOption, inductionHypothesis]
      | ok offer =>
          rw [offered] at ran
          simp [applyOps, ran, offers, offered, Except.toOption, inductionHypothesis]

/-- The final state depends only on which operations were applied. -/
theorem applyOps_of_sameMembers {first second : List CloudOp}
    (same : SameMembers first second) : (applyOps first .new).2 = (applyOps second .new).2 := by
  rw [applyOps_eq_foldl, applyOps_eq_foldl]
  apply stateTake_commutesOn.foldl_eq_of_sameMembers
  · intro id
    simp [CloudState.new, Node.empty, Checked]
  · intro offer member
    obtain ⟨op, -, offered⟩ := List.mem_filterMap.1 member
    cases result : offerOf op with
    | error error =>
        rw [result] at offered
        cases offered
    | ok other =>
        rw [result] at offered
        cases offered
        exact offerOf_checked result
  · intro offer
    simp only [offers, List.mem_filterMap, same _]

/-- The operation carries a stamp of its author's device and brings no blob but
the author's own. -/
def Authored (author : Author) (op : CloudOp) : Prop :=
  (∃ stamp, Stamp.fromPb (opStamp op) = .ok stamp ∧ stamp.deviceId = author.deviceId) ∧
    ∀ blob ∈ opBlob op, blob.uploader ∈ author.names

/-- The operations of some batches with their authors. -/
def operations (batches : List (Author × CloudBatch)) : List (Author × CloudOp) :=
  batches.flatMap fun (author, batch) => batch.ops.map (author, ·)

/-- Apply batches one after the other. -/
def applyBatches (batches : List (Author × CloudBatch)) (state : CloudState) : CloudState :=
  batches.foldl (fun state (author, batch) => ((applyBatchFrom batch author).exec state).2) state

theorem batchStamps_of_authored {author : Author} {batch : CloudBatch}
    (nonempty : batch.ops ≠ [])
    (authored : ∀ op ∈ batch.ops, Authored author op) :
    ∃ stamps, batchStamps batch = .ok stamps ∧
      ∀ stamp ∈ stamps, stamp.deviceId = author.deviceId := by
  have each (ops : List CloudOp) (inside : ∀ op ∈ ops, Authored author op) :
      ∃ stamps, (ops.mapM fun op => Stamp.fromPb (opStamp op)) = .ok stamps ∧
        ∀ stamp ∈ stamps, stamp.deviceId = author.deviceId := by
    induction ops with
    | nil => exact ⟨[], rfl, by simp⟩
    | cons op ops inductionHypothesis =>
        obtain ⟨⟨stamp, stampEq, device⟩, -⟩ := inside op List.mem_cons_self
        obtain ⟨stamps, stampsEq, devices⟩ := inductionHypothesis
          fun other member => inside other (List.mem_cons_of_mem _ member)
        refine ⟨stamp :: stamps, ?_, ?_⟩
        · rw [List.mapM_cons, stampEq, stampsEq]
          rfl
        · intro other member
          rcases List.mem_cons.1 member with rfl | member
          · exact device
          · exact devices other member
  obtain ⟨stamps, stampsEq, devices⟩ := each batch.ops authored
  refine ⟨stamps, ?_, devices⟩
  simp only [batchStamps, bind_eq_ok, require_eq_ok]
  exact ⟨(), by simp [nonempty], stampsEq⟩

/-- A batch of authored operations is applied as its operations are. -/
theorem applyBatchFrom_of_authored {author : Author} {batch : CloudBatch}
    (authored : ∀ op ∈ batch.ops, Authored author op) (state : CloudState) :
    ((applyBatchFrom batch author).exec state).2 = (applyOps batch.ops state).2 := by
  have uploads : (batch.ops.all fun op => (opBlob op).all fun blob =>
      author.names.any (· == blob.uploader)) = true := by
    rw [List.all_eq_true]
    intro op member
    have own := (authored op member).2
    cases blobEq : opBlob op with
    | none => rfl
    | some blob =>
        simp only [Option.all_some, List.any_eq_true, beq_iff_eq, exists_eq_right]
        exact own blob blobEq
  by_cases empty : batch.ops = []
  · have refused : batchStamps batch = .error (.invalidField "ops") := by
      rw [batchStamps, empty]
      rfl
    simp only [applyBatchFrom, applyBatch, Update.exec_bind, Update.exec_liftM,
      List.all_nil, refused, require, if_true, empty, applyOps]
  · obtain ⟨stamps, stampsEq, devices⟩ := batchStamps_of_authored empty authored
    have ownStamps : (stamps.all fun stamp => stamp.deviceId == author.deviceId) = true := by
      simpa using devices
    simp only [applyBatchFrom, applyBatch, Update.exec_bind, Update.exec_liftM,
      Update.exec_modifyGet, uploads, stampsEq, ownStamps, require, if_true]

theorem applyBatches_of_authored
    (batches : List (Author × CloudBatch))
    (authored : ∀ pair ∈ operations batches, Authored pair.1 pair.2) (state : CloudState) :
    applyBatches batches state =
      (applyOps ((operations batches).map Prod.snd) state).2 := by
  induction batches generalizing state with
  | nil => rfl
  | cons head batches inductionHypothesis =>
      obtain ⟨author, batch⟩ := head
      have headAuthored : ∀ op ∈ batch.ops, Authored author op := by
        intro op member
        exact authored (author, op) (by simp [operations, member])
      have tailAuthored : ∀ pair ∈ operations batches, Authored pair.1 pair.2 := by
        intro pair member
        exact authored pair (List.mem_flatMap.2
          (by
            obtain ⟨other, otherMember, inside⟩ := List.mem_flatMap.1 member
            exact ⟨other, List.mem_cons_of_mem _ otherMember, inside⟩))
      have split : ((operations ((author, batch) :: batches)).map Prod.snd) =
          batch.ops ++ (operations batches).map Prod.snd := by
        simp [operations]
      rw [split, applyOps_eq_foldl, offers, List.filterMap_append, List.foldl_append,
        ← offers, ← offers, ← applyOps_eq_foldl, ← applyOps_eq_foldl,
        ← applyBatchFrom_of_authored headAuthored]
      exact inductionHypothesis tailAuthored _

/-- Operations give one state and one tree in whatever order and however often
they are applied; authored operations do so also in whatever batches. -/
theorem cloud_converges
    (ops : List (Author × CloudOp))
    (order : List CloudOp)
    (batches : List (Author × CloudBatch))
    (sameOrder : SameMembers order (ops.map Prod.snd))
    (sameBatches : SameMembers (operations batches) ops) :
    ((applyOps order .new).2 = (applyOps (ops.map Prod.snd) .new).2 ∧
      (applyOps order .new).2.view = (applyOps (ops.map Prod.snd) .new).2.view) ∧
    ((∀ pair ∈ ops, Authored pair.1 pair.2) ->
      applyBatches batches .new = (applyOps (ops.map Prod.snd) .new).2 ∧
        (applyBatches batches .new).view = (applyOps (ops.map Prod.snd) .new).2.view) := by
  constructor
  · have statesEq := applyOps_of_sameMembers sameOrder
    exact ⟨statesEq, congrArg CloudState.view statesEq⟩
  · intro authored
    have statesEq : applyBatches batches .new = (applyOps (ops.map Prod.snd) .new).2 := by
      rw [applyBatches_of_authored batches (sameBatches.symm.forall_mem authored)]
      apply applyOps_of_sameMembers
      intro op
      simp only [List.mem_map, sameBatches _]
    exact ⟨statesEq, congrArg CloudState.view statesEq⟩

/-- An author with one device. -/
def sampleAuthor : Author where
  user := "alice@local"
  deviceId := "d1"
  aliases := []

/-- The creation of a folder on the author's device. -/
def sampleCreate : CloudOp where
  op := some (.create {
    nodeId := List.replicate 16 1
    kind := 1
    parentId := []
    name := "a"
    blob := none
    stamp := some ⟨1, "d1"⟩
    thumb := none
    mtimeMs := 0 })

/-- A later rename of the folder, stamped by the given device. -/
def sampleMove (deviceId : String) : CloudOp where
  op := some (.move {
    nodeId := List.replicate 16 1
    parentId := []
    name := "b"
    stamp := some ⟨2, deviceId⟩ })

/-- The rename in a batch of its own and again after the creation. -/
theorem cloud_converges_sample :
    applyBatches
        [(sampleAuthor, ⟨[sampleMove "d1"]⟩),
          (sampleAuthor, ⟨[sampleCreate, sampleMove "d1"]⟩)] .new =
      (applyOps [sampleCreate, sampleMove "d1"] .new).2 :=
  ((cloud_converges
    [(sampleAuthor, sampleCreate), (sampleAuthor, sampleMove "d1")]
    [sampleMove "d1", sampleCreate]
    [(sampleAuthor, ⟨[sampleMove "d1"]⟩),
      (sampleAuthor, ⟨[sampleCreate, sampleMove "d1"]⟩)]
    (by
      intro op
      simp only [List.map_cons, List.map_nil, List.mem_cons, List.not_mem_nil, or_false]
      exact or_comm)
    (by
      intro pair
      simp only [operations, List.flatMap_cons, List.flatMap_nil, List.map_cons, List.map_nil,
        List.mem_append, List.mem_cons, List.not_mem_nil, or_false]
      tauto)).2
    (by
      simp only [List.mem_cons, List.not_mem_nil, or_false, forall_eq_or_imp, forall_eq]
      refine ⟨⟨⟨⟨1, "d1"⟩, by decide, rfl⟩, ?_⟩, ⟨⟨⟨2, "d1"⟩, by decide, rfl⟩, ?_⟩⟩
      · intro blob member
        cases member
      · intro blob member
        cases member)).1

/-- A stamp of another device refuses its whole batch, so that a good operation
is lost or kept depending on where the batches are cut. -/
theorem batches_matter :
    SameMembers
        (operations [(sampleAuthor, ⟨[sampleCreate, sampleMove "d2"]⟩)])
        (operations [(sampleAuthor, ⟨[sampleCreate]⟩), (sampleAuthor, ⟨[sampleMove "d2"]⟩)]) ∧
      applyBatches [(sampleAuthor, ⟨[sampleCreate, sampleMove "d2"]⟩)] .new ≠
        applyBatches
          [(sampleAuthor, ⟨[sampleCreate]⟩), (sampleAuthor, ⟨[sampleMove "d2"]⟩)] .new := by
  refine ⟨?_, by decide⟩
  intro pair
  simp [operations]

end Parvane.Cloud
