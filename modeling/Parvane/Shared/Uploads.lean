import Parvane.Cloud.Purged
import Parvane.Federation.Signatures
import Parvane.Shared.Agreement
import Parvane.Shared.Snapshots

/-!
# Whose uploads are erased

A client erases the contents of files that were deleted for good, if they are uploads of its own
user.  An operation may only bring uploads of its author.  A snapshot brings registers without
the operations that have written them.
-/

namespace Parvane

namespace Cloud

open Domain

/-- The contents of all nodes are of a kind. -/
def CloudState.Holds (allowed : NodeId -> Body -> Prop) (state : CloudState) : Prop :=
  ∀ id body, state.nodes[id]?.bind Node.body = some body -> allowed id body

/-- An offer brings contents of a kind only. -/
def Offer.Brings (allowed : NodeId -> Body -> Prop) : Offer -> Prop
  | .toNode id offer => ∀ body ∈ offer.body, allowed id body
  | .toTitle _ => True

variable {allowed : NodeId -> Body -> Prop}

theorem holds_new : CloudState.new.Holds allowed := by
  intro id body held
  cases held

theorem CloudState.Holds.take {state : CloudState} {offer : Offer}
    (holds : state.Holds allowed)
    (brings : offer.Brings allowed) : (state.take offer).Holds allowed := by
  cases offer with
  | toTitle title => exact holds
  | toNode target offer =>
      intro id body held
      rw [CloudState.take, getElem?_onNode] at held
      split at held
      · next same =>
          cases same
          have before : ∀ one ∈ (state.nodes[target]?.getD .empty).body, allowed target one := by
            intro one member
            cases found : state.nodes[target]? with
            | none =>
                rw [found] at member
                cases member
            | some node => exact holds target one (by simpa [found] using member)
          exact forall_mem_put putBody_eq_keepGreatest before brings body held
      · exact holds id body held

theorem CloudState.Holds.foldl_take {offers : List Offer} {state : CloudState}
    (holds : state.Holds allowed) (brings : ∀ offer ∈ offers, offer.Brings allowed) :
    (offers.foldl CloudState.take state).Holds allowed := by
  induction offers generalizing state with
  | nil => exact holds
  | cons offer offers inductionHypothesis =>
      obtain ⟨first, rest⟩ := List.forall_mem_cons.1 brings
      exact inductionHypothesis (holds.take first) rest

/-- An operation brings the contents that stand in it. -/
theorem blob_of_offerOf {op : CloudOp} {id : NodeId} {offer : NodeOffer}
    (offered : offerOf op = .ok (.toNode id offer)) :
    ∀ body ∈ offer.body, body.blob ∈ opBlob op := by
  simp only [offerOf, bind_eq_ok, present_eq_ok] at offered
  obtain ⟨change, isChange, offered⟩ := offered
  rw [opBlob, isChange]
  cases change with
  | create create =>
      simp only [bind_eq_ok] at offered
      obtain ⟨id, -, parent, -, stamp, -, _, -, kind, -, returned⟩ := offered
      cases returned
      intro value member
      obtain ⟨blob, isBlob, rfl⟩ := Option.map_eq_some_iff.1 member
      exact isBlob
  | setBlob setBlob =>
      simp only [bind_eq_ok, present_eq_ok] at offered
      obtain ⟨id, -, stamp, -, blob, isBlob, _, -, _, -, returned⟩ := offered
      cases returned
      rintro _ ⟨⟩
      exact isBlob
  | move move =>
      simp only [bind_eq_ok] at offered
      obtain ⟨id, -, parent, -, stamp, -, _, -, returned⟩ := offered
      cases returned
      rintro _ ⟨⟩
  | trash trash =>
      simp only [bind_eq_ok] at offered
      obtain ⟨id, -, stamp, -, returned⟩ := offered
      cases returned
      rintro _ ⟨⟩
  | purge purge =>
      simp only [bind_eq_ok] at offered
      obtain ⟨id, -, stamp, -, returned⟩ := offered
      cases returned
      rintro _ ⟨⟩
  | setMeta setMeta =>
      simp only [bind_eq_ok] at offered
      obtain ⟨stamp, -, _, -, returned⟩ := offered
      cases returned
  | delete delete => cases offered

/-- A batch of somebody else is refused, or it brings uploads of its author only. -/
theorem CloudState.Holds.applyBatchFrom {batch : CloudBatch} {author : Author} {state : CloudState}
    (holds : state.Holds allowed)
    (own : ∀ op ∈ batch.ops, ∀ id offer, offerOf op = .ok (.toNode id offer) ->
      ∀ body ∈ offer.body, body.blob.uploader ∈ author.names -> allowed id body) :
    ((Cloud.applyBatchFrom batch author).exec state).2.Holds allowed := by
  simp only [Cloud.applyBatchFrom, applyBatch, Update.exec_bind, Update.exec_liftM]
  cases uploads : require (batch.ops.all fun op => (opBlob op).all fun blob =>
      author.names.any (· == blob.uploader)) .contextMismatch with
  | error error => exact holds
  | ok _ =>
      cases batchStamps batch with
      | error error => exact holds
      | ok stamps =>
          simp only
          cases require (stamps.all fun stamp => stamp.deviceId == author.deviceId)
              ProtoError.contextMismatch with
          | error error => exact holds
          | ok _ =>
              simp only [Update.exec_modifyGet, applyOps_eq_foldl]
              refine holds.foldl_take fun offer member => ?_
              obtain ⟨op, inside, offered⟩ := offerOf_of_mem_offers member
              cases offer with
              | toTitle title => trivial
              | toNode id offer =>
                  intro body brought
                  have isUpload := blob_of_offerOf offered body brought
                  have owned := List.all_eq_true.1 ((require_eq_ok _ _ _).1 uploads) op inside
                  rw [Option.mem_def.1 isUpload] at owned
                  refine own op inside id offer offered body brought ?_
                  simpa using owned

end Cloud

namespace Shared

open Wire Sign Domain

/-! ## What operations do to the state -/

section

variable {σ β : Type} (kind : Kind σ β) (client : Client)

/-- The operations of a container that a client accepts and opens keep a property of the
state. -/
def KeptByOps (container : Option Ref × String) (holds : σ -> Prop) : Prop :=
  ∀ (access : ContainerAccess) op author key plain decoded state,
    identity access = container -> client.checkOpAuthor access op = .ok author ->
      openOp client.library op access.container key = .ok plain ->
        kind.decode plain = .ok decoded ->
          holds state -> holds ((kind.apply decoded author).exec state).2

variable {kind client}
variable {container : Option Ref × String} {holds : σ -> Prop}
variable (kept : KeptByOps kind client container holds)

include kept

theorem openOne_keeps {access : ContainerAccess} {op : ContainerOp} {author : Author}
    (keys : KeyRing) (core : Core σ) (sameContainer : identity access = container)
    (checked : client.checkOpAuthor access op = .ok author) (before : holds core.state) :
    holds (openOne kind client access keys op author core).2.state := by
  unfold openOne
  dsimp only
  split
  · exact before
  · next decoded opened =>
      simp only [bind_eq_ok] at opened
      obtain ⟨key, -, plain, isPlain, isDecoded⟩ := opened
      have after := kept access op author key plain decoded core.state sameContainer checked
        isPlain isDecoded before
      split
      · exact before
      · split
        · exact before
        · split
          · next applied =>
              rw [applied] at after
              exact after
          · next applied =>
              rw [applied] at after
              exact after

variable {replica : Local σ}

theorem ingestOp_keeps
    (strict : Bool) (op : ContainerOp) (out : Ingest)
    (sameContainer : identity replica.access = container) (before : holds replica.core.state) :
    holds (ingestOp kind client strict op replica out).1.core.state := by
  unfold ingestOp
  split
  · exact before
  · split
    · exact before
    · cases checked : client.checkOpAuthor replica.access op with
      | error error => cases error <;> exact before
      | ok author =>
          simp only
          split
          · exact before
          · split
            · exact before
            · have after := openOne_keeps kept replica.keys
                { replica.core with lastOpEpoch := op.keyEpoch } sameContainer checked before
              split
              · next opened =>
                  rw [opened] at after
                  exact after
              · next opened =>
                  rw [opened] at after
                  exact after

theorem ingestOps_keeps {strict : Bool} {ops : List ContainerOp} {out : Ingest}
    (sameContainer : identity replica.access = container) (before : holds replica.core.state) :
    holds (ingestOps kind client strict ops replica out).1.core.state := by
  induction ops generalizing replica out with
  | nil => exact before
  | cons op ops inductionHypothesis =>
      have after := ingestOp_keeps kept strict op out sameContainer before
      have sameAccess := (ingestOps_frame kind client strict [op] replica out).1
      rw [ingestOps] at sameAccess ⊢
      rcases taking : ingestOp kind client strict op replica out with ⟨next, later, _ | _⟩
      · rw [taking] at after
        exact after
      · rw [taking] at after sameAccess
        exact inductionHypothesis ((congrArg identity sameAccess).trans sameContainer) after

theorem retryOps_keeps {ops : List ContainerOp} {applied : Nat}
    (sameContainer : identity replica.access = container) (before : holds replica.core.state) :
    holds (retryOps kind client ops replica applied).1.core.state := by
  induction ops generalizing replica applied with
  | nil => exact before
  | cons op ops inductionHypothesis =>
      rw [retryOps]
      split
      · exact inductionHypothesis sameContainer before
      · split
        · exact inductionHypothesis sameContainer before
        · next author checked =>
            exact inductionHypothesis sameContainer
              (openOne_keeps kept _ _ sameContainer checked before)

theorem ingestGrants_keeps {entries : List SignedOp}
    (sameContainer : identity replica.access = container) (before : holds replica.core.state) :
    holds (ingestGrants kind client entries replica).core.state := by
  cases known : client.logsKnown entries with
  | false =>
      rw [ingestGrants, known, if_neg (by simp)]
      exact before
  | true =>
      rw [ingestGrants_eq kind client replica known, retryPending]
      obtain ⟨advances, same⟩ := beforeRetry_advances kind client ⟨[], [], []⟩ entries replica
      have sameCore : (beforeRetry kind client entries replica).core = replica.core :=
        (Prod.mk.inj same).1
      refine retryOps_keeps kept (advances.sameContainer.trans sameContainer) ?_
      rw [sameCore]
      exact before

end

/-! ## Runs of a client -/

/-- What a client of a folder is given. -/
inductive Intake
  | grants (entries : List SignedOp)
  | ops (strict more : Bool) (ops : List ContainerOp)
  | snapshot (response : Bytes)

section

variable (decodeBatch : Bytes -> Result Cloud.CloudBatch)
variable (decodeSnapshot : Bytes -> Result Cloud.CloudSnapshot)
variable (decodeResponse : Bytes -> Result (Option Snapshot))

/-- The folder after a client has taken in what it was given. -/
def takeIn (client : Client) (folder : Kept Cloud.CloudState) :
    Intake -> Kept Cloud.CloudState
  | .grants entries =>
      { folder with toLocal := cloudIngestGrants client decodeBatch entries folder.toLocal }
  | .ops strict more ops =>
      { folder with
        toLocal := (cloudIngestSync client decodeBatch strict more ops folder.toLocal).1 }
  | .snapshot response =>
      (cloudIngestSnapshot client decodeSnapshot decodeResponse response (some folder)).2.getD
        folder

/-- An operation signed by a device of a user has written these contents of a node.  To whom a
device belongs is what the client knows at some time. -/
def Wrote (clients : List Client) (container : Domain.Container) (user : String)
    (id : Cloud.NodeId) (body : Cloud.Body) : Prop :=
  ∃ client ∈ clients, ∃ op verified author key plain batch change offer,
    verifyOpSeal client.library op = .ok verified ∧
      client.resolve verified.signer = some author ∧ user ∈ author.names ∧
      openOp client.library op container key = .ok plain ∧ decodeBatch plain = .ok batch ∧
      change ∈ batch.ops ∧ Cloud.offerOf change = .ok (.toNode id offer) ∧
      offer.body = some body

/-- The contents were written by a device of the user who is named as their uploader. -/
def WrittenByUploader (clients : List Client) (container : Domain.Container)
    (id : Cloud.NodeId) (body : Cloud.Body) : Prop :=
  Wrote decodeBatch clients container body.blob.uploader id body

/-- The folder is the container, and all its contents were written by their uploaders. -/
structure Sourced (clients : List Client) (container : Domain.Container)
    (folder : Kept Cloud.CloudState) : Prop where
  sameContainer : identity folder.access = (container.ref, container.domain)
  holds : folder.core.state.Holds (WrittenByUploader decodeBatch clients container)

/-- Of the entries of a snapshot that the client merges, those with contents have contents that
were written by a device of their uploader. -/
def Genuine (clients : List Client) (container : Domain.Container) (client : Client)
    (folder : Kept Cloud.CloudState) : Intake -> Prop
  | .snapshot response =>
      ∀ snapshot decoded greatest, decodeResponse response = .ok (some snapshot) ->
        readSnapshot client decodeSnapshot folder snapshot = .ok decoded ->
          Cloud.guardSnapshot folder.core.guard decoded snapshot.uptoSeq = .ok greatest ->
            ∀ offer ∈ Update.foundBefore (Cloud.readPart decoded.devices) decoded.parts,
              offer.Brings (WrittenByUploader decodeBatch clients container)
  | _ => True

/-- A client takes in something, and the snapshots among it are genuine. -/
def TakesGenuine (clients : List Client) (container : Domain.Container)
    (folder : Kept Cloud.CloudState) (given : Client × Intake)
    (next : Kept Cloud.CloudState) : Prop :=
  next = takeIn decodeBatch decodeSnapshot decodeResponse given.1 folder given.2 ∧
    Genuine decodeBatch decodeSnapshot decodeResponse clients container given.1 folder given.2

variable {decodeBatch decodeSnapshot decodeResponse}
variable {clients : List Client} {container : Domain.Container} {client : Client}

theorem cloud_keptByOps
    (decodeBatch : Bytes -> Result Cloud.CloudBatch) (container : Domain.Container)
    (known : client ∈ clients) :
    KeptByOps (cloud decodeBatch) client (container.ref, container.domain)
      (Cloud.CloudState.Holds (WrittenByUploader decodeBatch clients container)) := by
  intro access op author key plain batch state sameContainer checked isPlain isBatch holds
  obtain ⟨verified, isVerified, resolved⟩ := checkOpAuthor_eq client checked
  obtain ⟨sameRef, sameDomain⟩ := Prod.mk.inj sameContainer
  rw [openOp_congr client.library op key sameRef sameDomain] at isPlain
  refine holds.applyBatchFrom fun change member id offer offered body brought owned => ?_
  exact ⟨client, known, op, verified, author, key, plain, batch, change, offer, isVerified,
    resolved, owned, isPlain, isBatch, member, offered, brought⟩

/-- A snapshot is refused, or what stands before its first mistake is merged. -/
theorem takeCloudSnapshot_keeps {allowed : Cloud.NodeId -> Cloud.Body -> Prop} {snapshot : Snapshot}
    {folder : Kept Cloud.CloudState}
    (brings : ∀ decoded greatest, readSnapshot client decodeSnapshot folder snapshot = .ok decoded ->
      Cloud.guardSnapshot folder.core.guard decoded snapshot.uptoSeq = .ok greatest ->
        ∀ offer ∈ Update.foundBefore (Cloud.readPart decoded.devices) decoded.parts,
          offer.Brings allowed)
    (before : folder.core.state.Holds allowed) :
    (takeCloudSnapshot client decodeSnapshot snapshot folder).2.core.state.Holds allowed ∧
      (takeCloudSnapshot client decodeSnapshot snapshot folder).2.access = folder.access := by
  unfold takeCloudSnapshot
  cases read : readSnapshot client decodeSnapshot folder snapshot with
  | error error => exact ⟨before, rfl⟩
  | ok decoded =>
      simp only
      cases guarded : Cloud.guardSnapshot folder.core.guard decoded snapshot.uptoSeq with
      | error error => exact ⟨before, rfl⟩
      | ok greatest =>
          have after := before.foldl_take (brings decoded greatest read guarded)
          simp only [Cloud.exec_mergeSnapshot]
          split
          · next merged =>
              obtain ⟨-, rfl⟩ := Prod.mk.inj merged
              exact ⟨after, rfl⟩
          · next merged =>
              obtain ⟨-, rfl⟩ := Prod.mk.inj merged
              exact ⟨after, rfl⟩

/-- Taking in keeps the contents written by their uploaders. -/
theorem takeIn_keeps {folder : Kept Cloud.CloudState} {intake : Intake}
    (known : client ∈ clients)
    (genuine : Genuine decodeBatch decodeSnapshot decodeResponse clients container client folder
      intake)
    (sourced : Sourced decodeBatch clients container folder) :
    Sourced decodeBatch clients container
      (takeIn decodeBatch decodeSnapshot decodeResponse client folder intake) := by
  obtain ⟨sameContainer, before⟩ := sourced
  have kept := cloud_keptByOps decodeBatch container known
  cases intake with
  | grants entries =>
      refine ⟨?_, ingestGrants_keeps kept sameContainer before⟩
      have takes : Takes (cloud decodeBatch) client ⟨[], .nil⟩ folder.toLocal (.grants entries)
          (cloudIngestGrants client decodeBatch entries folder.toLocal) := rfl
      exact (takes.advances ⟨[], [], []⟩).sameContainer.trans sameContainer
  | ops strict more ops =>
      refine ⟨?_, ingestOps_keeps kept sameContainer before⟩
      have same := (ingestOps_frame (cloud decodeBatch) client strict ops folder.toLocal
        { more }).1
      exact (congrArg identity same).trans sameContainer
  | snapshot response =>
      rw [takeIn, cloudIngestSnapshot, ingestSnapshot]
      cases decoded : decodeResponse response with
      | error error => exact ⟨sameContainer, before⟩
      | ok found =>
          cases found with
          | none => exact ⟨sameContainer, before⟩
          | some snapshot =>
              obtain ⟨holds, same⟩ := takeCloudSnapshot_keeps
                (fun whole greatest => genuine snapshot whole greatest decoded) before
              exact ⟨(congrArg identity same).trans sameContainer, holds⟩

end

/-- A client that starts with an empty folder and takes in grants, operations and genuine
snapshots has nothing to erase but what a device of the uploader has written. -/
theorem purged_blobs_written_by_uploader
    (decodeBatch : Bytes -> Result Cloud.CloudBatch)
    (decodeSnapshot : Bytes -> Result Cloud.CloudSnapshot)
    (decodeResponse : Bytes -> Result (Option Snapshot))
    (start final : Kept Cloud.CloudState)
    (given : List (Client × Intake))
    (empty : start.core.state = .new)
    (run : Run (TakesGenuine decodeBatch decodeSnapshot decodeResponse (given.map Prod.fst)
      start.access.container) start given final) :
    ∀ blob ∈ final.core.state.purgedBlobs, ∃ id body,
      Wrote decodeBatch (given.map Prod.fst) start.access.container blob.uploader id body ∧
        blob ∈ body.purgedBlobs := by
  have sourced : Sourced decodeBatch (given.map Prod.fst) start.access.container final := by
    apply run.invariant
    · rintro folder next one member ⟨rfl, genuine⟩ before
      exact takeIn_keeps (List.mem_map_of_mem member) genuine before
    · exact ⟨rfl, empty ▸ Cloud.holds_new⟩
  intro blob returned
  obtain ⟨id, -, body, held, inside⟩ := Cloud.CloudState.mem_purgedBlobs.1 returned
  refine ⟨id, body, ?_, inside⟩
  have uploader : blob.uploader = body.blob.uploader := by
    rw [Cloud.Body.purgedBlobs, List.mem_cons] at inside
    rcases inside with rfl | inside
    · rfl
    · cases thumb : body.thumb with
      | none => simp [thumb] at inside
      | some thumb_ =>
          rw [thumb, Option.elim_some, List.mem_singleton] at inside
          rw [inside]
  rw [uploader]
  exact sourced.holds id body held

/-! ## A sample -/

/-- The owner has signed the folder and the grant for the other user, and nothing else. -/
def writersLibrary : Library :=
  { sampleLibrary with
    verifyStrict := fun key message _ =>
      key.bytes.getD 0 0 == 1 ||
        (opSigningBytes signatureDomain "container" [0, 0, 1]).toOption == some message ||
        (opSigningBytes signatureDomain "grant" [1, 1, 1]).toOption == some message
    decodeOpBody := fun body => .ok
      ⟨some { ContainerAccess.sampleHeader body with
        opType :=
          if body.getD 1 0 == 5 then opOp
          else if body.getD 1 0 == 6 then opSnapshot
          else (ContainerAccess.sampleHeader body).opType }, body⟩
    decodeSealDigest := fun payload => .ok
      ⟨1, zeroHash.bytes, if payload.getD 1 0 == 6 then 1 else 0⟩ }

def writersClient : Client :=
  { sampleClient with library := writersLibrary }

/-- The folder that the owner shares with the other user. -/
def sharedFolder : Kept Cloud.CloudState :=
  match replay writersLibrary.toDomain writersClient.resolve (ContainerAccess.sampleOp 0 0 1)
      [sampleGrant] with
  | .ok access => { attached Cloud.CloudState.new [sampleGrant] access sampleKeys [] [] with }
  | .error _ => { sampleStart [] with }

/-- The other user creates a file and deletes it for good. -/
def uploadBatch (_ : Bytes) : Result Cloud.CloudBatch :=
  .ok ⟨[⟨some (.create {
      nodeId := List.replicate 16 2
      kind := 2
      parentId := []
      name := "f"
      blob := some { Cloud.sampleBlob "f1" with uploader := "v@a.org" }
      stamp := some ⟨1, "e"⟩
      thumb := none
      mtimeMs := 0 })⟩,
    ⟨some (.purge ⟨List.replicate 16 2, 0, some ⟨2, "e"⟩⟩)⟩]⟩

/-- A snapshot of the other user with a file that the owner is said to have uploaded. -/
def foreignUpload (_ : Bytes) : Result Cloud.CloudSnapshot :=
  .ok {
    devices := ["e"]
    entries := [{
      nodeId := List.replicate 16 2
      kind := 2
      name := "f"
      blob := some { Cloud.sampleBlob "f1" with uploader := "u@a.org" }
      purged := true
      createLamport := 1
      moveLamport := 1
      blobLamport := 1 }] }

/-- A snapshot of the other user with a folder. -/
def folderSnapshot (_ : Bytes) : Result Cloud.CloudSnapshot :=
  .ok {
    devices := ["e"]
    entries := [{
      nodeId := List.replicate 16 3
      kind := 1
      name := "b"
      createLamport := 1
      moveLamport := 1 }] }

def writersSnapshot (_ : Bytes) : Result (Option Snapshot) :=
  .ok (some
    { container := some ContainerAccess.sampleRef
      uptoSeq := 1
      keyEpoch := 1
      aeadCiphertext := List.replicate 28 0
      author := some ⟨[1, 6, 1], List.replicate 64 0, List.replicate 32 1⟩ })

/-- A checked operation was signed with the key of its signer. -/
theorem signed_of_verifyOp
    {library : Sign.Library} {op : SignedOp} {domain opType : String} {expected : Option Hash}
    {verified : VerifiedOp} (ran : verifyOp library op domain opType expected = .ok verified) :
    ∃ message signed, opSigningBytes domain opType op.body = .ok message ∧
      library.verifyStrict verified.signer message signed = true := by
  simp only [verifyOp, bind_eq_ok, require_eq_ok] at ran
  obtain ⟨key, -, _, -, signed, -, message, isMessage, _, verifies, _, -, header, -, _, -, _, -,
    ran⟩ := ran
  refine ⟨message, signed, isMessage, ?_⟩
  cases target : header.target <;>
    simp only [target, bind_eq_ok, pure, Except.pure, Except.ok.injEq] at ran
  · obtain ⟨_, -, rfl⟩ := ran
    exact verifies
  · obtain ⟨_, -, _, -, rfl⟩ := ran
    exact verifies

theorem signed_of_verifyOpSeal
    {library : Library} {op : ContainerOp} {verified : ContainerAccess.VerifiedSeal}
    (isVerified : verifyOpSeal library op = .ok verified) :
    ∃ body message signed, opSigningBytes signatureDomain opOp body = .ok message ∧
      library.verifyStrict verified.signer message signed = true := by
  simp only [verifyOpSeal, verifySealInner, bind_eq_ok, pure, Except.pure,
    Except.ok.injEq] at isVerified
  obtain ⟨author, -, _, -, _, -, _, -, _, -, checked, ran, _, -, _, -, _, -, _, -, rfl⟩ := isVerified
  exact ⟨author.body, signed_of_verifyOp ran⟩

theorem purged_blobs_written_by_uploader_sample :
    ∃ id body,
      Wrote uploadBatch [writersClient, writersClient] sharedFolder.access.container "v@a.org" id
          body ∧
        ⟨"f1", "v@a.org"⟩ ∈ body.purgedBlobs := by
  have run : Run (TakesGenuine uploadBatch folderSnapshot writersSnapshot
      [writersClient, writersClient] sharedFolder.access.container) sharedFolder
      [(writersClient, .ops false false [sampleContainerOp]), (writersClient, .snapshot [])]
      (takeIn uploadBatch folderSnapshot writersSnapshot writersClient
        (takeIn uploadBatch folderSnapshot writersSnapshot writersClient sharedFolder
          (.ops false false [sampleContainerOp])) (.snapshot [])) := by
    refine .cons ⟨rfl, trivial⟩ (.cons ⟨rfl, ?_⟩ (.nil _))
    intro snapshot decoded greatest _ read _ offer member
    obtain ⟨plain, -, isDecoded⟩ : ∃ plain : Bytes, True ∧ folderSnapshot plain = .ok decoded := by
      simp only [readSnapshot, bind_eq_ok] at read
      obtain ⟨_, -, _, -, plain, -, isDecoded⟩ := read
      exact ⟨plain, trivial, isDecoded⟩
    cases isDecoded
    cases List.mem_singleton.1 member
    rintro _ ⟨⟩
  exact purged_blobs_written_by_uploader uploadBatch folderSnapshot writersSnapshot sharedFolder _
    [(writersClient, .ops false false [sampleContainerOp]), (writersClient, .snapshot [])]
    (by decide +kernel) run ⟨"f1", "v@a.org"⟩ (by decide +kernel)

/-- A snapshot of the other user makes the client of the owner erase an upload of the owner,
whose devices have signed no operation at all. -/
theorem foreign_upload_purged :
    (takeIn uploadBatch foreignUpload writersSnapshot writersClient sharedFolder
        (.snapshot [])).core.state.purgedBlobs = [⟨"f1", "u@a.org"⟩] ∧
      ∀ id body, ¬ Wrote uploadBatch [writersClient] sharedFolder.access.container "u@a.org" id
        body := by
  refine ⟨by decide +kernel, ?_⟩
  rintro id body ⟨client, known, op, verified, author, key, plain, batch, change, offer, isVerified,
    resolved, owned, -⟩
  cases List.mem_singleton.1 known
  have ownerKey : verified.signer.bytes.getD 0 0 = 0 := by
    by_contra other
    change (if verified.signer.bytes.getD 0 0 == 0 then _ else _) = some author at resolved
    rw [if_neg (by simpa using other)] at resolved
    cases resolved
    revert owned
    decide
  obtain ⟨_, message, signed, isMessage, verifies⟩ := signed_of_verifyOpSeal isVerified
  have signedTypes : ∀ opType body, (opSigningBytes signatureDomain opType body).toOption == some message ->
      opType = opOp := by
    intro opType body same
    cases isBytes : opSigningBytes signatureDomain opType body with
    | error error => simp [isBytes, Except.toOption] at same
    | ok other =>
        have equal : other = message := by simpa [isBytes, Except.toOption] using same
        exact (Federation.opSigningBytes_inj isBytes (equal ▸ isMessage)).2.1
  change (verified.signer.bytes.getD 0 0 == 1 || _ || _) = true at verifies
  rw [ownerKey, Bool.or_eq_true, Bool.or_eq_true] at verifies
  rcases verifies with (other | container) | grant
  · cases other
  · exact absurd (signedTypes _ _ container) (by decide)
  · exact absurd (signedTypes _ _ grant) (by decide)

end Shared

end Parvane
