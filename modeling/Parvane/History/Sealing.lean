import Parvane.History.Convergence
import Parvane.History.Journal

/-!
# Sealed operations are ingested again

The checks of an operation before it is encrypted do not look at the limits of the schema.  The
records of a session are therefore read again exactly when every operation keeps these limits:
one operation that does not keep them makes the whole record unreadable.
-/

namespace Parvane

open Codec

namespace History

open Wire State

/-! ## Batches -/

/-- A batch of a device that fits into a record. -/
structure Packed (deviceId : String) (batch : HistoryBatch) : Prop where
  deviceId : batch.deviceId = deviceId
  short : (encode batch).length ≤ batchBudget
  few : batch.ops.length ≤ maxBatchOps

theorem length_encode_concat (deviceId : String) (tsMs : Int64) (ops : List HistoryOp)
    (op : HistoryOp) :
    (encode (⟨deviceId, tsMs, ops ++ [op]⟩ : HistoryBatch)).length =
      (encode (⟨deviceId, tsMs, ops⟩ : HistoryBatch)).length + cost op := by
  have tag : (encodeVarint 26).length = 1 := by decide
  simp [encode, Message.fields, repeated, encodeFields, encodeField, cost, Payload.wireType,
    Payload.encode, tag]
  omega

variable {batches : List HistoryBatch}

theorem packFrom_spec {deviceId : String} {tsMs : Int64} {current ops : List HistoryOp} {used : Nat}
    (used_eq : used = (encode (⟨deviceId, tsMs, current⟩ : HistoryBatch)).length)
    (short : current ≠ [] -> used ≤ batchBudget)
    (few : current.length ≤ maxBatchOps)
    (packed : packFrom deviceId tsMs (encode (⟨deviceId, tsMs, []⟩ : HistoryBatch)).length
      current used ops = .ok batches) :
    batches.flatMap HistoryBatch.ops = current ++ ops ∧
      ∀ batch ∈ batches, Packed deviceId batch := by
  induction ops generalizing current used batches with
  | nil =>
      rw [packFrom] at packed
      cases packed
      cases current with
      | nil => simp
      | cons first rest =>
          refine ⟨by simp, ?_⟩
          intro batch member
          cases List.mem_singleton.1 member
          exact ⟨rfl, used_eq ▸ short (by simp), few⟩
  | cons op ops inductionHypothesis =>
      rw [packFrom] at packed
      split at packed
      · cases packed
      · next fits =>
          split at packed
          · next full =>
              simp only [Bool.and_eq_true, Bool.not_eq_true', List.isEmpty_eq_false_iff] at full
              simp only [bind_eq_ok, pure, Except.pure, Except.ok.injEq] at packed
              obtain ⟨later, packed, rfl⟩ := packed
              have length := length_encode_concat deviceId tsMs [] op
              obtain ⟨whole, others⟩ := inductionHypothesis length.symm
                (fun _ => not_lt.1 fits) (Nat.one_le_of_lt (by decide : 0 < maxBatchOps)) packed
              refine ⟨by rw [List.flatMap_cons, whole]; rfl, List.forall_mem_cons.2 ⟨?_, others⟩⟩
              exact ⟨rfl, used_eq ▸ short full.1, few⟩
          · next room =>
              have length := length_encode_concat deviceId tsMs current op
              have fewer : current.length + 1 ≤ maxBatchOps ∧ used + cost op ≤ batchBudget := by
                cases current with
                | nil =>
                    rw [used_eq]
                    exact ⟨by decide, not_lt.1 fits⟩
                | cons first rest =>
                    simp at room
                    exact ⟨room.2, room.1⟩
              obtain ⟨whole, others⟩ := inductionHypothesis
                (by rw [length, used_eq]) (fun _ => fewer.2)
                (by rw [List.length_append]; exact fewer.1) packed
              rw [whole, List.append_assoc]
              exact ⟨rfl, others⟩

theorem pack_spec {ops : List HistoryOp} {deviceId : String} {tsMs : Int64}
    (packed : pack ops deviceId tsMs = .ok batches) :
    batches.flatMap HistoryBatch.ops = ops ∧ isValidDeviceId deviceId = true ∧
      ∀ batch ∈ batches, Packed deviceId batch := by
  simp only [pack, bind_eq_ok, require_eq_ok] at packed
  obtain ⟨_, valid, packed⟩ := packed
  obtain ⟨whole, all⟩ := packFrom_spec rfl (fun nonempty => absurd rfl nonempty)
    (Nat.zero_le _) packed
  exact ⟨whole, valid, all⟩

theorem moderate_batch {deviceId : String} {batch : HistoryBatch}
    (valid : isValidDeviceId deviceId = true) (packed : Packed deviceId batch) :
    Moderate batch ↔ ∀ op ∈ batch.ops, Moderate op := by
  have device : batch.deviceId.utf8ByteSize ≤ 64 := by
    rw [packed.deviceId]
    simp [isValidDeviceId] at valid
    exact valid.1.2
  have few : batch.ops.length ≤ 4096 := packed.few
  simp [Moderate, Limited.groups, Group.text, Group.int64, Group.integer, Group.list, device, few]

/-! ## One record -/

section

variable {aead : Aead HistoryKey} {decode : Bytes -> Option HistoryBatch}

theorem openRecord_sealWithNonce
    {key : HistoryKey} {address deviceId : String} {opId : Bytes} {chunk : Bool}
    {batch result : HistoryBatch} {nonce : FixedBytes nonceLen} {request : AppendRequest}
    (decoded : decode (encode batch) = some batch)
    (valid : isValidDeviceId deviceId = true) (packed : Packed deviceId batch)
    (made : sealWithNonce aead key address opId chunk batch nonce = .ok request) :
    openRecord aead decode key address request.opId request.chunk request.aeadCiphertext =
        .ok result ↔
      Moderate batch ∧ batch = result := by
  simp only [sealWithNonce, bind_eq_ok, require_eq_ok, pure, Except.pure, Except.ok.injEq] at made
  obtain ⟨_, address, _, known, data, encrypted, rfl⟩ := made
  have length : (opId.length == idLen) = true := by
    simp only [Sign.isValidOpId, Bool.and_eq_true] at known
    exact known.1
  have short : (encode batch).length ≤ maxFrame := packed.short.trans (by decide)
  have opened : decodeChecked table Table.historyBatchSpec decode .client (encode batch) =
      .ok result ↔ Moderate batch ∧ batch = result :=
    decodeChecked_encode (by decide) short decoded
  have device : isValidDeviceId batch.deviceId = true := packed.deviceId ▸ valid
  simp only [openRecord, bind_eq_ok, require_eq_ok, address, id16, length, opened,
    decryptRecord_encryptRecord encrypted, Except.ok.injEq, ↓existsAndEq, true_and, exists_const,
    pure, Except.pure]
  rw [and_true, and_iff_left_of_imp]
  rintro ⟨-, rfl⟩
  exact device

/-- No other key of a session opens a record that was encrypted under a key for an address. -/
def Authentic (aead : Aead HistoryKey) (session : HistorySession) (key : HistoryKey)
    (address : String) (request : AppendRequest) : Prop :=
  ∀ entry ∈ session.keys, (entry.key, entry.address) ≠ (key, address) -> ∀ text,
    decryptRecord aead entry.key (recordAad entry.address request.opId request.chunk)
      request.aeadCiphertext ≠ .ok text

namespace HistorySession

/-- A session opens a record of a batch exactly when the batch keeps the limits. -/
structure Reads (aead : Aead HistoryKey) (decode : Bytes -> Option HistoryBatch)
    (session : HistorySession) (request : AppendRequest) (batch : HistoryBatch) : Prop where
  opens : (session.openAny aead decode request.opId request.chunk request.aeadCiphertext).isSome =
    true ↔ Moderate batch
  same : ∀ opened ∈ session.openAny aead decode request.opId request.chunk request.aeadCiphertext,
    opened.1 = batch

theorem reads_sealWithNonce
    {session : HistorySession} {key : HistoryKey} {address deviceId : String} {opId : Bytes}
    {chunk : Bool} {batch : HistoryBatch} {nonce : FixedBytes nonceLen} {request : AppendRequest}
    (held : ∃ entry ∈ session.keys, (entry.key, entry.address) = (key, address))
    (decoded : decode (encode batch) = some batch)
    (valid : isValidDeviceId deviceId = true) (packed : Packed deviceId batch)
    (made : sealWithNonce aead key address opId chunk batch nonce = .ok request)
    (authentic : Authentic aead session key address request) :
    Reads aead decode session request batch := by
  have read {entry : SessionKey} (member : entry ∈ session.keys) {result : HistoryBatch}
      (opened : openRecord aead decode entry.key entry.address request.opId request.chunk
        request.aeadCiphertext = .ok result) :
      Moderate batch ∧ batch = result := by
    by_cases same : (entry.key, entry.address) = (key, address)
    · rw [Prod.mk.injEq] at same
      rw [same.1, same.2] at opened
      exact (openRecord_sealWithNonce decoded valid packed made).1 opened
    · simp only [openRecord, bind_eq_ok] at opened
      obtain ⟨_, _, _, _, text, decrypted, _⟩ := opened
      exact absurd decrypted (authentic entry member same text)
  have found : ∀ opened ∈ session.openAny aead decode request.opId request.chunk
      request.aeadCiphertext, Moderate batch ∧ batch = opened.1 := by
    intro opened open_eq
    obtain ⟨⟨entry, index⟩, member, entryOpens⟩ := List.exists_of_findSome?_eq_some open_eq
    cases recordOpens : openRecord aead decode entry.key entry.address request.opId request.chunk
        request.aeadCiphertext with
    | error _ => simp [recordOpens] at entryOpens
    | ok result =>
        simp only [recordOpens, Option.some.injEq] at entryOpens
        rw [← entryOpens]
        exact read (List.fst_mem_of_mem_zipIdx member) recordOpens
  refine ⟨⟨fun opens => ?_, fun moderate => ?_⟩, fun opened open_eq => (found opened open_eq).2.symm⟩
  · obtain ⟨opened, open_eq⟩ := Option.isSome_iff_exists.1 opens
    exact (found opened open_eq).1
  · obtain ⟨entry, member, same⟩ := held
    obtain ⟨index, atIndex⟩ := List.mem_iff_getElem?.1 member
    rw [Prod.mk.injEq] at same
    rw [openAny, List.findSome?_isSome_iff]
    refine ⟨(entry, index), List.mk_mem_zipIdx_iff_getElem?.2 atIndex, ?_⟩
    have opens := (openRecord_sealWithNonce decoded valid packed made).2 ⟨moderate, rfl⟩
    simp only [same.1, same.2, opens, Option.isSome_some]

end HistorySession

end

/-! ## Sealing and ingesting -/

namespace HistorySession

/-- What is taken in of the records of batches of valid operations. -/
structure Took (before after : Ingested) (batches : List HistoryBatch) : Prop where
  more : before.rejected ≤ after.rejected
  all : after.rejected = before.rejected ↔ ∀ batch ∈ batches, Moderate batch
  ops : (∀ batch ∈ batches, Moderate batch) ->
    after.ops = before.ops ++ batches.flatMap HistoryBatch.ops
  rejectedOps : after.rejectedOps = before.rejectedOps

section

variable {codec : Codec} {aead : Aead HistoryKey} {decode : Bytes -> Option HistoryBatch}
  {decodeSync : Bytes -> Option SyncResponse}

variable {session : HistorySession}

theorem ingestRecord_took {out : Ingested} {record : HistoryRecord} {batch : HistoryBatch}
    (read : Reads aead decode session record.request batch)
    (valid : ∀ op ∈ batch.ops, validateOp codec op = .ok ()) :
    Took out (ingestRecord codec aead decode session out record) [batch] := by
  have opens := read.opens
  have same := read.same
  simp only [HistoryRecord.request] at opens same
  have kept : batch.ops.filter (fun op => (validateOp codec op).isOk) = batch.ops := by
    rw [List.filter_eq_self]
    intro op member
    rw [valid op member]
    rfl
  rw [ingestRecord]
  cases opened : session.openAny aead decode record.opId record.chunk record.aeadCiphertext with
  | none =>
      rw [opened] at opens
      have lost : ¬ Moderate batch := fun moderate => Bool.noConfusion (opens.2 moderate)
      exact ⟨Nat.le_succ _, by simp [lost], fun all => absurd (all batch (by simp)) lost, rfl⟩
  | some found =>
      obtain ⟨foundBatch, keyVersion, stale⟩ := found
      rw [opened] at opens same
      cases same _ rfl
      refine ⟨le_rfl, by simp [opens.1 rfl], fun _ => ?_, ?_⟩
      · simp [kept]
      · simp [kept]

theorem Took.trans {before between after : Ingested} {first second : List HistoryBatch}
    (earlier : Took before between first) (later : Took between after second) :
    Took before after (first ++ second) := by
  have step := earlier.more
  have next := later.more
  refine ⟨step.trans next, ?_, fun all => ?_, later.rejectedOps.trans earlier.rejectedOps⟩
  · rw [List.forall_mem_append, ← earlier.all, ← later.all]
    omega
  · obtain ⟨firstAll, secondAll⟩ := List.forall_mem_append.1 all
    rw [later.ops secondAll, earlier.ops firstAll, List.flatMap_append, List.append_assoc]

theorem foldl_ingestRecord_took {out : Ingested} {records : List HistoryRecord}
    (read : List.Forall₂ (fun record batch => Reads aead decode session record.request batch)
      records batches)
    (valid : ∀ batch ∈ batches, ∀ op ∈ batch.ops, validateOp codec op = .ok ()) :
    Took out (records.foldl (ingestRecord codec aead decode session) out) batches := by
  induction read generalizing out with
  | nil => exact ⟨le_rfl, by simp, by simp, rfl⟩
  | cons first _ inductionHypothesis =>
      obtain ⟨firstValid, restValid⟩ := List.forall_mem_cons.1 valid
      exact (ingestRecord_took first firstValid).trans (inductionHypothesis restValid)

theorem mapM_ingest {pages : List Bytes} {responses : List SyncResponse}
    (decoded : pages.mapM (decodeChecked table Table.syncResponseSpec decodeSync .server) =
      .ok responses)
    (read : List.Forall₂ (fun record batch => Reads aead decode session record.request batch)
      (responses.flatMap SyncResponse.records) batches)
    (valid : ∀ batch ∈ batches, ∀ op ∈ batch.ops, validateOp codec op = .ok ()) :
    ∃ results, pages.mapM (session.ingest codec aead decode decodeSync) = .ok results ∧
      (∀ result ∈ results, result.rejectedOps = 0) ∧
      ((∀ result ∈ results, result.rejected = 0) ↔ ∀ batch ∈ batches, Moderate batch) ∧
      ((∀ batch ∈ batches, Moderate batch) ->
        results.flatMap Ingested.ops = batches.flatMap HistoryBatch.ops) := by
  induction pages generalizing responses batches with
  | nil =>
      cases decoded
      cases read
      exact ⟨[], rfl, by simp⟩
  | cons page pages inductionHypothesis =>
      simp only [List.mapM_cons, bind_eq_ok, pure, Except.pure, Except.ok.injEq] at decoded
      obtain ⟨response, decodedPage, rest, decodedRest, rfl⟩ := decoded
      rw [List.flatMap_cons] at read
      have readHere := (List.forall₂_take_append _ _ _ read.flip).flip
      have readLater := (List.forall₂_drop_append _ _ _ read.flip).flip
      rw [← List.take_append_drop response.records.length batches] at valid ⊢
      generalize batches.take response.records.length = here at *
      generalize batches.drop response.records.length = later at *
      obtain ⟨validHere, validLater⟩ := List.forall_mem_append.1 valid
      obtain ⟨results, ingested, rejectedOps, all, ops⟩ :=
        inductionHypothesis decodedRest readLater validLater
      let start : Ingested := {
        more := response.more && !response.records.isEmpty
        headSeq := response.headSeq
        compacted := response.compacted }
      have took : Took start _ here := foldl_ingestRecord_took readHere validHere
      refine ⟨response.records.foldl (ingestRecord codec aead decode session) start :: results,
        ?_, List.forall_mem_cons.2 ⟨took.rejectedOps, rejectedOps⟩, ?_, ?_⟩
      · simp only [List.mapM_cons, ingested, ingest, decodedPage]
        rfl
      · rw [List.forall_mem_cons, List.forall_mem_append, all, ← took.all]
      · intro moderate
        obtain ⟨moderateHere, moderateLater⟩ := List.forall_mem_append.1 moderate
        rw [List.flatMap_cons, took.ops moderateHere, ops moderateLater, List.flatMap_append]
        rfl

theorem sealBatches_spec {key : HistoryKey} {chunk : Bool} {draws : Nat -> Draw} {index : Nat}
    {requests : List (Bytes × Bytes)}
    (made : sealBatches aead session key chunk draws index batches = .ok requests) :
    ∃ written : List AppendRequest, requests.map Prod.snd = written.map encode ∧
      List.Forall₂
        (fun request batch => ∃ opId nonce,
          sealWithNonce aead key session.user opId chunk batch nonce = .ok request)
        written batches := by
  induction batches generalizing index requests with
  | nil =>
      cases made
      exact ⟨[], rfl, .nil⟩
  | cons batch batches inductionHypothesis =>
      simp only [sealBatches, bind_eq_ok, pure, Except.pure, Except.ok.injEq] at made
      obtain ⟨request, first, rest, made, rfl⟩ := made
      obtain ⟨written, same, all⟩ := inductionHypothesis made
      exact ⟨request :: written, by rw [List.map_cons, same, List.map_cons],
        .cons ⟨_, _, first⟩ all⟩

theorem new_eq_ok
    {derive : StateKey -> String -> HistoryKey} {user deviceId : String} {former : List String}
    {stateKeys : List (StateKey × UInt32)}
    (made : new derive user former deviceId stateKeys = .ok session) :
    session.user = user ∧ session.deviceId = deviceId ∧
      session.keys = stateKeys.flatMap fun (stateKey, version) =>
        (user :: former).map fun address => ⟨version, address, derive stateKey address⟩ := by
  simp only [new, bind_eq_ok, pure, Except.pure, Except.ok.injEq] at made
  obtain ⟨_, _, _, _, _, _, rfl⟩ := made
  exact ⟨rfl, rfl, rfl⟩

/-- The results of several answers hold these operations, in this order, and nothing is passed
over. -/
def Recovered (results : List Ingested) (ops : List HistoryOp) : Prop :=
  results.flatMap Ingested.ops = ops ∧
    ∀ result ∈ results, result.rejected = 0 ∧ result.rejectedOps = 0

/-- What a session has encrypted is taken in again by every session that has its key among its
keys, in any number of answers, exactly when all operations keep the limits of the schema. -/
theorem sealOps_ingested_iff
    {derive : StateKey -> String -> HistoryKey}
    {user deviceId readerUser readerDevice : String}
    {former readerFormer : List String}
    {stateKey : StateKey}
    {version readerVersion : UInt32}
    {stateKeys readerKeys : List (StateKey × UInt32)}
    {session reader : HistorySession}
    {draws : Nat -> Draw}
    {ops : List HistoryOp}
    {chunk : Bool}
    {tsMs : Int64}
    {requests : List (Bytes × Bytes)}
    {pages : List Bytes}
    {responses : List SyncResponse}
    (made : new derive user former deviceId ((stateKey, version) :: stateKeys) = .ok session)
    (readerMade : new derive readerUser readerFormer readerDevice readerKeys = .ok reader)
    (shared : (stateKey, readerVersion) ∈ readerKeys)
    (address : user ∈ readerUser :: readerFormer)
    (decodes : ∀ batch, decode (encode batch) = some batch)
    (written : session.sealOps codec aead draws ops chunk tsMs = .ok requests)
    (decoded : pages.mapM (decodeChecked table Table.syncResponseSpec decodeSync .server) =
      .ok responses)
    (stored : (responses.flatMap SyncResponse.records).map (fun record => encode record.request) =
      requests.map Prod.snd)
    (authentic : ∀ record ∈ responses.flatMap SyncResponse.records,
      Authentic aead reader (derive stateKey user) user record.request) :
    ∃ results, pages.mapM (reader.ingest codec aead decode decodeSync) = .ok results ∧
      (Recovered results ops ↔ ∀ op ∈ ops, Moderate op) := by
  obtain ⟨rfl, -, sessionKeys⟩ := new_eq_ok made
  obtain ⟨-, -, keys⟩ := new_eq_ok readerMade
  simp only [sealOps, bind_eq_ok, forM_eq_ok, present_eq_ok] at written
  obtain ⟨_, valid, current, first, batches, packed, written⟩ := written
  rw [sessionKeys] at first
  cases first
  obtain ⟨rfl, device, packed⟩ := pack_spec packed
  obtain ⟨encrypted, same, each⟩ := sealBatches_spec written
  have asked : (responses.flatMap SyncResponse.records).map HistoryRecord.request = encrypted := by
    refine encode_injective.list_map ?_
    rw [List.map_map, ← same]
    exact stored
  have held : ∃ entry ∈ reader.keys,
      (entry.key, entry.address) = (derive stateKey session.user, session.user) := by
    rw [keys]
    exact ⟨⟨readerVersion, session.user, derive stateKey session.user⟩,
      List.mem_flatMap.2 ⟨_, shared, List.mem_map.2 ⟨_, address, rfl⟩⟩, rfl⟩
  have read : List.Forall₂ (fun record batch => Reads aead decode reader record.request batch)
      (responses.flatMap SyncResponse.records) batches := by
    rw [← asked, List.forall₂_map_left_iff, List.forall₂_iff_zip] at each
    refine List.forall₂_iff_zip.2 ⟨each.1, fun {record batch} together => ?_⟩
    obtain ⟨recordMember, batchMember⟩ := List.of_mem_zip together
    obtain ⟨opId, nonce, made⟩ := each.2 together
    exact reads_sealWithNonce held (decodes batch) device (packed batch batchMember) made
      (authentic record recordMember)
  obtain ⟨results, ingested, rejectedOps, all, whole⟩ := mapM_ingest decoded read fun batch member
    op inBatch => valid op (List.mem_flatMap.2 ⟨batch, member, inBatch⟩)
  refine ⟨results, ingested, ?_⟩
  have limits : (∀ batch ∈ batches, Moderate batch) ↔
      ∀ op ∈ batches.flatMap HistoryBatch.ops, Moderate op := by
    simp only [List.forall_mem_flatMap]
    exact forall₂_congr fun batch member => moderate_batch device (packed batch member)
  rw [← limits, ← all]
  constructor
  · exact fun recovered result member => (recovered.2 result member).1
  · exact fun kept => ⟨whole (all.1 kept), fun result member =>
      ⟨kept result member, rejectedOps result member⟩⟩

end

/-! ## A reaction with a long emoji -/

/-- A cipher that hides nothing, with the beginning of the key as the tag. -/
def keyedAead : Aead HistoryKey where
  encrypt key _ _ message := some (message ++ key.bytes.take tagLen)
  decrypt key _ _ ciphertext :=
    if ciphertext.drop (ciphertext.length - tagLen) = key.bytes.take tagLen then
      some (ciphertext.take (ciphertext.length - tagLen))
    else none
  decrypt_encrypt {key} _ _ message _ encrypted := by
    cases encrypted
    simp [key.length_eq, tagLen]
  length_encrypt {key} _ _ _ _ encrypted := by
    cases encrypted
    simp [key.length_eq, tagLen]

def sampleCodec : History.Codec where
  isJsonObject _ := true
  sha256 _ := []
  encodedLen op := (encode op).length

def sampleHistoryKey (byte : UInt8) : HistoryKey := ⟨List.replicate 32 byte, rfl⟩

def sampleSession : HistorySession where
  user := "u@a.org"
  deviceId := "device-1"
  keys := [⟨1, "u@a.org", sampleHistoryKey 1⟩]

/-- Another device after a change of the key. -/
def sampleReader : HistorySession where
  user := "u@a.org"
  deviceId := "device-2"
  keys := [⟨2, "u@a.org", sampleHistoryKey 2⟩, ⟨1, "u@a.org", sampleHistoryKey 1⟩]

def sampleDraw : Draw := ⟨⟨List.replicate 16 112, rfl⟩, State.sampleNonce⟩

/-- A reaction with an emoji of so many bytes. -/
def reactOp (letters : Nat) : HistoryOp where
  op := some (.react {
    target := sampleTarget
    chat := some (sampleGroup "a.org")
    user := "u@a.org"
    stamp := some (sampleStamp 3)
    emoji := String.ofList (List.replicate letters 'x') })

def reactBatch (letters : Nat) : HistoryBatch := ⟨"device-1", 0, [reactOp letters]⟩

def reactRequest (letters : Nat) : AppendRequest where
  opId := sampleDraw.opId.bytes
  aeadCiphertext := sampleDraw.nonce.bytes ++
    (encode (reactBatch letters) ++ (sampleHistoryKey 1).bytes.take tagLen)
  chunk := false

def reactPage (letters : Nat) : SyncResponse where
  records := [{
    seq := 1
    opId := (reactRequest letters).opId
    aeadCiphertext := (reactRequest letters).aeadCiphertext
    chunk := false }]
  more := false
  headSeq := 1
  compacted := none

/-- The inverse of the encoding, as the decoder is. -/
noncomputable def inverseBatch : Bytes -> Option HistoryBatch :=
  Function.partialInv encode

theorem sealOps_ingested_iff_sample :
    ∃ results,
      [encode (reactPage 64)].mapM (sampleReader.ingest sampleCodec keyedAead inverseBatch
        fun _ => some (reactPage 64)) = .ok results ∧
      Recovered results [reactOp 64] := by
  have made : new (fun key _ => key) "u@a.org" [] "device-1" [(sampleHistoryKey 1, 1)] =
      .ok sampleSession := by decide +kernel
  have readerMade : new (fun key _ => key) "u@a.org" [] "device-2"
      [(sampleHistoryKey 2, 2), (sampleHistoryKey 1, 1)] = .ok sampleReader := by decide +kernel
  have written : sampleSession.sealOps sampleCodec keyedAead (fun _ => sampleDraw) [reactOp 64]
      false 0 = .ok [(sampleDraw.opId.bytes, encode (reactRequest 64))] := by decide +kernel
  have decoded : [encode (reactPage 64)].mapM
      (decodeChecked table Table.syncResponseSpec (fun _ => some (reactPage 64)) .server) =
        .ok [reactPage 64] := by decide +kernel
  have authentic : ∀ record ∈ [reactPage 64].flatMap SyncResponse.records,
      Authentic keyedAead sampleReader (sampleHistoryKey 1) "u@a.org" record.request := by
    have refused : decryptRecord keyedAead (sampleHistoryKey 2)
        (recordAad "u@a.org" (reactRequest 64).opId false) (reactRequest 64).aeadCiphertext =
          .error .crypto := by decide +kernel
    intro record member entry held other text
    cases List.mem_singleton.1 member
    rcases List.mem_cons.1 held with rfl | held
    · intro opened
      cases refused.symm.trans opened
    · cases List.mem_singleton.1 held
      exact absurd rfl other
  obtain ⟨results, ingested, recovered⟩ :=
    sealOps_ingested_iff made readerMade (List.mem_cons_of_mem _ List.mem_cons_self) (by simp)
      (fun batch => Function.partialInv_left encode_injective batch) written decoded rfl authentic
  refine ⟨results, ingested, recovered.2 fun op member => ?_⟩
  cases List.mem_singleton.1 member
  refine (moderate_historyOp _).2 fun kind carried => ?_
  cases carried
  have peer : Moderate (sampleGroup "a.org") := by
    refine (moderate_peer _).2 fun kind carried => ?_
    cases carried
    have domain : "a.org".utf8ByteSize ≤ 128 := by decide
    simpa [PeerKind.limits, Group.nested, Moderate, Limited.groups, Group.text, Group.blob]
      using domain
  have react : Moderate (⟨sampleTarget, some (sampleGroup "a.org"), "u@a.org",
      some (sampleStamp 3), String.ofList (List.replicate 64 'x')⟩ : React) := by
    have target : sampleTarget.length ≤ 16 := by decide
    have user : "u@a.org".utf8ByteSize ≤ 255 := by decide
    have emoji : (String.ofList (List.replicate 64 'x')).utf8ByteSize ≤ 64 := by decide +kernel
    have stamp : Moderate (sampleStamp 3) := by
      simp [Moderate, Limited.groups, Group.int64, Group.integer, Group.blob, sampleStamp]
    simp only [Moderate, Limited.groups, List.forall_mem_cons]
    refine ⟨target, ?_, user, ?_, emoji, by simp⟩
    · rintro _ ⟨⟩
      exact peer
    · rintro _ ⟨⟩
      exact stamp
  simpa [Op.limits, Group.nested] using react

/-- A reaction with an emoji of 65 bytes is encrypted, but the record is passed over. -/
theorem reactOp_lost :
    sampleSession.sealOps sampleCodec keyedAead (fun _ => sampleDraw) [reactOp 65] false 0 =
        .ok [(sampleDraw.opId.bytes, encode (reactRequest 65))] ∧
      sampleReader.ingest sampleCodec keyedAead (fun _ => some (reactBatch 65))
        (fun _ => some (reactPage 65)) (encode (reactPage 65)) =
        .ok { more := false, headSeq := 1, compacted := none, rejected := 1 } :=
  ⟨by decide +kernel, by decide +kernel⟩

end HistorySession

end History
end Parvane
