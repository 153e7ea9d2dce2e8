import Parvane.History.Limits
import Parvane.History.Segments
import Parvane.Sign
import Parvane.State.Journal

/-!
# Records of the message history

Operations are packed into batches and encrypted for the journal under the current key of the
session.  A session reads records with all its keys, the current and the former ones under the
current and the former addresses.  A record that does not open is counted and passed over.
-/

namespace Parvane

open Codec

namespace History

open Wire State

def aadPrefix : Bytes := utf8 "parvane/v2/history" ++ [0]

/-- How many operations a record may hold. -/
def maxBatchOps : Nat := 4096

abbrev HistoryKey := FixedBytes 32

/-- A request to append a record to the journal. -/
@[ext] structure AppendRequest where
  opId : Bytes
  aeadCiphertext : Bytes
  chunk : Bool
  deriving DecidableEq

instance : Message AppendRequest where
  fields request :=
    bytes 1 request.opId ++ bytes 2 request.aeadCiphertext ++ flag 3 request.chunk
  fields_injective first second equal := by
    simpa [AppendRequest.ext_iff] using select_each [1, 2, 3] equal

/-- A record as the server returns it. -/
@[ext] structure HistoryRecord where
  seq : UInt64
  opId : Bytes
  aeadCiphertext : Bytes
  chunk : Bool
  deriving DecidableEq

instance : Message HistoryRecord where
  fields record :=
    uint64 1 record.seq ++ bytes 2 record.opId ++ bytes 3 record.aeadCiphertext ++
      flag 4 record.chunk
  fields_injective first second equal := by
    simpa [HistoryRecord.ext_iff] using select_each [1, 2, 3, 4] equal

@[ext] structure Checkpoint where
  id : UInt64
  uptoSeq : UInt64
  summarySeq : UInt64
  chunkSeqs : List UInt64
  createdMs : Int64
  deriving DecidableEq

instance : Message Checkpoint where
  fields checkpoint :=
    uint64 1 checkpoint.id ++ uint64 2 checkpoint.uptoSeq ++ uint64 3 checkpoint.summarySeq ++
      packed 4 (checkpoint.chunkSeqs.map UInt64.toNat) ++ int64 5 checkpoint.createdMs
  fields_injective first second equal := by
    have toNat_injective : Function.Injective UInt64.toNat := fun _ _ => UInt64.toNat_inj.1
    have maps := toNat_injective.list_map.eq_iff (a := first.chunkSeqs) (b := second.chunkSeqs)
    simpa [Checkpoint.ext_iff, maps] using select_each [1, 2, 3, 4, 5] equal

/-- The answer to `history.sync` or `history.get`. -/
@[ext] structure SyncResponse where
  records : List HistoryRecord
  more : Bool
  headSeq : UInt64
  compacted : Option Checkpoint
  deriving DecidableEq

instance : Message SyncResponse where
  fields response :=
    repeated 1 response.records ++ flag 2 response.more ++ uint64 3 response.headSeq ++
      message 4 response.compacted
  fields_injective first second equal := by
    simpa [SyncResponse.ext_iff] using select_each [1, 2, 3, 4] equal

/-- The request that a record was made of. -/
def HistoryRecord.request (record : HistoryRecord) : AppendRequest where
  opId := record.opId
  aeadCiphertext := record.aeadCiphertext
  chunk := record.chunk

/-- The associated data of a record. -/
def recordAad (address : String) (opId : Bytes) (chunk : Bool) : Bytes :=
  aadPrefix ++ utf8 address ++ opId ++ [if chunk then 1 else 0]

/-! ## Batches -/

/-- The bytes that an operation takes in a batch: a tag, a length and the operation. -/
def cost (op : HistoryOp) : Nat :=
  1 + (encodeVarint (encode op).length).length + (encode op).length

/-- Distribute operations over batches.  The current batch holds some already and takes so many
bytes. -/
def packFrom (deviceId : String) (tsMs : Int64) (head : Nat) :
    List HistoryOp -> Nat -> List HistoryOp -> Result (List HistoryBatch)
  | current, _, [] => .ok (if current.isEmpty then [] else [⟨deviceId, tsMs, current⟩])
  | current, used, op :: ops =>
      if batchBudget < head + cost op then .error (.fieldLimit "op")
      else if !current.isEmpty && (batchBudget < used + cost op || maxBatchOps ≤ current.length)
        then do
          let batches ← packFrom deviceId tsMs head [op] (head + cost op) ops
          return ⟨deviceId, tsMs, current⟩ :: batches
      else packFrom deviceId tsMs head (current ++ [op]) (used + cost op) ops

def pack (ops : List HistoryOp) (deviceId : String) (tsMs : Int64) :
    Result (List HistoryBatch) := do
  require (isValidDeviceId deviceId) (.invalidField "device_id")
  let head := (encode (⟨deviceId, tsMs, []⟩ : HistoryBatch)).length
  packFrom deviceId tsMs head [] head ops

/-! ## Records -/

/-- What is drawn at random for a record. -/
structure Draw where
  opId : FixedBytes 16
  nonce : FixedBytes nonceLen

section

variable (aead : Aead HistoryKey)

def sealWithNonce
    (key : HistoryKey) (address : String) (opId : Bytes) (chunk : Bool) (batch : HistoryBatch)
    (nonce : FixedBytes nonceLen) : Result AppendRequest := do
  require (isValidAddress address) .badAddress
  require (Sign.isValidOpId opId) (.invalidField "op_id")
  let data ← encryptRecord aead key nonce (recordAad address opId chunk) (encode batch)
  return { opId, aeadCiphertext := data, chunk }

/-- Decrypt a record and decode the batch through the limits of the schema. -/
def openRecord
    (decode : Bytes -> Option HistoryBatch) (key : HistoryKey) (address : String) (opId : Bytes)
    (chunk : Bool) (data : Bytes) : Result HistoryBatch := do
  require (isValidAddress address) .badAddress
  id16 opId "op_id"
  let text ← decryptRecord aead key (recordAad address opId chunk) data
  let batch ← decodeChecked table Table.historyBatchSpec decode .client text
  require (isValidDeviceId batch.deviceId) (.invalidField "device_id")
  return batch

end

/-! ## The session -/

/-- A record that a session has opened. -/
structure OpenedRecord where
  seq : UInt64
  chunk : Bool
  opId : Bytes
  first : Nat
  count : Nat
  keyVersion : UInt32
  stale : Bool
  deviceId : String
  deriving DecidableEq

structure Ingested where
  ops : List HistoryOp := []
  records : List OpenedRecord := []
  more : Bool
  headSeq : UInt64
  compacted : Option Checkpoint
  rejected : Nat := 0
  rejectedOps : Nat := 0
  deriving DecidableEq

structure SessionKey where
  version : UInt32
  address : String
  key : HistoryKey
  deriving DecidableEq

structure HistorySession where
  user : String
  deviceId : String
  keys : List SessionKey
  deriving DecidableEq

namespace HistorySession

/-- The keys of a session: each key of the state, the current one first, under each address of
the user. -/
def new
    (derive : StateKey -> String -> HistoryKey) (user : String) (former : List String)
    (deviceId : String)
    (stateKeys : List (StateKey × UInt32)) : Result HistorySession := do
  require (isValidAddress user) .badAddress
  require (isValidDeviceId deviceId) (.invalidField "device_id")
  require (!stateKeys.isEmpty) .notFound
  return {
    user, deviceId
    keys := stateKeys.flatMap fun (stateKey, version) =>
      (user :: former).map fun address => ⟨version, address, derive stateKey address⟩ }

section

variable (codec : Codec) (aead : Aead HistoryKey)

/-- Encrypt batches under one key. -/
def sealBatches (session : HistorySession) (key : HistoryKey) (chunk : Bool) (draws : Nat -> Draw) :
    Nat -> List HistoryBatch -> Result (List (Bytes × Bytes))
  | _, [] => .ok []
  | index, batch :: batches => do
      let draw := draws index
      let request ← sealWithNonce aead key session.user draw.opId.bytes chunk batch draw.nonce
      let requests ← sealBatches session key chunk draws (index + 1) batches
      return (draw.opId.bytes, encode request) :: requests

/-- Encrypt operations for the journal; each of them is checked before.  The requests come with
the identifiers of the records. -/
def sealOps
    (session : HistorySession) (draws : Nat -> Draw) (ops : List HistoryOp) (chunk : Bool)
    (tsMs : Int64) : Result (List (Bytes × Bytes)) := do
  ops.forM (validateOp codec)
  let current ← present session.keys.head? .notFound
  let batches ← pack ops session.deviceId tsMs
  sealBatches aead session current.key chunk draws 0 batches

variable (decode : Bytes -> Option HistoryBatch) (decodeSync : Bytes -> Option SyncResponse)

/-- Open a record with the first key that fits. -/
def openAny (session : HistorySession) (opId : Bytes) (chunk : Bool) (data : Bytes) :
    Option (HistoryBatch × UInt32 × Bool) :=
  session.keys.zipIdx.findSome? fun (entry, index) =>
    match openRecord aead decode entry.key entry.address opId chunk data with
    | .ok batch => some (batch, entry.version, index != 0)
    | .error _ => none

/-- Take in a record. -/
def ingestRecord (session : HistorySession) (out : Ingested) (record : HistoryRecord) : Ingested :=
  match session.openAny aead decode record.opId record.chunk record.aeadCiphertext with
  | none => { out with rejected := out.rejected + 1 }
  | some (batch, keyVersion, stale) =>
      let valid := batch.ops.filter fun op => (validateOp codec op).isOk
      { out with
        ops := out.ops ++ valid
        rejectedOps := out.rejectedOps + (batch.ops.length - valid.length)
        records := out.records ++ [{
          seq := record.seq
          chunk := record.chunk
          opId := record.opId
          first := out.ops.length
          count := valid.length
          keyVersion, stale
          deviceId := batch.deviceId }] }

/-- Take in the answer to `history.sync` or `history.get`. -/
def ingest (session : HistorySession) (response : Bytes) : Result Ingested := do
  let response ← decodeChecked table Table.syncResponseSpec decodeSync .server response
  return response.records.foldl (ingestRecord codec aead decode session) {
    more := response.more && !response.records.isEmpty
    headSeq := response.headSeq
    compacted := response.compacted }

end

end HistorySession

end History
end Parvane
