import Parvane.Codec.Records
import Parvane.State.Convergence
import Parvane.State.Limits

/-!
# Records of the personal state

An operation of the personal state is applied on the device that makes it and encrypted for the
journal, where the other devices of the account read it.  They decode it through the limits of
the schema, which neither the application nor the encryption looks at.
-/

namespace Parvane.State

open Wire Codec

def stateKeyLen : Nat := 32
def aadPrefix : Bytes := utf8 "parvane/v2/state" ++ [0]

abbrev StateKey := FixedBytes stateKeyLen

/-- A request to append a record to the journal. -/
structure AppendRequest where
  opId : Bytes
  aeadCiphertext : Bytes
  deriving DecidableEq

/-- The associated data of a record. -/
def recordAad (user : String) (opId : Bytes) : Bytes :=
  aadPrefix ++ utf8 user ++ opId

section

variable (aead : Aead StateKey) (decode : Bytes -> Option StateOp)

/-- Encrypt an operation for the journal. -/
def sealOp (nonce : FixedBytes nonceLen) (key : StateKey) (user : String) (op : StateOp) :
    Result AppendRequest := do
  require (isValidAddress user) .badAddress
  checkHeader op
  let data ← encryptRecord aead key nonce (recordAad user op.opId) (encode op)
  return { opId := op.opId, aeadCiphertext := data }

/-- Decrypt a record and check that the operation belongs to it. -/
def openRecord (key : StateKey) (user : String) (opId data : Bytes) : Result StateOp := do
  require (isValidAddress user) .badAddress
  require (opId.length == opIdLen) (.invalidField "op_id")
  let text ← decryptRecord aead key (recordAad user opId) data
  let op ← decodeChecked table Table.stateOpSpec decode .client text
  require (op.opId == opId) .contextMismatch
  checkHeader op
  return op

/-- The limits of an operation: those of its header and of what it carries. -/
theorem moderate_stateOp (op : StateOp) :
    Moderate op ↔
      op.opId.length ≤ 16 ∧ op.deviceId.utf8ByteSize ≤ 64 ∧ ∀ kind ∈ op.op, kind.limits.within := by
  have carried : (∀ group ∈ Group.oneof (Table.stateOpSpec.fields.drop 4) (op.op.map Op.limits),
      group.within) ↔ ∀ kind ∈ op.op, kind.limits.within := by
    rw [Group.within_oneof, Option.forall_mem_map]
    rw [Option.forall_mem_map]
    exact fun kind _ => kind.known_limits
  rw [← carried]
  simp [Moderate, Limited.groups, Group.blob, Group.text, Group.uint64, Group.int64,
    Group.integer, or_imp, forall_and]

theorem length_opId {op : StateOp} (header : checkHeader op = .ok ()) :
    (op.opId.length == opIdLen) = true := by
  simp only [checkHeader, bind_eq_ok, opId16, present_eq_ok] at header
  obtain ⟨opId, known, -⟩ := header
  rw [FixedBytes.ofBytes?] at known
  split at known
  · next length => exact beq_iff_eq.2 length
  · cases known

/-- The operation in a record is read again exactly when its fields keep the limits. -/
theorem openRecord_sealOp
    {nonce : FixedBytes nonceLen} {key : StateKey} {user : String} {op : StateOp}
    {request : AppendRequest}
    (decoded : decode (encode op) = some op)
    (made : sealOp aead nonce key user op = .ok request) :
    openRecord aead decode key user request.opId request.aeadCiphertext = .ok op ↔
      Moderate op := by
  simp only [sealOp, bind_eq_ok, require_eq_ok, pure, Except.pure, Except.ok.injEq] at made
  obtain ⟨_, valid, _, header, data, encrypted, rfl⟩ := made
  have fits := length_of_encryptRecord encrypted
  have short : (encode op).length ≤ maxFrame :=
    le_trans (by omega) (fits.2.trans (by decide : maxRecord ≤ maxFrame))
  have opened : decodeChecked table Table.stateOpSpec decode .client (encode op) = .ok op ↔
      Moderate op ∧ op = op :=
    decodeChecked_encode (by decide) short decoded
  simp only [openRecord, bind_eq_ok, require_eq_ok, valid, length_opId header, header,
    decryptRecord_encryptRecord encrypted, BEq.rfl, pure, Except.pure, Except.ok.injEq,
    ↓existsAndEq, true_and, exists_const]
  rw [and_true, opened, and_iff_left rfl]

/-- Of the operations that are applied and encrypted on one device, the others read and apply
those whose fields keep the limits of the schema, and no others. -/
theorem journal_opens_iff
    (sha256 : Bytes -> Digest)
    {nonce : FixedBytes nonceLen}
    {key : StateKey}
    {user : String}
    {op : StateOp}
    {state : PersonalState}
    {request : AppendRequest}
    (decodes : ∀ op, decode (encode op) = some op)
    (applied : ((apply sha256 op).exec state).1 = .ok ())
    (made : sealOp aead nonce key user op = .ok request) :
    (openRecord aead decode key user request.opId request.aeadCiphertext = .ok op ∧
        ∀ other, ((apply sha256 op).exec other).1 = .ok ()) ↔
      Moderate op := by
  rw [openRecord_sealOp aead decode (decodes op) made]
  refine and_iff_left fun other => ?_
  rcases exec_apply sha256 op with ⟨_, error, refused⟩ | ⟨_, carriedOut⟩
  · rw [refused] at applied
    cases applied
  · rw [carriedOut]

end

/-! ## A folder with a long title -/

/-- A cipher that hides nothing, with an empty tag. -/
def plainAead : Aead StateKey where
  encrypt _ _ _ message := some (message ++ List.replicate tagLen 0)
  decrypt _ _ _ ciphertext := some (ciphertext.take (ciphertext.length - tagLen))
  decrypt_encrypt encrypted := by
    cases encrypted
    simp
  length_encrypt encrypted := by
    cases encrypted
    simp

def sampleNonce : FixedBytes nonceLen := ⟨List.replicate nonceLen 0, rfl⟩

def sampleStateKey : StateKey := ⟨List.replicate stateKeyLen 7, rfl⟩

/-- A folder with a title of so many letters of two bytes each. -/
def titledFolder (letters : Nat) : Folder where
  id := 2
  title := String.ofList (List.replicate letters 'я')
  emoticon := ""
  includePeers := []
  excludePeers := []
  pinnedPeers := []
  contacts := false
  nonContacts := false
  groups := true
  channels := false
  bots := false
  excludeMuted := false
  excludeRead := false
  excludeArchived := false
  color := 0

def titledOp (letters : Nat) : StateOp where
  opId := List.replicate 16 1
  lamport := 1
  deviceId := "device-1"
  tsMs := 0
  op := some (.folderSet (titledFolder letters))

def titledRequest (letters : Nat) : AppendRequest where
  opId := (titledOp letters).opId
  aeadCiphertext := sampleNonce.bytes ++ (encode (titledOp letters) ++ List.replicate tagLen 0)

theorem apply_titledOp (sha256 : Bytes -> Digest) (letters : Nat) :
    ((apply sha256 (titledOp letters)).exec .new).1 = .ok () := by
  have header : checkHeader (titledOp letters) = .ok () := by
    have device : isValidDeviceId "device-1" = true := by decide +kernel
    simp [checkHeader, titledOp, device, opId16, FixedBytes.ofBytes?, acceptLamportCeiling, present,
      require]
  have opId : opId16 (titledOp letters).opId "op_id" = .ok ⟨List.replicate 16 1, rfl⟩ := rfl
  have kind : (titledOp letters).op = some (.folderSet (titledFolder letters)) := rfl
  have folder : checkFolder (titledFolder letters) = .ok () := rfl
  simp [apply, header, opId, kind, applyKind, folder]

theorem moderate_titledFolder : Moderate (titledFolder 64) := by
  have title : (titledFolder 64).title.utf8ByteSize ≤ 128 := by decide +kernel
  simpa [Moderate, Limited.groups, Group.text, Group.list, Group.flag, Group.int32, Group.uint32,
    Group.integer, titledFolder] using title

/-- The inverse of the encoding, as the decoder is. -/
noncomputable def inverseDecode : Bytes -> Option StateOp :=
  Function.partialInv encode

theorem journal_opens_iff_sample :
    openRecord plainAead inverseDecode sampleStateKey "alice@example.org"
        (titledRequest 64).opId (titledRequest 64).aeadCiphertext = .ok (titledOp 64) ∧
      ∀ other, ((apply sampleDigest (titledOp 64)).exec other).1 = .ok () :=
  (journal_opens_iff plainAead inverseDecode sampleDigest
    (fun op => Function.partialInv_left encode_injective op)
    (apply_titledOp sampleDigest 64)
    (by decide +kernel : sealOp plainAead sampleNonce sampleStateKey "alice@example.org"
      (titledOp 64) = .ok (titledRequest 64))).2
    ((moderate_stateOp _).2 ⟨by decide, by decide +kernel, fun kind carried => by
      cases carried
      simpa [Op.limits, Group.nested] using moderate_titledFolder⟩)

/-- A folder with a title of 65 letters is applied and encrypted, but no other device can read
it. -/
theorem titledOp_lost :
    ((apply sampleDigest (titledOp 65)).exec .new).1 = .ok () ∧
      sealOp plainAead sampleNonce sampleStateKey "alice@example.org" (titledOp 65) =
        .ok (titledRequest 65) ∧
      openRecord plainAead (fun _ => some (titledOp 65)) sampleStateKey "alice@example.org"
        (titledRequest 65).opId (titledRequest 65).aeadCiphertext =
          .error (.fieldLimit "title") :=
  ⟨apply_titledOp sampleDigest 65, by decide +kernel, by decide +kernel⟩

end Parvane.State
