import Parvane.Sign
import Parvane.Domain.Stamp
import Std.Data.ExtTreeMap.Lemmas
import Std.Data.ExtTreeSet.Lemmas

/-!
# Access to a container

A container is created by an entry of its owner.  Grants follow in a chain of entries,
each signed by an administrator, or by the participant who leaves.  A revocation starts a
new key epoch.  For each epoch it is kept who may write in it, and up to which operation
the earlier epochs reach.
-/

namespace Parvane.Domain

open Wire Sign

/-- The domain of all signatures here. -/
def signatureDomain : String := "domain"

def opContainer : String := "container"

/-- The entries of a grant log. -/
inductive GrantOp
  | grant
  | revoke
  | rotate
  | leave
  deriving DecidableEq

def GrantOp.name : GrantOp -> String
  | .grant => "grant"
  | .revoke => "revoke"
  | .rotate => "rotate"
  | .leave => "leave"

def GrantOp.ofName (name : String) : Option GrantOp :=
  [grant, revoke, rotate, leave].find? fun op => op.name == name

def firstEpoch : UInt64 := 1

/-- The following number, unless it is too large. -/
def checkedSucc (value : UInt64) : Option UInt64 :=
  if value.toNat + 1 < UInt64.size then some (value + 1) else none

def saturatingSucc (value : UInt64) : UInt64 :=
  (checkedSucc value).getD value

theorem checkedSucc_eq_some {value next : UInt64} (found : checkedSucc value = some next) :
    next.toNat = value.toNat + 1 := by
  unfold checkedSucc at found
  split at found
  · next small =>
      cases found
      rw [UInt64.toNat_add, UInt64.toNat_one, Nat.mod_eq_of_lt small]
  · cases found

inductive GrantLevel
  | unspecified
  | read
  | write
  | admin
  deriving DecidableEq

namespace GrantLevel

def number : GrantLevel -> Int32
  | .unspecified => 0
  | .read => 1
  | .write => 2
  | .admin => 3

def tryFrom (number : Int32) : Option GrantLevel :=
  [unspecified, read, write, admin].find? fun level => level.number == number

def rank : GrantLevel -> Nat
  | .unspecified => 0
  | .read => 1
  | .write => 2
  | .admin => 3

instance : LinearOrder GrantLevel :=
  LinearOrder.lift' rank fun first second equal => by
    cases first <;> cases second <;> first | rfl | cases equal

end GrantLevel

structure Container where
  ref : Option Ref
  domain : String
  owner : Option UserRef
  keyEpoch : UInt64
  deriving DecidableEq

/-- The subject of a grant as it is sent. -/
inductive GranteePb
  | user (user : UserRef)
  | group (group : Ref)
  deriving DecidableEq

structure Grant where
  container : Option Ref
  grantee : Option GranteePb
  level : Int32
  keyEpoch : UInt64
  version : UInt64
  prevHash : Bytes
  epochBoundarySeq : Option UInt64
  deriving DecidableEq

/-- The decoders of payloads, besides what signatures need. -/
structure Library extends Sign.Library where
  decodeContainer : Bytes -> Result Container
  decodeGrant : Bytes -> Result Grant

/-- The subject of a grant. -/
inductive Grantee
  | user (address : String)
  | group (domain : String) (id : Bytes)
  deriving DecidableEq

/-- Whether a user is in the group of a grant. -/
abbrev Membership := Grantee -> String -> Bool

/-- The author that a device key belongs to. -/
abbrev KeyResolver := Hash -> Option Author

namespace Grantee

def fromPb (grantee : Option GranteePb) : Result Grantee :=
  match grantee with
  | some (.user ref) => do
      checkUser ref
      return .user ref.address
  | some (.group ref) => do
      checkRef ref
      return .group ref.domain ref.id
  | none => .error (.invalidField "grantee")

def covers (grantee : Grantee) (user : String) (groups : Membership) : Bool :=
  match grantee with
  | .user address => address == user
  | .group _ _ => groups grantee user

/-- Users come before groups. -/
def key : Grantee -> Bool ×ₗ String ×ₗ Bytes
  | .user address => toLex (false, toLex (address, []))
  | .group domain id => toLex (true, toLex (domain, id))

theorem key_injective : Function.Injective key := by
  intro first second equal
  cases first <;> cases second <;>
    simp_all [key]

instance : LinearOrder Grantee :=
  LinearOrder.lift' key key_injective

instance : Std.LawfulEqOrd Grantee where
  eq_of_compare := compare_eq_iff_eq.1

instance : Std.TransOrd Grantee := inferInstance

end Grantee

/-- What an entry of the grant log changed.  A rotation names the owner. -/
structure GrantEvent where
  version : Nat
  keyEpoch : UInt64
  grantee : Grantee
  level : Option GrantLevel
  signer : Author
  rotate : Bool
  leave : Bool

/-- The access to a container.  The version counts the entries of the grant log. -/
structure ContainerAccess where
  container : Container
  owner : String
  epoch : UInt64
  version : Nat
  hashes : List Hash
  grants : Std.ExtTreeMap Grantee GrantLevel
  writers : Std.ExtTreeMap UInt64 (Std.ExtTreeSet Grantee)
  boundaries : Std.ExtTreeMap UInt64 UInt64

def zeroHash : Hash := ⟨List.replicate 32 0, length_zeros⟩

def containerRef (container : Container) : Result Ref := do
  let ref ← present container.ref (.invalidField "ref")
  checkRef ref
  return ref

def checkDomainName (name : String) : Result Unit :=
  require (isValidName name) (.invalidField "domain")

section

variable (library : Library)

def entryHash (op : SignedOp) : Hash :=
  library.sha256 (domainGrantHashContext ++ op.body ++ op.signature)

def verifyGenesis (op : SignedOp) : Result (Container × Hash) := do
  let verified ← verifyOp library.toLibrary op signatureDomain opContainer none
  let container ← library.decodeContainer verified.payload
  let ref ← containerRef container
  verified.requireTarget ref
  checkDomainName container.domain
  let owner ← present container.owner (.invalidField "owner")
  checkUser owner
  require (container.keyEpoch == firstEpoch) (.invalidField "key_epoch")
  return (container, verified.signer)

end

namespace ContainerAccess

/-- The access after the creation of the container. -/
def fromGenesis (library : Library) (genesis : SignedOp) (resolve : KeyResolver) :
    Result ContainerAccess := do
  let (container, signer) ← verifyGenesis library genesis
  let owner ← present (container.owner.map UserRef.address) (.invalidField "owner")
  require ((resolve signer).any fun author => author.is owner) .forbidden
  return {
    container := container
    owner := owner
    epoch := firstEpoch
    version := 0
    hashes := [entryHash library genesis]
    grants := ∅
    writers := (∅ : Std.ExtTreeMap UInt64 (Std.ExtTreeSet Grantee)).insert firstEpoch ∅
    boundaries := ∅ }

def headHash (access : ContainerAccess) : Hash :=
  access.hashes.getLast?.getD zeroHash

/-- The level of a user: the greatest of the grants that cover the user. -/
def levelOf (access : ContainerAccess) (user : String) (groups : Membership) :
    Option GrantLevel :=
  if user == access.owner then some .admin
  else ((access.grants.toList.filter fun entry => entry.1.covers user groups).map Prod.snd).max?

def canRead (access : ContainerAccess) (user : String) (groups : Membership) : Bool :=
  (access.levelOf user groups).any fun level => GrantLevel.read ≤ level

def canWrite (access : ContainerAccess) (user : String) (groups : Membership) : Bool :=
  (access.levelOf user groups).any fun level => GrantLevel.write ≤ level

def canAdmin (access : ContainerAccess) (user : String) (groups : Membership) : Bool :=
  access.levelOf user groups == some .admin

/-- Whether a user could write in an epoch.  A lower level takes effect with the next
epoch. -/
def couldWriteAt (access : ContainerAccess) (user : String) (epoch : UInt64)
    (groups : Membership) : Bool :=
  if user == access.owner then firstEpoch ≤ epoch && epoch ≤ access.epoch
  else access.writers[epoch]?.any fun writers =>
    writers.toList.any fun grantee => grantee.covers user groups

/-- Who gets the key of the current epoch. -/
def keyRecipients (access : ContainerAccess) : List Grantee :=
  .user access.owner :: access.grants.keys

/-- The grantees that may write now. -/
def writeGrantees (access : ContainerAccess) : Std.ExtTreeSet Grantee :=
  .ofList ((access.grants.toList.filter fun entry => GrantLevel.write ≤ entry.2).map Prod.fst)

/-- An operation of an earlier epoch is not later than any boundary that was declared
since. -/
def withinEpochBoundary (access : ContainerAccess) (epoch seq : UInt64) : Bool :=
  (access.boundaries.toList.filter fun entry => saturatingSucc epoch ≤ entry.1).all
    fun entry => seq ≤ entry.2

/-- A new epoch, with the writers that the grants give. -/
def startEpoch (access : ContainerAccess) (next : UInt64) (boundary : Option UInt64) :
    ContainerAccess :=
  { access with
    epoch := next
    writers := access.writers.insert next access.writeGrantees
    boundaries :=
      match boundary with
      | some seq => access.boundaries.insert next seq
      | none => access.boundaries }

/-- The entry is in the log. -/
def record (access : ContainerAccess) (library : Library) (op : SignedOp) : ContainerAccess :=
  { access with
    version := access.version + 1
    hashes := access.hashes ++ [entryHash library op] }

/-- The key epoch that the description of the container names. -/
def publishEpoch (access : ContainerAccess) : ContainerAccess :=
  { access with container := { access.container with keyEpoch := access.epoch } }

/-- An entry whose signature and place in the log were checked. -/
structure Entry where
  kind : GrantOp
  signer : Hash
  grant : Grant
  deriving DecidableEq

/-- Check the signature of an entry and its place in the log. -/
def readEntry (access : ContainerAccess) (library : Library) (op : SignedOp) : Result Entry := do
  let body ← library.decodeOpBody op.body
  let kind ← present (body.header.bind fun header => GrantOp.ofName header.opType) .contextMismatch
  let verified ← verifyOp library.toLibrary op signatureDomain kind.name none
  let ref ← containerRef access.container
  verified.requireTarget ref
  let grant ← library.decodeGrant verified.payload
  require (grant.container == some ref) .contextMismatch
  require (grant.version.toNat == access.version + 1 && grant.prevHash == access.headHash.bytes)
    .brokenChain
  return ⟨kind, verified.signer, grant⟩

section

variable (library : Library) (op : SignedOp) (resolve : KeyResolver) (groups : Membership)

/-- Take a grant away; fails if there is none. -/
def removeGrant (grantee : Grantee) : Update ContainerAccess Unit := do
  let removed ← modifyGet fun access =>
    (access.grants[grantee]?, { access with grants := access.grants.erase grantee })
  require removed.isSome (.invalidField "grantee")

/-- A participant leaves.  The epoch and its writers stay. -/
def applyLeave (grant : Grant) (signer : Author) : Update ContainerAccess GrantEvent := do
  let access ← get
  let grantee ← Grantee.fromPb grant.grantee
  require
    ((match grantee with
      | .user address => signer.is address
      | .group _ _ => false) && grant.level == GrantLevel.unspecified.number)
    .forbidden
  require (grant.keyEpoch == access.epoch) .expired
  removeGrant grantee
  modify fun access => access.record library op
  let access ← get
  return {
    version := access.version, keyEpoch := access.epoch, grantee := grantee, level := none
    signer := signer, rotate := false, leave := true }

/-- A new epoch with the same grants. -/
def applyRotate (grant : Grant) (signer : Author) : Update ContainerAccess GrantEvent := do
  let access ← get
  let next ← present (checkedSucc access.epoch) (.invalidField "key_epoch")
  require
    (grant.grantee.isNone && grant.level == GrantLevel.unspecified.number && grant.keyEpoch == next)
    (.invalidField "key_epoch")
  modify fun access =>
    ((access.startEpoch next grant.epochBoundarySeq).record library op).publishEpoch
  let access ← get
  return {
    version := access.version, keyEpoch := access.epoch, grantee := .user access.owner
    level := none, signer := signer, rotate := true, leave := false }

/-- Take a grant away and start a new epoch. -/
def applyRevoke (grant : Grant) (grantee : Grantee) (level : GrantLevel) :
    Update ContainerAccess (Option GrantLevel) := do
  let access ← get
  let next ← present (checkedSucc access.epoch) (.invalidField "key_epoch")
  require (level == .unspecified && grant.keyEpoch == next) (.invalidField "key_epoch")
  removeGrant grantee
  modify fun access => access.startEpoch next grant.epochBoundarySeq
  return none

/-- Give a level to a grantee; who may write, may do so in the current epoch. -/
def applyGrant (grant : Grant) (grantee : Grantee) (level : GrantLevel) :
    Update ContainerAccess (Option GrantLevel) := do
  let access ← get
  require (level != .unspecified) (.invalidField "level")
  require (grant.keyEpoch == access.epoch) .expired
  modify fun access => { access with grants := access.grants.insert grantee level }
  if GrantLevel.write ≤ level then
    modify fun access =>
      { access with
        writers := access.writers.insert access.epoch
          ((access.writers[access.epoch]?.getD ∅).insert grantee) }
  return some level

/-- Apply an entry of the grant log. -/
def apply : Update ContainerAccess GrantEvent := do
  let access ← get
  let entry ← access.readEntry library op
  let signer ← present (resolve entry.signer) .forbidden
  if entry.kind == .leave then
    applyLeave library op entry.grant signer
  else
    require (signer.names.any fun user => access.canAdmin user groups) .forbidden
    if entry.kind == .rotate then
      applyRotate library op entry.grant signer
    else
      let grantee ← Grantee.fromPb entry.grant.grantee
      require (grantee != .user access.owner) .forbidden
      let level ← present (GrantLevel.tryFrom entry.grant.level) (.invalidField "level")
      let eventLevel ←
        if entry.kind == .revoke then applyRevoke entry.grant grantee level
        else applyGrant entry.grant grantee level
      modify fun access => (access.record library op).publishEpoch
      let access ← get
      return {
        version := access.version, keyEpoch := access.epoch, grantee := grantee
        level := eventLevel, signer := signer, rotate := false, leave := false }

end

/-- The signature of the author of an operation or a snapshot, checked. -/
structure VerifiedSeal where
  signer : Hash
  opId : Bytes
  tsMs : Int64

/-- The author of an operation, who has to have been a writer in its epoch. -/
def authorAt (access : ContainerAccess) (verified : VerifiedSeal) (epoch seq : UInt64)
    (resolve : KeyResolver) (groups : Membership) : Result Author := do
  require (epoch ≤ access.epoch) .expired
  require (access.withinEpochBoundary epoch seq) .forbidden
  let author ← present (resolve verified.signer) .forbidden
  require (author.names.any fun user => access.couldWriteAt user epoch groups) .forbidden
  return author

end ContainerAccess

end Parvane.Domain
