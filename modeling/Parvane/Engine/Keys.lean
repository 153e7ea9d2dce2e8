import Parvane.Engine.Messages

/-!
# What a client keeps of its chats

Besides messages, a client keeps the keys that the devices of its user share, the operations that
it has seen, and the wish for privacy in its chats.
-/

/-!
## Keys that the devices of a user share

The delivery key lets others deliver to the user; the state key encrypts the state of the
user.  Each key has a number that grows with every rotation.  A device takes over a key
that another one of the devices sent if its number is greater.
-/

namespace Parvane
namespace Engine

open Wire Sign Identity

def maxGenerationJump : Nat := 1024
def formerStateKeysMax : Nat := 16

/-- A new generation is greater, but not by too much. -/
def generationStepOk (current new : UInt64) : Bool :=
  current < new && (new - current).toNat ≤ maxGenerationJump

theorem generationStepOk_iff (current new : UInt64) :
    generationStepOk current new = true ↔
      current.toNat < new.toNat ∧ new.toNat ≤ current.toNat + maxGenerationJump := by
  rw [generationStepOk, Bool.and_eq_true, decide_eq_true_iff, decide_eq_true_iff,
    UInt64.lt_iff_toNat_lt]
  refine and_congr_right fun greater => ?_
  rw [UInt64.toNat_sub_of_le _ _ (UInt64.le_iff_toNat_le.2 greater.le)]
  omega

/-! ## The delivery key -/

/-- The delivery key, and which generation each peer has. -/
@[ext] structure OwnDeliveryKey where
  key : Hash
  generation : UInt64
  shared : Std.ExtTreeMap String UInt64

namespace OwnDeliveryKey

/-- The first key. -/
def new (key : Hash) : OwnDeliveryKey := ⟨key, 1, ∅⟩

variable (own : OwnDeliveryKey)

def needsShare (peer : String) : Bool :=
  own.shared[peer]? != some own.generation

def markShared (peer : String) : OwnDeliveryKey :=
  { own with shared := own.shared.insert peer own.generation }

/-- A new key.  The peers that had the former one, besides those excluded, get it next. -/
def rotate (fresh : Hash) (exclude : List String) : OwnDeliveryKey × List String :=
  let rotated : OwnDeliveryKey :=
    { key := fresh
      generation := Domain.saturatingSucc own.generation
      shared := exclude.foldl Std.ExtTreeMap.erase own.shared }
  (rotated, rotated.shared.keys)

/-- Take over a newer key from another device. -/
def adopt (key : Bytes) (generation : UInt64) : OwnDeliveryKey :=
  match FixedBytes.ofBytes? 32 key with
  | some key =>
      if generationStepOk own.generation generation then
        { own with key := key, generation := generation }
      else own
  | none => own

end OwnDeliveryKey

/-! ## The state key -/

/-- The following version, or the last one there is. -/
def nextKeyVersion (version : UInt32) : UInt32 :=
  if version.toNat + 1 < UInt32.size then version + 1 else version

/-- The key of the personal state with its version, and the former ones, the last first. -/
structure StateKeys where
  current : Option (Hash × UInt32) := none
  former : List (Hash × UInt32) := []
  deriving DecidableEq

namespace StateKeys

variable (keys : StateKeys)

/-- Another key becomes the current one. -/
def replace (key : Hash) (version : UInt32) : StateKeys where
  current := some (key, version)
  former :=
    (match keys.current with
      | none => keys.former
      | some old =>
          if old.1 != key && !keys.former.any (fun known => known.1 == old.1) then
            (old :: keys.former).take formerStateKeysMax
          else keys.former).filter fun known => known.1 != key

/-- The key of a share, which has to be of the own user. -/
def fromShare (share : StateKeyShare) (expectedUser : String) : Result (Hash × UInt32) := do
  let user ← present share.user (.invalidField "user")
  checkUser user
  require (user.address == expectedUser) .contextMismatch
  let key ← present (FixedBytes.ofBytes? 32 share.stateKey) (.invalidField "state_key")
  return (key, share.keyVersion)

/-- A share for the other devices of the user. -/
def toShare (key : Hash) (version : UInt32) (user : String) : Result StateKeyShare := do
  require (isValidAddress user) .badAddress
  return ⟨some ⟨user⟩, key.bytes, version⟩

/-- The version is greater than that of the current key. -/
def isNewer (version : UInt32) : Bool :=
  keys.current.all fun current => current.2 < version

/-- Take over a newer key from another device. -/
def accept (key : Hash) (version : UInt32) : StateKeys :=
  if keys.isNewer version then keys.replace key version else keys

end StateKeys

end Engine
end Parvane

/-!
## Operations that were seen

A client keeps a short fingerprint of every operation that it opened, and refuses the
operation when it comes again.  The oldest fingerprints are dropped when there are too
many.
-/

namespace Parvane
namespace Engine

open Wire Sign

def seenCap : Nat := 20000

/-- The last items of a list, as many as there is room for. -/
def keepLast (room : Nat) (items : List α) : List α :=
  (items.reverse.take room).reverse

/-- Half of the hash of a key. -/
abbrev SeenHash := Bytes

def seenHash (library : Sign.Library) (key : Bytes) : SeenHash :=
  (library.sha256 key).bytes.take 16

/-- The number of a length in four bytes. -/
def bigEndian32 (number : Nat) : Bytes :=
  (List.range 4).map fun index => UInt8.ofNat (number / 256 ^ (3 - index))

/-- Several parts as one key. -/
def seenKey (parts : List Bytes) : Bytes :=
  (parts.map fun part => bigEndian32 part.length ++ part).flatten

/-- The fingerprints that were seen, the oldest first, and how many are kept. -/
structure ReplayGuard (cap : Nat) where
  order : List Bytes := []
  deriving DecidableEq

namespace ReplayGuard

variable {cap : Nat} (guard : ReplayGuard cap)

def contains (key : Bytes) : Bool := guard.order.contains key

/-- Add a fingerprint at the end; the oldest make room for it. -/
def insert (key : Bytes) : ReplayGuard cap :=
  ⟨keepLast (max cap 1) (guard.order ++ [key])⟩

/-- The fingerprint must be new. -/
def checkAndInsert (key : Bytes) : Result (ReplayGuard cap) := do
  require (!guard.contains key) .duplicate
  return guard.insert key

/-- The last fingerprint is never dropped. -/
theorem contains_insert (key : Bytes) : (guard.insert key).contains key = true := by
  obtain ⟨room, enough⟩ : ∃ room, max cap 1 = room + 1 := ⟨max cap 1 - 1, by omega⟩
  simp [contains, insert, keepLast, enough]

/-- Neither is the one before it, if there is room for two. -/
theorem contains_insert_insert (twice : 2 ≤ cap) (key other : Bytes) :
    ((guard.insert key).insert other).contains key = true := by
  obtain ⟨room, enough⟩ : ∃ room, max cap 1 = room + 2 := ⟨max cap 1 - 2, by omega⟩
  simp [contains, insert, keepLast, enough]

theorem checkAndInsert_of_new {key : Bytes} (isNew : guard.contains key = false) :
    guard.checkAndInsert key = .ok (guard.insert key) := by
  simp [checkAndInsert, isNew, require, bind, Except.bind, pure, Except.pure]

theorem checkAndInsert_of_seen {key : Bytes} (seen : guard.contains key = true) :
    guard.checkAndInsert key = .error .duplicate := by
  simp [checkAndInsert, seen, require, bind, Except.bind]

end ReplayGuard

end Engine
end Parvane

/-!
## Enhanced privacy

In a chat with enhanced privacy the sizes of envelopes are padded.  In a chat of two it is
on as soon as one of them wants it; in a group the group decides, and a member may pad the
own messages nevertheless.
-/

namespace Parvane
namespace Engine

inductive ChatKind
  | direct
  | group
  deriving DecidableEq

/-- What one member wants, with the time at which it was said. -/
structure L2Pref where
  enabled : Bool := false
  tsMs : Int64 := 0
  deriving DecidableEq

/-- The other one is newer; at the same time, enabling wins. -/
def L2Pref.supersededBy (pref other : L2Pref) : Bool :=
  pref.tsMs < other.tsMs || (other.tsMs == pref.tsMs && other.enabled && !pref.enabled)

/-- The preferences of a chat. -/
structure L2State where
  kind : ChatKind
  prefs : Std.ExtTreeMap String L2Pref := ∅
  groupPolicy : L2Pref := {}

namespace L2State

def new (kind : ChatKind) : L2State := { kind := kind }

variable (state : L2State)

/-- Take in what a member wants. -/
def setPref (user : String) (pref : L2Pref) : L2State :=
  match state.prefs[user]? with
  | some current =>
      if current.supersededBy pref then { state with prefs := state.prefs.insert user pref }
      else state
  | none => { state with prefs := state.prefs.insert user pref }

/-- Take in what the group decided. -/
def setGroupPolicy (pref : L2Pref) : L2State :=
  if state.groupPolicy.supersededBy pref then { state with groupPolicy := pref } else state

def pref (user : String) : L2Pref :=
  state.prefs[user]?.getD {}

/-- Enhanced privacy is on in the chat. -/
def active (participants : List String) : Bool :=
  match state.kind with
  | .direct => participants.any fun user => (state.pref user).enabled
  | .group => state.groupPolicy.enabled

/-- The messages of a user have to be padded. -/
def mustPad (me : String) (participants : List String) : Bool :=
  state.active participants || (state.pref me).enabled

theorem pref_of_recorded {state : L2State} {user : String} {pref : L2Pref}
    (recorded : state.prefs[user]? = some pref) : state.pref user = pref := by
  rw [L2State.pref, recorded]
  rfl

@[simp] theorem kind_setPref (user : String) (pref : L2Pref) :
    (state.setPref user pref).kind = state.kind := by
  unfold setPref
  split
  · split <;> rfl
  · rfl

end L2State

/-- The preferences of a chat of two. -/
structure DirectL2 extends L2State where
  isDirect : kind = .direct

namespace DirectL2

def new : DirectL2 := ⟨.new .direct, rfl⟩

variable (state : DirectL2)

def setPref (user : String) (pref : L2Pref) : DirectL2 :=
  ⟨state.toL2State.setPref user pref, by rw [L2State.kind_setPref, state.isDirect]⟩

theorem mustPad_eq (me chat : String) :
    state.mustPad me [me, chat] = ((state.pref me).enabled || (state.pref chat).enabled) := by
  simp only [L2State.mustPad, L2State.active, state.isDirect, List.any_cons, List.any_nil,
    Bool.or_false]
  cases (state.pref me).enabled <;> simp

end DirectL2

end Engine
end Parvane
