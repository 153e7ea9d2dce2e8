import Parvane.Core
import Mathlib.Data.Prod.Lex

/-!
# Stamps and authors of a container

The domains of a container order their writers by `(lamport, device_id)`.  The
device in a stamp has to be the device that signed the operation.
-/

namespace Parvane.Domain

open Wire

/-- A stamp as it is sent. -/
@[ext] structure LwwStamp where
  lamport : UInt64
  deviceId : String
  deriving DecidableEq, Repr

instance : Message LwwStamp where
  fields stamp := uint64 1 stamp.lamport ++ string 2 stamp.deviceId
  fields_injective first second equal := by
    simpa [LwwStamp.ext_iff] using select_each [1, 2] equal

/-- A checked stamp. -/
@[ext] structure Stamp where
  lamport : UInt64
  deviceId : String
  deriving DecidableEq, Repr

namespace Stamp

/-- The order of comparison. -/
def key (stamp : Stamp) : UInt64 ×ₗ String :=
  toLex (stamp.lamport, stamp.deviceId)

theorem key_injective : Function.Injective key := by
  intro first second equal
  simp only [key, EmbeddingLike.apply_eq_iff_eq, Prod.mk.injEq] at equal
  exact Stamp.ext equal.1 equal.2

instance : LinearOrder Stamp :=
  LinearOrder.lift' key key_injective

def fromPb (stamp : Option LwwStamp) : Result Stamp := do
  let stamp ← present stamp (.invalidField "stamp")
  require (stamp.lamport != 0) (.invalidField "lamport")
  require (isValidDeviceId stamp.deviceId) (.invalidField "device_id")
  return ⟨stamp.lamport, stamp.deviceId⟩

def toPb (stamp : Stamp) : LwwStamp :=
  ⟨stamp.lamport, stamp.deviceId⟩

end Stamp

/-- Who signed an operation: a user, the device, and other addresses of the same
person. -/
@[ext] structure Author where
  user : String
  deviceId : String
  aliases : List String
  deriving DecidableEq

namespace Author

/-- The address is one of the author's. -/
def is (author : Author) (user : String) : Bool :=
  author.user == user || author.aliases.any (· == user)

/-- All addresses of the author. -/
def names (author : Author) : List String :=
  author.user :: author.aliases

end Author

end Parvane.Domain
