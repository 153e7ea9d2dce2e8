import Parvane.Foundation.Wire

/-!
# SHA-256

Bytes are padded to blocks of 64, and every block is mixed into eight words, which make up the
digest at the end.
-/

namespace Sha256

open Wire (Bytes FixedBytes)

/-- The fractional parts of the cube roots of the first 64 primes. -/
def constants : List UInt32 :=
  [0x428a2f98, 0x71374491, 0xb5c0fbcf, 0xe9b5dba5, 0x3956c25b, 0x59f111f1, 0x923f82a4, 0xab1c5ed5,
    0xd807aa98, 0x12835b01, 0x243185be, 0x550c7dc3, 0x72be5d74, 0x80deb1fe, 0x9bdc06a7, 0xc19bf174,
    0xe49b69c1, 0xefbe4786, 0x0fc19dc6, 0x240ca1cc, 0x2de92c6f, 0x4a7484aa, 0x5cb0a9dc, 0x76f988da,
    0x983e5152, 0xa831c66d, 0xb00327c8, 0xbf597fc7, 0xc6e00bf3, 0xd5a79147, 0x06ca6351, 0x14292967,
    0x27b70a85, 0x2e1b2138, 0x4d2c6dfc, 0x53380d13, 0x650a7354, 0x766a0abb, 0x81c2c92e, 0x92722c85,
    0xa2bfe8a1, 0xa81a664b, 0xc24b8b70, 0xc76c51a3, 0xd192e819, 0xd6990624, 0xf40e3585, 0x106aa070,
    0x19a4c116, 0x1e376c08, 0x2748774c, 0x34b0bcb5, 0x391c0cb3, 0x4ed8aa4a, 0x5b9cca4f, 0x682e6ff3,
    0x748f82ee, 0x78a5636f, 0x84c87814, 0x8cc70208, 0x90befffa, 0xa4506ceb, 0xbef9a3f7, 0xc67178f2]

/-- The eight words that are mixed. -/
structure Words where
  a : UInt32
  b : UInt32
  c : UInt32
  d : UInt32
  e : UInt32
  f : UInt32
  g : UInt32
  h : UInt32

def initial : Words :=
  ⟨0x6a09e667, 0xbb67ae85, 0x3c6ef372, 0xa54ff53a, 0x510e527f, 0x9b05688c, 0x1f83d9ab,
    0x5be0cd19⟩

def rotateRight (count word : UInt32) : UInt32 :=
  word >>> count ||| word <<< (32 - count)

def word (a b c d : UInt8) : UInt32 :=
  a.toUInt32 <<< 24 ||| b.toUInt32 <<< 16 ||| c.toUInt32 <<< 8 ||| d.toUInt32

/-- The words of some bytes, four bytes a word. -/
def words : Bytes -> List UInt32
  | a :: b :: c :: d :: rest => word a b c d :: words rest
  | _ => []

/-- Words follow from the 16 before, the latest of which come first. -/
def extend (count : Nat) (latest : List UInt32) : List UInt32 :=
  match count with
  | 0 => latest
  | count + 1 =>
      let near := latest.getD 1 0
      let far := latest.getD 14 0
      let next := latest.getD 15 0 + latest.getD 6 0 +
        (rotateRight 7 far ^^^ rotateRight 18 far ^^^ far >>> 3) +
        (rotateRight 17 near ^^^ rotateRight 19 near ^^^ near >>> 10)
      extend count (next :: latest)

def mix (state : Words) (constant scheduled : UInt32) : Words :=
  let first := state.h +
    (rotateRight 6 state.e ^^^ rotateRight 11 state.e ^^^ rotateRight 25 state.e) +
    (state.e &&& state.f ^^^ ~~~state.e &&& state.g) + constant + scheduled
  let second :=
    (rotateRight 2 state.a ^^^ rotateRight 13 state.a ^^^ rotateRight 22 state.a) +
    (state.a &&& state.b ^^^ state.a &&& state.c ^^^ state.b &&& state.c)
  ⟨first + second, state.a, state.b, state.c, state.d + first, state.e, state.f, state.g⟩

def compress (state : Words) (block : Bytes) : Words :=
  let schedule := (extend 48 (words block).reverse).reverse
  let mixed := (constants.zip schedule).foldl (fun state (constant, scheduled) =>
    mix state constant scheduled) state
  ⟨state.a + mixed.a, state.b + mixed.b, state.c + mixed.c, state.d + mixed.d, state.e + mixed.e,
    state.f + mixed.f, state.g + mixed.g, state.h + mixed.h⟩

def bigEndian (value : UInt32) : Bytes :=
  [(value >>> 24).toUInt8, (value >>> 16).toUInt8, (value >>> 8).toUInt8, value.toUInt8]

def padded (bytes : Bytes) : Bytes :=
  bytes ++ 0x80 :: List.replicate ((119 - bytes.length % 64) % 64) 0 ++
    bigEndian (UInt32.ofNat (bytes.length * 8 / 2 ^ 32)) ++
    bigEndian (UInt32.ofNat (bytes.length * 8))

/-- Compress so many blocks. -/
def compressAll (count : Nat) (state : Words) (bytes : Bytes) : Words :=
  match count with
  | 0 => state
  | count + 1 => compressAll count (compress state (bytes.take 64)) (bytes.drop 64)

def output (state : Words) : FixedBytes 32 :=
  ⟨bigEndian state.a ++ bigEndian state.b ++ bigEndian state.c ++ bigEndian state.d ++
    bigEndian state.e ++ bigEndian state.f ++ bigEndian state.g ++ bigEndian state.h, rfl⟩

def sha256 (bytes : Bytes) : FixedBytes 32 :=
  output (compressAll ((padded bytes).length / 64) initial (padded bytes))

/-- The digest of a text that every implementation is tried on. -/
example : (sha256 (Wire.utf8 "abc")).bytes =
    [0xba, 0x78, 0x16, 0xbf, 0x8f, 0x01, 0xcf, 0xea, 0x41, 0x41, 0x40, 0xde, 0x5d, 0xae, 0x22, 0x23,
      0xb0, 0x03, 0x61, 0xa3, 0x96, 0x17, 0x7a, 0x9c, 0xb4, 0x10, 0xff, 0x61, 0xf2, 0x00, 0x15,
      0xad] := by
  decide +kernel

end Sha256
