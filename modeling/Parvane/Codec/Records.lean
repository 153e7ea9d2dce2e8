import Parvane.Core

/-!
# Encrypted records

A record of an encrypted journal is a nonce, a ciphertext and a tag.  The cipher is another
library's: what it has encrypted under a key, a nonce and associated data it decrypts again under
the same ones, and the tag has sixteen bytes.
-/

namespace Parvane.Codec

open Wire

def nonceLen : Nat := 12
def tagLen : Nat := 16

/-- The limit of a record. -/
def maxRecord : Nat := 262144

/-- An authenticated cipher. -/
structure Aead (Key : Type) where
  encrypt : Key -> (nonce aad message : Bytes) -> Option Bytes
  decrypt : Key -> (nonce aad ciphertext : Bytes) -> Option Bytes
  decrypt_encrypt : ∀ {key : Key} {nonce aad message ciphertext : Bytes},
    encrypt key nonce aad message = some ciphertext ->
      decrypt key nonce aad ciphertext = some message
  length_encrypt : ∀ {key : Key} {nonce aad message ciphertext : Bytes},
    encrypt key nonce aad message = some ciphertext ->
      ciphertext.length = message.length + tagLen

variable {Key : Type} (aead : Aead Key) (key : Key)

/-- Encrypt the text of a record under a nonce, which is drawn at random. -/
def encryptRecord (nonce : FixedBytes nonceLen) (aad text : Bytes) : Result Bytes := do
  require (nonceLen + text.length + tagLen ≤ maxRecord) (.fieldLimit "aead_ciphertext")
  let ciphertext ← present (aead.encrypt key nonce.bytes aad text) .crypto
  return nonce.bytes ++ ciphertext

/-- Decrypt a record. -/
def decryptRecord (aad data : Bytes) : Result Bytes := do
  require (data.length ≤ maxRecord) (.fieldLimit "aead_ciphertext")
  require (nonceLen + tagLen ≤ data.length) .crypto
  present (aead.decrypt key (data.take nonceLen) aad (data.drop nonceLen)) .crypto

variable {aead key}

theorem length_of_encryptRecord {nonce : FixedBytes nonceLen} {aad text data : Bytes}
    (encrypted : encryptRecord aead key nonce aad text = .ok data) :
    data.length = nonceLen + text.length + tagLen ∧ data.length ≤ maxRecord := by
  simp only [encryptRecord, bind_eq_ok, require_eq_ok, present_eq_ok, decide_eq_true_eq, pure,
    Except.pure, Except.ok.injEq] at encrypted
  obtain ⟨_, fits, ciphertext, encrypted, rfl⟩ := encrypted
  rw [List.length_append, nonce.length_eq, aead.length_encrypt encrypted, ← Nat.add_assoc]
  exact ⟨rfl, fits⟩

/-- What was encrypted under the same key and associated data is decrypted again. -/
theorem decryptRecord_encryptRecord {nonce : FixedBytes nonceLen} {aad text data : Bytes}
    (encrypted : encryptRecord aead key nonce aad text = .ok data) :
    decryptRecord aead key aad data = .ok text := by
  obtain ⟨length, fits⟩ := length_of_encryptRecord encrypted
  simp only [encryptRecord, bind_eq_ok, require_eq_ok, present_eq_ok, pure, Except.pure,
    Except.ok.injEq] at encrypted
  obtain ⟨_, -, ciphertext, encrypted, rfl⟩ := encrypted
  simp only [decryptRecord, bind_eq_ok, require_eq_ok, present_eq_ok, decide_eq_true_eq]
  refine ⟨(), fits, (), by omega, ?_⟩
  rw [List.take_left' nonce.length_eq, List.drop_left' nonce.length_eq]
  exact aead.decrypt_encrypt encrypted

end Parvane.Codec
