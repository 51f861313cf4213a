import UniSsh.Base.Bytes

/-!
# Cryptographic primitives

SHA-256, Ed25519, XChaCha20-Poly1305 and HPKE as parameters. The fields state what holds of every
correct implementation; what security needs beyond is a named hypothesis. Random draws are
arguments.
-/

namespace UniSsh

open List

/-- Errors of cryptographic operations. -/
inductive CryptoError where
  | decrypt
  | format
  | unsupportedVersion (version : UInt8)
  | unsupportedAlgorithm (algorithm : UInt16)
  | signature
  | rollback (attempted lastSeen : UInt64)
  | kdf
  | hpke
  | invalidLength
  deriving DecidableEq

/-- The primitives the program is built over. -/
structure Primitives where
  /-- SHA-256. -/
  sha256 : Bytes → Bytes
  sha256_length : ∀ content, (sha256 content).length = 32
  /-- Whether 32 bytes decode to an Ed25519 public key. -/
  isVerifyingKey : Bytes → Bool
  isVerifyingKey_length : ∀ key, isVerifyingKey key = true → key.length = 32
  /-- Ed25519 `verify_strict`: key, message, 64-byte signature. -/
  verifyStrict : Bytes → Bytes → Bytes → Bool
  /-- The public half of an Ed25519 signing key. -/
  verifyingKey : Bytes → Bytes
  verifyingKey_valid : ∀ secret, isVerifyingKey (verifyingKey secret) = true
  /-- The 64-byte Ed25519 signature of a message. -/
  sign : Bytes → Bytes → Bytes
  sign_length : ∀ secret message, (sign secret message).length = 64
  verify_sign : ∀ secret message,
    verifyStrict (verifyingKey secret) message (sign secret message) = true
  /-- XChaCha20-Poly1305 encryption: key, nonce, plaintext, associated data. -/
  aeadSeal : Bytes → Bytes → Bytes → Bytes → Option Bytes
  /-- XChaCha20-Poly1305 decryption: key, nonce, ciphertext, associated data. -/
  aeadOpen : Bytes → Bytes → Bytes → Bytes → Option Bytes
  aeadSeal_length : ∀ key nonce plaintext aad ciphertext,
    aeadSeal key nonce plaintext aad = some ciphertext →
      ciphertext.length = plaintext.length + 16
  aeadOpen_seal : ∀ key nonce plaintext aad ciphertext,
    aeadSeal key nonce plaintext aad = some ciphertext →
      aeadOpen key nonce ciphertext aad = some plaintext
  /-- Whether bytes decode to an X25519 public key. -/
  isX25519Public : Bytes → Bool
  /-- The public half of an X25519 secret key. -/
  x25519Public : Bytes → Bytes
  /-- HPKE single-shot seal: recipient, plaintext, info, ephemeral randomness; the
  encapsulated key and the ciphertext. -/
  hpkeSeal : Bytes → Bytes → Bytes → Bytes → Option (Bytes × Bytes)
  /-- HPKE single-shot open: recipient secret, encapsulated key, ciphertext, info. -/
  hpkeOpen : Bytes → Bytes → Bytes → Bytes → Option Bytes
  hpkeOpen_seal : ∀ secret plaintext info randomness enc ciphertext,
    hpkeSeal (x25519Public secret) plaintext info randomness = some (enc, ciphertext) →
      enc.length = 32 ∧ hpkeOpen secret enc ciphertext info = some plaintext

namespace Primitives

/-- The signature of `message` does not verify for `other`. No scheme has it for all messages. -/
def SignatureBinds (P : Primitives) (secret message other : Bytes) : Prop :=
  P.verifyStrict (P.verifyingKey secret) other (P.sign secret message) = true → other = message

/-- The digest does not collide on these two contents. -/
def NoCollision (P : Primitives) (content other : Bytes) : Prop :=
  P.sha256 content = P.sha256 other → content = other

/-! ## An instance -/

/-- Bytes as 32 bytes: their number, with a leading one, modulo a prime. -/
def residue (bytes : Bytes) : Bytes := beBytes 32 (ofBeBytes (1 :: bytes) % (2 ^ 256 - 189))

/-- The first 32 bytes, filled up with zeros. -/
def pad32 (bytes : Bytes) : Bytes := (bytes ++ replicate 32 0).take 32

theorem pad32_length (bytes : Bytes) : (pad32 bytes).length = 32 := by
  simp [pad32]

/-- Primitives that hide nothing; they satisfy the laws, and the program runs on them. -/
def transparent : Primitives where
  sha256 := residue
  sha256_length _ := beBytes_length _ _
  isVerifyingKey key := key.length = 32
  isVerifyingKey_length _ valid := of_decide_eq_true valid
  verifyStrict key message signature := signature = key ++ residue message
  verifyingKey := pad32
  verifyingKey_valid secret := decide_eq_true (pad32_length secret)
  sign secret message := pad32 secret ++ residue message
  sign_length secret message := by
    rw [length_append, pad32_length, residue, beBytes_length]
  verify_sign _ _ := decide_eq_true rfl
  aeadSeal _ _ plaintext _ := some (plaintext ++ replicate 16 0)
  aeadOpen _ _ ciphertext _ := some (ciphertext.take (ciphertext.length - 16))
  aeadSeal_length _ _ _ _ _ sealed := by
    cases sealed
    rw [length_append, length_replicate]
  aeadOpen_seal _ _ _ _ _ sealed := by
    cases sealed
    rw [length_append, length_replicate, Nat.add_sub_cancel, take_left]
  isX25519Public key := key.length = 32
  x25519Public := pad32
  hpkeSeal _ plaintext _ randomness := some (pad32 randomness, plaintext)
  hpkeOpen _ _ ciphertext _ := some ciphertext
  hpkeOpen_seal _ _ _ randomness _ _ sealed := by
    cases sealed
    exact ⟨pad32_length randomness, rfl⟩

end Primitives

end UniSsh
