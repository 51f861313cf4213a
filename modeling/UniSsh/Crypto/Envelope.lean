import UniSsh.Crypto.Signature

/-!
# Envelopes

Encryption of content, wrapping of a key, and sealing of a key to a public key. What binds a blob
to its place is associated data; readers of blobs from before the header was bound are kept for
old vaults.
-/

namespace UniSsh

open List

section Envelope

variable (P : Primitives)

def nonceLen : Nat := 24
def tagLen : Nat := 16
def symmetricKeyLen : Nat := 32
def encLen : Nat := 32

/-! ## XChaCha20-Poly1305 -/

/-- The associated data the cipher gets: with the header in front, but for old blobs. -/
def fullAad (bindHeader : Bool) (aad : Bytes) : Bytes :=
  if bindHeader then headerBytes .xChaCha20Poly1305 ++ aad else aad

/-- `header ‖ nonce ‖ ciphertext`. -/
def sealXchacha (key nonce plaintext aad : Bytes) : Except CryptoError Bytes :=
  match P.aeadSeal key nonce plaintext (fullAad true aad) with
  | some ciphertext => .ok (headerBytes .xChaCha20Poly1305 ++ (nonce ++ ciphertext))
  | none => .error .decrypt

def openXchachaInner (bindHeader : Bool) (key blob aad : Bytes) : Except CryptoError Bytes := do
  let body ← parseExpecting blob .xChaCha20Poly1305
  if body.length < nonceLen + tagLen then .error .format
  else
    match P.aeadOpen key (body.take nonceLen) (body.drop nonceLen) (fullAad bindHeader aad) with
    | some plaintext => .ok plaintext
    | none => .error .decrypt

def aeadEncrypt (key nonce plaintext : Bytes) (aad : AssociatedData) : Except CryptoError Bytes := do
  let aad ← aad.canonical
  sealXchacha P key nonce plaintext aad

def aeadDecrypt (key blob : Bytes) (aad : AssociatedData) : Except CryptoError Bytes := do
  let aad ← aad.canonical
  openXchachaInner P true key blob aad

def aeadDecryptPreAgility (key blob : Bytes) (aad : AssociatedData) : Except CryptoError Bytes := do
  let aad ← aad.canonical
  openXchachaInner P false key blob aad

/-! ## Wrapped keys -/

def keywrapDomain : Bytes := ascii "unissh-keywrap-v1"

def wrapKey (kek nonce key aad : Bytes) : Except CryptoError Bytes :=
  sealXchacha P kek nonce key (keywrapDomain ++ aad)

/-- The plaintext of a wrapped key is a key. -/
def finishUnwrap (plaintext : Bytes) : Except CryptoError Bytes :=
  if plaintext.length ≠ symmetricKeyLen then .error .invalidLength else .ok plaintext

def unwrapKey (kek blob aad : Bytes) : Except CryptoError Bytes := do
  let plaintext ← openXchachaInner P true kek blob (keywrapDomain ++ aad)
  finishUnwrap plaintext

def unwrapKeyPreAgility (kek blob aad : Bytes) : Except CryptoError Bytes := do
  let plaintext ← openXchachaInner P false kek blob aad
  finishUnwrap plaintext

/-! ## Keys sealed to a public key -/

def x25519PublicFromBytes (bytes : Bytes) : Except CryptoError Bytes :=
  if P.isX25519Public bytes then .ok bytes else .error .format

/-- `header ‖ encapsulated key ‖ ciphertext`. -/
def sealKeyToPublic (recipient randomness key info : Bytes) : Except CryptoError Bytes :=
  match P.hpkeSeal recipient key info randomness with
  | some (enc, ciphertext) =>
    .ok (headerBytes .hpkeX25519HkdfSha256ChaCha20 ++ (enc ++ ciphertext))
  | none => .error .hpke

def openKeyWithSecret (secret blob info : Bytes) : Except CryptoError Bytes := do
  let body ← parseExpecting blob .hpkeX25519HkdfSha256ChaCha20
  if body.length < encLen then .error .format
  else
    match P.hpkeOpen secret (body.take encLen) (body.drop encLen) info with
    | some plaintext => finishUnwrap plaintext
    | none => .error .hpke

/-- The context a sealed vault key is bound to: vault, recipient and key epoch. -/
def vkWrapInfo (vaultId memberPubkey : Bytes) (keyEpoch : UInt64) : Except CryptoError Bytes :=
  if vaultId.length > 65535 ∨ memberPubkey.length > 65535 then .error .invalidLength
  else .ok (ascii "unissh-vkwrap-v1" ++ (lenPrefixed 2 vaultId ++
    (lenPrefixed 2 memberPubkey ++ beBytes 8 keyEpoch.toNat)))

/-! ## Sealing that does not fail -/

/-- Encryption under a symmetric key does not fail. -/
def Primitives.Encrypts : Prop :=
  ∀ key nonce plaintext aad, ∃ ciphertext, P.aeadSeal key nonce plaintext aad = some ciphertext

/-- Keys can be sealed to this public key. -/
def Primitives.SealsTo (recipient : Bytes) : Prop :=
  ∀ key info randomness, ∃ sealed, P.hpkeSeal recipient key info randomness = some sealed

variable {P}

theorem sealXchacha_returns (encrypts : P.Encrypts) (key nonce plaintext aad : Bytes) :
    ∃ blob, sealXchacha P key nonce plaintext aad = .ok blob := by
  obtain ⟨_, sealed⟩ := encrypts key nonce plaintext (fullAad true aad)
  unfold sealXchacha
  rw [sealed]
  exact ⟨_, rfl⟩

theorem aeadEncrypt_returns (encrypts : P.Encrypts) (key nonce plaintext : Bytes) (fits : aad.Fits)
    :
    ∃ blob, aeadEncrypt P key nonce plaintext aad = .ok blob := by
  obtain ⟨bytes, canonical⟩ := fits.canonical
  unfold aeadEncrypt
  rw [canonical]
  exact sealXchacha_returns encrypts key nonce plaintext bytes

theorem sealKeyToPublic_returns (seals : P.SealsTo recipient) (randomness key info : Bytes) :
    ∃ blob, sealKeyToPublic P recipient randomness key info = .ok blob := by
  obtain ⟨⟨_, _⟩, sealed⟩ := seals key info randomness
  unfold sealKeyToPublic
  rw [sealed]
  exact ⟨_, rfl⟩

theorem vkWrapInfo_returns (vaultFits : vaultId.length ≤ 65535)
    (memberFits : memberPubkey.length ≤ 65535) (keyEpoch : UInt64) :
    ∃ info, vkWrapInfo vaultId memberPubkey keyEpoch = .ok info := by
  unfold vkWrapInfo
  rw [if_neg (not_or.mpr ⟨not_lt.mpr vaultFits, not_lt.mpr memberFits⟩)]
  exact ⟨_, rfl⟩

/-! ## Round trips -/

variable {key nonce plaintext aad blob : Bytes}

theorem openXchachaInner_sealXchacha (length : nonce.length = nonceLen)
    (sealed : sealXchacha P key nonce plaintext aad = .ok blob) :
    openXchachaInner P true key blob aad = .ok plaintext := by
  unfold sealXchacha at sealed
  cases ciphered : P.aeadSeal key nonce plaintext (fullAad true aad) with
  | none =>
    rw [ciphered] at sealed
    cases sealed
  | some ciphertext =>
    rw [ciphered] at sealed
    cases sealed
    have long : ¬ (nonce ++ ciphertext).length < nonceLen + tagLen := by
      rw [length_append, length, P.aeadSeal_length _ _ _ _ _ ciphered]
      simp only [tagLen]
      omega
    unfold openXchachaInner
    rw [parseExpecting_headerBytes, ok_bind, if_neg long, ← length, take_left,
      drop_left, P.aeadOpen_seal _ _ _ _ _ ciphered]

/-- What was encrypted decrypts again, under the same associated data. -/
theorem aeadDecrypt_aeadEncrypt {aad : AssociatedData} (length : nonce.length = nonceLen)
    (sealed : aeadEncrypt P key nonce plaintext aad = .ok blob) :
    aeadDecrypt P key blob aad = .ok plaintext := by
  obtain ⟨_, same, sealed⟩ := bind_eq_ok.mp sealed
  unfold aeadDecrypt
  rw [same, ok_bind]
  exact openXchachaInner_sealXchacha length sealed

theorem openKeyWithSecret_sealKeyToPublic (isKey : key.length = symmetricKeyLen)
    (sealed : sealKeyToPublic P (P.x25519Public secret) randomness key info = .ok blob) :
    openKeyWithSecret P secret blob info = .ok key := by
  unfold sealKeyToPublic at sealed
  split at sealed
  · next enc ciphertext encapsulated =>
    cases sealed
    obtain ⟨length, opens⟩ := P.hpkeOpen_seal _ _ _ _ _ _ encapsulated
    have long : ¬ (enc ++ ciphertext).length < encLen := by
      rw [length_append, length]
      simp only [encLen]
      omega
    unfold openKeyWithSecret
    rw [parseExpecting_headerBytes, ok_bind, if_neg long, ← show enc.length = encLen from length,
      take_left, drop_left, opens]
    dsimp only
    rw [finishUnwrap, if_neg (not_not.mpr isKey)]
  · cases sealed

end Envelope

end UniSsh
