import UniSsh.Base.Effect
import UniSsh.Crypto.Primitives

/-!
# Signatures over versioned objects

What is signed binds the object's identity, version and content digest; the canonical form
determines the associated data and, where the digest does not collide, the content.
-/

namespace UniSsh

/-! ## Blob headers -/

/-- The algorithm registry. -/
inductive AlgId where
  | xChaCha20Poly1305
  | hpkeX25519HkdfSha256ChaCha20
  | ed25519
  | argon2idParams
  deriving DecidableEq

namespace AlgId

def toU16 : AlgId → UInt16
  | xChaCha20Poly1305 => 0x0001
  | hpkeX25519HkdfSha256ChaCha20 => 0x0010
  | ed25519 => 0x0020
  | argon2idParams => 0x0030

def fromU16 (v : UInt16) : Except CryptoError AlgId :=
  if v = 0x0001 then .ok xChaCha20Poly1305
  else if v = 0x0010 then .ok hpkeX25519HkdfSha256ChaCha20
  else if v = 0x0020 then .ok ed25519
  else if v = 0x0030 then .ok argon2idParams
  else .error (.unsupportedAlgorithm v)

end AlgId

/-- The first byte of every blob. -/
def formatVersion : UInt8 := 0x01

/-- `write_header`: format version and algorithm. -/
def headerBytes (alg : AlgId) : Bytes :=
  formatVersion :: beBytes 2 alg.toU16.toNat

/-- Splits a blob into its algorithm and body. -/
def parseHeader : Bytes → Except CryptoError (AlgId × Bytes)
  | version :: algHi :: algLo :: body =>
    if version ≠ formatVersion then .error (.unsupportedVersion version)
    else do
      let alg ← AlgId.fromU16 (UInt16.ofNat (ofBeBytes [algHi, algLo]))
      .ok (alg, body)
  | _ => .error .format

/-- Splits a blob that must be of algorithm `expected`. -/
def parseExpecting (blob : Bytes) (expected : AlgId) : Except CryptoError Bytes := do
  let (alg, body) ← parseHeader blob
  if alg ≠ expected then .error (.unsupportedAlgorithm alg.toU16)
  else .ok body

/-- A blob written with an algorithm's header is read back under that algorithm. -/
@[simp] theorem parseExpecting_headerBytes (alg : AlgId) (body : Bytes) :
    parseExpecting (headerBytes alg ++ body) alg = .ok body := by
  cases alg <;>
    simp [parseExpecting, parseHeader, headerBytes, beBytes, AlgId.toU16, AlgId.fromU16,
      ofBeBytes, formatVersion]

/-! ## Associated data -/

/-- Binding of a blob to a context: vault, item and version. -/
structure AssociatedData where
  vaultId : Bytes
  itemId : Bytes
  version : UInt64
  deriving DecidableEq

namespace AssociatedData

/-- `len(vault_id) ‖ vault_id ‖ len(item_id) ‖ item_id ‖ version`, the lengths in 16 bits. -/
def canonical (aad : AssociatedData) : Except CryptoError Bytes :=
  if aad.vaultId.length > 65535 ∨ aad.itemId.length > 65535 then .error .invalidLength
  else .ok (lenPrefixed 2 aad.vaultId ++
    (lenPrefixed 2 aad.itemId ++ beBytes 8 aad.version.toNat))

variable {aad : AssociatedData}

theorem canonical_eq_ok (ran : aad.canonical = .ok bytes) :
    aad.vaultId.length ≤ 65535 ∧ aad.itemId.length ≤ 65535 ∧ bytes = lenPrefixed 2 aad.vaultId ++
        (lenPrefixed 2 aad.itemId ++ beBytes 8 aad.version.toNat) := by
  unfold canonical at ran
  split at ran
  · cases ran
  · next short =>
    simp only [not_or, not_lt] at short
    exact ⟨short.1, short.2, (Except.ok.inj ran).symm⟩

/-- Identifiers short enough for a canonical form. -/
def Fits (aad : AssociatedData) : Prop :=
  aad.vaultId.length ≤ 65535 ∧ aad.itemId.length ≤ 65535

theorem Fits.canonical (fits : aad.Fits) : ∃ bytes, aad.canonical = .ok bytes := by
  unfold AssociatedData.canonical
  rw [if_neg (not_or.mpr ⟨not_lt.mpr fits.1, not_lt.mpr fits.2⟩)]
  exact ⟨_, rfl⟩

/-- The canonical form, followed by anything, determines the associated data and the rest. -/
theorem canonical_append_inj (ran : aad.canonical = .ok a) (ranOther : other.canonical = .ok b)
    (same : a ++ x = b ++ y) :
    aad = other ∧ x = y := by
  obtain ⟨_, _, rfl⟩ := canonical_eq_ok ran
  obtain ⟨_, _, rfl⟩ := canonical_eq_ok ranOther
  simp only [List.append_assoc] at same
  obtain ⟨_, same⟩ := lenPrefixed_append_inj (by omega) (by omega) same
  obtain ⟨_, same⟩ := lenPrefixed_append_inj (by omega) (by omega) same
  obtain ⟨_, _⟩ := beBytes_append_inj (UInt64.toNat_lt _) (UInt64.toNat_lt _) same
  cases aad
  cases other
  simp_all [UInt64.toNat_inj]

end AssociatedData

/-! ## Versioned objects -/

/-- What gets signed: an identity with a version, and a content digest. -/
structure VersionedObject where
  aad : AssociatedData
  contentDigest : Bytes
  deriving DecidableEq

/-- The signature domain of records. -/
def sigDomain : Bytes := ascii "unissh-sig-v1"

/-- The dedicated signature domain of per-account state. -/
def accountStateSigDomain : Bytes := ascii "unissh-account-state-v1"

namespace VersionedObject

variable (P : Primitives)

def fromContent (aad : AssociatedData) (content : Bytes) : VersionedObject :=
  { aad, contentDigest := P.sha256 content }

/-- The canonical message for signing. -/
def signingBytes (obj : VersionedObject) : Except CryptoError Bytes := do
  let aad ← obj.aad.canonical
  .ok (sigDomain ++ (aad ++ obj.contentDigest))

theorem signingBytes_eq_ok {obj : VersionedObject} (ran : obj.signingBytes = .ok bytes) :
    ∃ aad, obj.aad.canonical = .ok aad ∧ bytes = sigDomain ++ (aad ++ obj.contentDigest) := by
  obtain ⟨aad, canonical, built⟩ := bind_eq_ok.mp ran
  exact ⟨aad, canonical, (Except.ok.inj built).symm⟩

/-- Objects with the same signing bytes have the same associated data and digest. -/
theorem signingBytes_inj {obj other : VersionedObject} (ran : obj.signingBytes = .ok bytes)
    (ranOther : other.signingBytes = .ok bytes) :
    obj = other := by
  obtain ⟨a, canonical, rfl⟩ := signingBytes_eq_ok ran
  obtain ⟨b, canonical', same⟩ := signingBytes_eq_ok ranOther
  have suffix := List.append_cancel_left same
  obtain ⟨_, _⟩ := AssociatedData.canonical_append_inj canonical canonical' suffix
  cases obj
  cases other
  simp_all

end VersionedObject

/-! ## Signing and verification -/

section Ed25519

variable (P : Primitives)

/-- `Ed25519VerifyingKey::from_bytes`. -/
def verifyingKeyFromBytes (key : Bytes) : Except CryptoError Bytes :=
  if key.length ≠ 32 then .error .invalidLength
  else if P.isVerifyingKey key then .ok key
  else .error .format

/-- Signs a versioned object: header and signature. -/
def signVersion (secret : Bytes) (obj : VersionedObject) : Except CryptoError Bytes := do
  let message ← obj.signingBytes
  .ok (headerBytes .ed25519 ++ P.sign secret message)

/-- Verifies an object's signature blob under a parsed key. -/
def verifyVersion (key : Bytes) (obj : VersionedObject) (sigBlob : Bytes) :
    Except CryptoError Unit := do
  let body ← parseExpecting sigBlob .ed25519
  if body.length ≠ 64 then .error .format
  else do
    let message ← obj.signingBytes
    if P.verifyStrict key message body then .ok () else .error .signature

/-- The message signed for per-account state: domain, version, digest of the payload. -/
def accountStateMessage (version : UInt64) (payload : Bytes) : Bytes :=
  accountStateSigDomain ++ (beBytes 8 version.toNat ++ P.sha256 payload)

/-- Verifies the signature blob of per-account state under a parsed key. -/
def verifyAccountStateSig (key : Bytes) (version : UInt64) (payload sigBlob : Bytes) :
    Except CryptoError Unit := do
  let body ← parseExpecting sigBlob .ed25519
  if body.length ≠ 64 then .error .format
  else if P.verifyStrict key (accountStateMessage P version payload) body then .ok ()
  else .error .signature

@[simp] theorem verifyingKeyFromBytes_verifyingKey (secret : Bytes) :
    verifyingKeyFromBytes P (P.verifyingKey secret) = .ok (P.verifyingKey secret) := by
  have valid := P.verifyingKey_valid secret
  simp [verifyingKeyFromBytes, valid, P.isVerifyingKey_length _ valid]

theorem verifyingKeyFromBytes_eq_ok (ran : verifyingKeyFromBytes P key = .ok parsed) :
    parsed = key := by
  unfold verifyingKeyFromBytes at ran
  split at ran
  · cases ran
  · split at ran
    · exact (Except.ok.inj ran).symm
    · cases ran

variable {obj : VersionedObject} {sigBlob secret : Bytes}

theorem verifyVersion_eq_ok (ran : verifyVersion P key obj sigBlob = .ok ()) :
    ∃ message body, obj.signingBytes = .ok message ∧
      parseExpecting sigBlob .ed25519 = .ok body ∧ P.verifyStrict key message body = true := by
  obtain ⟨body, parsed, rest⟩ := bind_eq_ok.mp ran
  split at rest
  · cases rest
  · obtain ⟨message, signing, accepted⟩ := bind_eq_ok.mp rest
    split at accepted
    · next verified => exact ⟨message, body, signing, parsed, verified⟩
    · cases accepted

theorem signVersion_eq_ok (signed : signVersion P secret obj = .ok sigBlob) :
    ∃ message, obj.signingBytes = .ok message ∧
      sigBlob = headerBytes .ed25519 ++ P.sign secret message := by
  obtain ⟨message, signing, built⟩ := bind_eq_ok.mp signed
  exact ⟨message, signing, (Except.ok.inj built).symm⟩

/-- The signature made for `obj` does not verify for `other`, unless both have the same signing
bytes. -/
def VersionedObject.BoundBy (secret : Bytes) (obj other : VersionedObject) : Prop :=
  ∀ message message', obj.signingBytes = .ok message → other.signingBytes = .ok message' →
    P.SignatureBinds secret message message'

end Ed25519

end UniSsh
