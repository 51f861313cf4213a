import UniSsh.Crypto.Signature
import UniSsh.Storage.Store

/-!
# Keyset records

Parsing of a serialised `EncryptedKeyset`, and the trusted generation floor. The generation in a
record's header is not authenticated before the keyset is unlocked.
-/

namespace UniSsh

/-- Errors of the key hierarchy that the modelled functions return. -/
inductive KeychainError where
  | format
  | crypto (error : CryptoError)
  deriving DecidableEq

/-- The unwrapped keyset: its X25519 and its Ed25519 secret, whose public halves follow. -/
structure UnlockedKeyset where
  encryption : Bytes
  signing : Bytes
  deriving DecidableEq

/-- The Ed25519 public key the account is known by. -/
def UnlockedKeyset.verifying (P : Primitives) (keyset : UnlockedKeyset) : Bytes :=
  P.verifyingKey keyset.signing

/-- Argon2id parameters. -/
structure KdfParams where
  memKib : Nat
  iterations : Nat
  parallelism : Nat
  salt : Bytes
  deriving DecidableEq

namespace KdfParams

def kdfIdArgon2id : UInt8 := 1
def maxMemKib : Nat := 1024 * 1024
def maxIterations : Nat := 64
def maxParallelism : Nat := 64

/-- Parses the parameter blob, with upper bounds against an untrusted cost. -/
def fromBlob (blob : Bytes) : Except CryptoError KdfParams := do
  let body ← parseExpecting blob .argon2idParams
  if body.length < 14 then .error .format
  else if body.head? ≠ some kdfIdArgon2id then
    .error (.unsupportedAlgorithm AlgId.argon2idParams.toU16)
  else
    let memKib := ofBeBytes ((body.drop 1).take 4)
    let iterations := ofBeBytes ((body.drop 5).take 4)
    let parallelism := ofBeBytes ((body.drop 9).take 4)
    let saltLen := ofBeBytes ((body.drop 13).take 1)
    if body.length ≠ 14 + saltLen then .error .format
    else if memKib > maxMemKib ∨ iterations > maxIterations ∨ parallelism > maxParallelism then
      .error .format
    else .ok { memKib, iterations, parallelism, salt := body.drop 14 }

end KdfParams

/-- How the keyset is unlocked. -/
inductive UnlockMode where
  | password
  | secretKeyOnly
  deriving DecidableEq

def UnlockMode.fromU8 (v : UInt8) : Except KeychainError UnlockMode :=
  if v = 1 then .ok password
  else if v = 2 then .ok secretKeyOnly
  else .error .format

/-- The encrypted keyset record. -/
structure EncryptedKeyset where
  formatVersion : UInt8
  mode : UnlockMode
  kdfParams : Option KdfParams
  x25519Public : Bytes
  ed25519Public : Bytes
  generation : UInt32
  wrappedKeyset : Bytes
  deriving DecidableEq

namespace EncryptedKeyset

def keysetFormatVersion : UInt8 := 3
def keysetFormatLegacy : UInt8 := 2

/-- The parameters in front of the public keys and what follows them, when `kdfLen` is not
zero. -/
def takeKdfParams (kdfLen : Nat) (rest : Bytes) : Except KeychainError (Option KdfParams × Bytes) :=
  if kdfLen = 0 then .ok (none, rest)
  else if rest.length - kdfLen < 64 then .error .format
  else
    match KdfParams.fromBlob (rest.take kdfLen) with
    | .ok params => .ok (some params, rest.drop kdfLen)
    | .error e => .error (.crypto e)

/-- Parses a record from bytes. -/
def fromBytes (bytes : Bytes) : Except KeychainError EncryptedKeyset :=
  if bytes.length < 8 + 64 then .error .format
  else
    match bytes with
    | formatVersion :: modeByte :: g0 :: g1 :: g2 :: g3 :: k0 :: k1 :: rest =>
      if formatVersion ≠ keysetFormatVersion ∧ formatVersion ≠ keysetFormatLegacy then
        .error .format
      else do
        let mode ← UnlockMode.fromU8 modeByte
        let generation := UInt32.ofNat (ofBeBytes [g0, g1, g2, g3])
        let (kdfParams, rest) ← takeKdfParams (ofBeBytes [k0, k1]) rest
        match mode, kdfParams with
        | .password, none => .error .format
        | .secretKeyOnly, some _ => .error .format
        | _, _ =>
          if rest.length < 64 then .error .format
          else
            let record : EncryptedKeyset :=
              { formatVersion, mode, kdfParams, generation
                x25519Public := rest.take 32
                ed25519Public := (rest.drop 32).take 32
                wrappedKeyset := rest.drop 64 }
            if record.wrappedKeyset = [] then .error .format else .ok record
    | _ => .error .format

end EncryptedKeyset

/-- The metadata key of the trusted generation floor. -/
def metaGenFloor : Bytes := ascii "keyset_gen_floor"

/-- The trusted generation floor, if set. -/
def keysetGenFloor (s : Storage) : Except KeychainError (Option UInt64) :=
  match s.getMeta metaGenFloor with
  | none => .ok none
  | some value =>
    if value.length = 8 then .ok (some (UInt64.ofNat (ofBeBytes value))) else .error .format

end UniSsh
