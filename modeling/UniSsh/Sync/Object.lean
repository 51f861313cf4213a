import UniSsh.Vault.Authority

/-!
# Sync objects

The objects that travel, with their encoding, which leaves out a vault's local label and an item's
timestamps.
-/

namespace UniSsh

/-- Fatal errors of the sync engine. -/
inductive SyncError where
  | transportRollback (reported cursor : UInt64)
  | cursorRollback (current attempted : UInt64)
  | format
  | payloadTooLarge
  | forbidden
  /-- An object of the server's copy of a vault does not parse. -/
  | serverCopyUnreadable
  /-- A discarded edit did not come back from the server's copy. -/
  | notRestored
  | vault (error : VaultError)
  | storage (error : StorageError)
  | keychain (error : KeychainError)
  deriving DecidableEq

/-- An audit entry as it is synchronised. -/
structure AuditObject where
  vaultId : Bytes
  entryBlob : Bytes
  signature : Bytes
  authorPubkey : Bytes
  deriving DecidableEq

/-- Per-account state as it is synchronised. -/
structure AccountStateObject where
  authorPubkey : Bytes
  version : UInt64
  payload : Bytes
  signature : Bytes
  deriving DecidableEq

/-- A syncable object. -/
inductive SyncObject where
  | vault (record : VaultRecord)
  | item (record : ItemRecord)
  | membershipManifest (manifest : MembershipManifest)
  | membershipGrant (grant : MembershipGrant)
  | audit (entry : AuditObject)
  | keyset (blob : Bytes)
  | accountState (state : AccountStateObject)
  deriving DecidableEq

namespace SyncObject

/-- The tag byte. -/
def tag : SyncObject → UInt8
  | vault _ => 1
  | item _ => 2
  | membershipManifest _ => 3
  | membershipGrant _ => 4
  | audit _ => 5
  | keyset _ => 6
  | accountState _ => 7

/-- The open `vault_id`, if the object belongs to a vault. -/
def vaultId : SyncObject → Option Bytes
  | vault v => some v.vaultId
  | item i => some i.vaultId
  | membershipManifest m => some m.vaultId
  | membershipGrant g => some g.vaultId
  | audit a => some a.vaultId
  | keyset _ => none
  | accountState _ => none

end SyncObject

/-- A length-prefixed field; a field of `2 ^ 32` bytes or more has no encoding. -/
def putBytes (field : Bytes) : Except SyncError Bytes :=
  if field.length ≥ 2 ^ 32 then .error .format else .ok (lenPrefixed 4 field)

def syncTargetU8 : SyncTarget → UInt8
  | .localOnly => 0
  | .cloud => 1

def cachePolicyU8 : CachePolicy → UInt8
  | .offlineAllowed => 0
  | .onlineOnly => 1

def boolU8 (b : Bool) : UInt8 := if b then 1 else 0

namespace SyncObject

/-- The fields of an object in encoding order, each already encoded. -/
def encodedFields : SyncObject → List (Except SyncError Bytes)
  | vault v =>
    [putBytes v.vaultId, .ok [syncTargetU8 v.syncTarget], putBytes v.nameBlob,
      putBytes v.wrappedVk, .ok (beBytes 8 v.version.toNat), .ok [boolU8 v.tombstone],
      putBytes v.signature, putBytes v.authorPubkey, .ok (beBytes 8 v.keyEpoch.toNat),
      .ok [cachePolicyU8 v.cachePolicy]]
  | item i =>
    [putBytes i.vaultId, putBytes i.itemId, .ok (beBytes 4 i.itemType.toNat),
      putBytes i.contentBlob, putBytes i.wrappedItemKey, .ok (beBytes 8 i.version.toNat),
      .ok [boolU8 i.tombstone], putBytes i.signature, putBytes i.authorPubkey,
      .ok (beBytes 8 i.keyEpoch.toNat)]
  | membershipManifest m =>
    [putBytes m.vaultId, .ok (beBytes 8 m.keyEpoch.toNat), putBytes m.manifestBlob,
      putBytes m.signature, putBytes m.authorPubkey]
  | membershipGrant g =>
    [putBytes g.vaultId, putBytes g.memberPubkey, .ok (beBytes 8 g.keyEpoch.toNat),
      .ok [g.role.toU8], .ok (beBytes 8 g.notAfter.toUInt64.toNat), putBytes g.wrappedVk,
      putBytes g.signature, putBytes g.authorPubkey]
  | audit a =>
    [putBytes a.vaultId, putBytes a.entryBlob, putBytes a.signature, putBytes a.authorPubkey]
  | keyset b => [putBytes b]
  | accountState a =>
    [.ok (beBytes 8 a.version.toNat), putBytes a.payload, putBytes a.signature,
      putBytes a.authorPubkey]

/-- Serialises an object: its tag and its fields. -/
def toBytes (obj : SyncObject) : Except SyncError Bytes := do
  let fields ← obj.encodedFields.mapM id
  .ok (obj.tag :: fields.flatten)

/-- Encoded size of a length-prefixed field. -/
def prefixed (field : Bytes) : Nat := field.length + 4

/-- The length of an object's encoding, from its field lengths alone. -/
def encodedLen : SyncObject → Nat
  | vault v =>
    1 + (prefixed v.vaultId + 1 + prefixed v.nameBlob + prefixed v.wrappedVk + 8 + 1 +
      prefixed v.signature + prefixed v.authorPubkey + 8 + 1)
  | item i =>
    1 + (prefixed i.vaultId + prefixed i.itemId + 4 + prefixed i.contentBlob +
      prefixed i.wrappedItemKey + 8 + 1 + prefixed i.signature + prefixed i.authorPubkey + 8)
  | membershipManifest m =>
    1 + (prefixed m.vaultId + 8 + prefixed m.manifestBlob + prefixed m.signature +
      prefixed m.authorPubkey)
  | membershipGrant g =>
    1 + (prefixed g.vaultId + prefixed g.memberPubkey + 8 + 1 + 8 + prefixed g.wrappedVk +
      prefixed g.signature + prefixed g.authorPubkey)
  | audit a =>
    1 + (prefixed a.vaultId + prefixed a.entryBlob + prefixed a.signature +
      prefixed a.authorPubkey)
  | keyset b => 1 + prefixed b
  | accountState a =>
    1 + (8 + prefixed a.payload + prefixed a.signature + prefixed a.authorPubkey)

end SyncObject

/-! ## Reading -/

namespace Reader

/-- Splits `n` bytes off the front. -/
def take (n : Nat) (b : Bytes) : Except SyncError (Bytes × Bytes) :=
  if b.length < n then .error .format else .ok (b.splitAt n)

/-- A big-endian number of `w` bytes. -/
def number (w : Nat) (b : Bytes) : Except SyncError (Nat × Bytes) := do
  let (digits, rest) ← take w b
  .ok (ofBeBytes digits, rest)

def bytes (b : Bytes) : Except SyncError (Bytes × Bytes) := do
  let (n, rest) ← number 4 b
  take n rest

def u8 : Bytes → Except SyncError (UInt8 × Bytes)
  | [] => .error .format
  | h :: t => .ok (h, t)

/-- Reads entries until nothing is left; each takes a byte, so the length bounds their number. -/
def all {α : Type} (entry : Bytes → Except SyncError (α × Bytes)) :
    Nat → Bytes → Except SyncError (List α)
  | _, [] => .ok []
  | 0, _ :: _ => .error .format
  | fuel + 1, b => do
    let (first, rest) ← entry b
    let others ← all entry fuel rest
    .ok (first :: others)

end Reader

/-- Reading from the front of a byte string. -/
abbrev ReadM := StateT Bytes (Except SyncError)

namespace ReadM

def u8 : ReadM UInt8 := Reader.u8
def u32 : ReadM UInt32 := do return .ofNat (← (Reader.number 4 : ReadM Nat))
def u64 : ReadM UInt64 := do return .ofNat (← (Reader.number 8 : ReadM Nat))
def i64 : ReadM Int64 := do return (← u64).toInt64
def bytes : ReadM Bytes := Reader.bytes

def syncTarget : ReadM SyncTarget := do
  match ← u8 with
  | 0 => return .localOnly
  | 1 => return .cloud
  | _ => throw .format

def cachePolicy : ReadM CachePolicy := do
  match ← u8 with
  | 0 => return .offlineAllowed
  | 1 => return .onlineOnly
  | _ => throw .format

def role : ReadM MemberRole := do
  match MemberRole.fromU8 (← u8) with
  | some role => return role
  | none => throw .format

end ReadM

namespace SyncObject

open ReadM

def readVault : ReadM VaultRecord := do
  let vaultId ← bytes
  let syncTarget ← ReadM.syncTarget
  let nameBlob ← bytes
  let wrappedVk ← bytes
  let version ← u64
  let tombstone := (← u8) ≠ 0
  let signature ← bytes
  let authorPubkey ← bytes
  let keyEpoch ← u64
  let cachePolicy ← ReadM.cachePolicy
  return { vaultId, syncTarget, nameBlob, wrappedVk, version, tombstone, signature, authorPubkey,
           keyEpoch, cachePolicy, syncTenant := [] }

def readItem : ReadM ItemRecord := do
  let vaultId ← bytes
  let itemId ← bytes
  let itemType ← u32
  let contentBlob ← bytes
  let wrappedItemKey ← bytes
  let version ← u64
  let tombstone := (← u8) ≠ 0
  let signature ← bytes
  let authorPubkey ← bytes
  let keyEpoch ← u64
  return { vaultId, itemId, itemType, contentBlob, wrappedItemKey, version, tombstone, signature,
           authorPubkey, createdAt := 0, updatedAt := 0, keyEpoch }

def readManifest : ReadM MembershipManifest := do
  let vaultId ← bytes
  let keyEpoch ← u64
  let manifestBlob ← bytes
  let signature ← bytes
  let authorPubkey ← bytes
  return { vaultId, keyEpoch, manifestBlob, signature, authorPubkey }

def readGrant : ReadM MembershipGrant := do
  let vaultId ← bytes
  let memberPubkey ← bytes
  let keyEpoch ← u64
  let role ← ReadM.role
  let notAfter ← i64
  let wrappedVk ← bytes
  let signature ← bytes
  let authorPubkey ← bytes
  return { vaultId, memberPubkey, keyEpoch, role, notAfter, wrappedVk, signature, authorPubkey }

def readAudit : ReadM AuditObject := do
  let vaultId ← bytes
  let entryBlob ← bytes
  let signature ← bytes
  let authorPubkey ← bytes
  return { vaultId, entryBlob, signature, authorPubkey }

def readAccountState : ReadM AccountStateObject := do
  let version ← u64
  let payload ← bytes
  let signature ← bytes
  let authorPubkey ← bytes
  return { authorPubkey, version, payload, signature }

/-- The fields of an object by its tag byte. -/
def readTagged : ReadM SyncObject := do
  match ← u8 with
  | 1 => return .vault (← readVault)
  | 2 => return .item (← readItem)
  | 3 => return .membershipManifest (← readManifest)
  | 4 => return .membershipGrant (← readGrant)
  | 5 => return .audit (← readAudit)
  | 6 => return .keyset (← bytes)
  | 7 => return .accountState (← readAccountState)
  | _ => throw .format

/-- Parses an object; nothing may be left over. -/
def fromBytes (b : Bytes) : Except SyncError SyncObject := do
  match ← readTagged.run b with
  | (obj, []) => .ok obj
  | (_, _ :: _) => .error .format

end SyncObject

end UniSsh
