import UniSsh.Base.Bytes

/-!
# Records

The data model of the local storage: encrypted blobs and open metadata; nothing is verified here.
-/

namespace UniSsh

/-- Where a vault is synchronised to. -/
inductive SyncTarget where
  | localOnly
  | cloud
  deriving DecidableEq

/-- Whether vault content may be kept for offline access. -/
inductive CachePolicy where
  | offlineAllowed
  | onlineOnly
  deriving DecidableEq

/-- The role of a vault member. -/
inductive MemberRole where
  | viewer
  | editor
  | admin
  deriving DecidableEq

/-- Vault record: metadata and the wrapped vault key. -/
structure VaultRecord where
  vaultId : Bytes
  syncTarget : SyncTarget
  nameBlob : Bytes
  wrappedVk : Bytes
  version : UInt64
  tombstone : Bool
  signature : Bytes
  authorPubkey : Bytes
  keyEpoch : UInt64
  cachePolicy : CachePolicy
  /-- The server a cloud vault is bound to; empty when unbound or local. -/
  syncTenant : Bytes
  deriving DecidableEq

/-- Item record, the unit of synchronisation. -/
structure ItemRecord where
  vaultId : Bytes
  itemId : Bytes
  itemType : UInt32
  contentBlob : Bytes
  wrappedItemKey : Bytes
  version : UInt64
  tombstone : Bool
  signature : Bytes
  authorPubkey : Bytes
  /-- Storage-owned and not synchronised, as is `updatedAt`. -/
  createdAt : Int64
  updatedAt : Int64
  keyEpoch : UInt64
  deriving DecidableEq

/-- An item's identity, version and authorship without its content. -/
structure ItemVersion where
  vaultId : Bytes
  itemId : Bytes
  version : UInt64
  itemType : UInt32
  authorPubkey : Bytes
  keyEpoch : UInt64
  deriving DecidableEq

/-- Signed membership manifest of one key epoch. -/
structure MembershipManifest where
  vaultId : Bytes
  keyEpoch : UInt64
  manifestBlob : Bytes
  signature : Bytes
  authorPubkey : Bytes
  deriving DecidableEq

/-- Access grant of one member for one key epoch. -/
structure MembershipGrant where
  vaultId : Bytes
  memberPubkey : Bytes
  keyEpoch : UInt64
  role : MemberRole
  /-- Expiry in unix seconds; not positive means none. -/
  notAfter : Int64
  wrappedVk : Bytes
  signature : Bytes
  authorPubkey : Bytes
  deriving DecidableEq

/-- Entry of the append-only audit log. -/
structure AuditEntry where
  seq : Nat
  entryBlob : Bytes
  signature : Bytes
  authorPubkey : Bytes
  recordedAt : Int64
  deriving DecidableEq

/-- Pinned genesis owner of a vault created by another account. -/
structure VaultTrustAnchor where
  vaultId : Bytes
  genesisOwnerPubkey : Bytes
  pinnedAt : Int64
  deriving DecidableEq

/-- Signed and versioned per-account state. -/
structure AccountStateRecord where
  authorPubkey : Bytes
  version : UInt64
  payload : Bytes
  signature : Bytes
  updatedAt : Int64
  deriving DecidableEq

/-- Errors of the local storage that its functions can return on a sound database. -/
inductive StorageError where
  | versionRollback (current attempted : UInt64)
  | versionOutOfRange
  deriving DecidableEq

end UniSsh
