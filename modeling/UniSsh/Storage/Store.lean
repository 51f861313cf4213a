import UniSsh.Base.Table
import UniSsh.Storage.Records
import Mathlib.Data.List.Sort

/-!
# Local storage

The tables of the encrypted database and the functions on them. A row holds the columns outside
its primary key, and numbers up to `i64::MAX` only (`SqlInt`); the `AUTOINCREMENT` column is
unbounded here.
-/

namespace UniSsh

/-- `i64::MAX` as an unsigned number. -/
def i64Max : UInt64 := 0x7FFFFFFFFFFFFFFF

/-- An unsigned number stored in an `INTEGER` column. -/
structure SqlInt where
  toU64 : UInt64
  inRange : toU64 ≤ i64Max
  deriving DecidableEq

namespace SqlInt

@[ext] theorem ext {a b : SqlInt} (same : a.toU64 = b.toU64) : a = b := by
  cases a
  cases b
  simp_all

instance : Ord SqlInt := ⟨compareOn toU64⟩

instance : Std.TransOrd SqlInt :=
  inferInstanceAs (Std.TransCmp (compareOn toU64))

instance : Std.LawfulEqOrd SqlInt where
  compare_self {a} := by
    change compare a.toU64 a.toU64 = .eq
    simp
  eq_of_compare {a b} same := by
    change compare a.toU64 b.toU64 = .eq at same
    exact SqlInt.ext (Std.LawfulEqCmp.eq_of_compare same)

theorem zero_inRange : 0 ≤ i64Max := by decide

theorem one_inRange : 1 ≤ i64Max := by decide

end SqlInt

/-! The composite keys of the tables. -/

instance instTransOrdBytesPair : Std.TransOrd (Bytes × Bytes) := inferInstance

instance instTransOrdBytesInt : Std.TransOrd (Bytes × SqlInt) := inferInstance

instance instTransOrdBytesPairInt : Std.TransOrd (Bytes × Bytes × SqlInt) := inferInstance

/-- A version or epoch below the last one has a successor. -/
theorem toNat_add_one_of_ne_max {v : UInt64} (notLast : v ≠ 0xFFFFFFFFFFFFFFFF) :
    (v + 1).toNat = v.toNat + 1 := by
  have notLast' : v.toNat ≠ 0xFFFFFFFFFFFFFFFF := fun last => notLast (UInt64.toNat_inj.mp last)
  have bound := v.toNat_lt
  rw [UInt64.toNat_add, UInt64.toNat_one, Nat.mod_eq_of_lt (by omega)]

/-- Refuses what an `INTEGER` column cannot hold. -/
def checkedVersion (v : UInt64) : Except StorageError SqlInt :=
  if inRange : v ≤ i64Max then .ok ⟨v, inRange⟩ else .error .versionOutOfRange

theorem checkedVersion_eq_ok {n : SqlInt} :
    checkedVersion v = .ok n ↔ n.toU64 = v := by
  unfold checkedVersion
  split
  · next =>
    constructor
    · rintro ⟨⟩
      rfl
    · intro same
      exact congrArg Except.ok (SqlInt.ext same.symm)
  · next outOfRange =>
    constructor
    · rintro ⟨⟩
    · intro same
      exact absurd (same ▸ n.inRange) outOfRange

theorem checkedVersion_eq_error :
    checkedVersion v = .error e ↔ i64Max < v ∧ e = .versionOutOfRange := by
  unfold checkedVersion
  split
  · next inRange => simp [UInt64.not_lt.mpr inRange]
  · next outOfRange => simp [UInt64.not_le.mp outOfRange, eq_comm]

/-! ## Rows -/

structure VaultRow where
  syncTarget : SyncTarget
  nameBlob : Bytes
  wrappedVk : Bytes
  version : SqlInt
  tombstone : Bool
  signature : Bytes
  authorPubkey : Bytes
  keyEpoch : SqlInt
  cachePolicy : CachePolicy
  syncTenant : Bytes
  dirty : Bool
  deriving DecidableEq

structure ItemRow where
  itemType : UInt32
  contentBlob : Bytes
  wrappedItemKey : Bytes
  version : SqlInt
  tombstone : Bool
  signature : Bytes
  authorPubkey : Bytes
  createdAt : Int64
  updatedAt : Int64
  keyEpoch : SqlInt
  dirty : Bool
  deriving DecidableEq

structure ManifestRow where
  manifestBlob : Bytes
  signature : Bytes
  authorPubkey : Bytes
  dirty : Bool
  deriving DecidableEq

structure GrantRow where
  role : MemberRole
  notAfter : Int64
  wrappedVk : Bytes
  signature : Bytes
  authorPubkey : Bytes
  dirty : Bool
  deriving DecidableEq

structure AnchorRow where
  genesisOwnerPubkey : Bytes
  pinnedAt : Int64
  deriving DecidableEq

structure AccountStateRow where
  version : SqlInt
  payload : Bytes
  signature : Bytes
  updatedAt : Int64
  deriving DecidableEq

def mapVaultRow (vaultId : Bytes) (row : VaultRow) : VaultRecord where
  vaultId := vaultId
  syncTarget := row.syncTarget
  nameBlob := row.nameBlob
  wrappedVk := row.wrappedVk
  version := row.version.toU64
  tombstone := row.tombstone
  signature := row.signature
  authorPubkey := row.authorPubkey
  keyEpoch := row.keyEpoch.toU64
  cachePolicy := row.cachePolicy
  syncTenant := row.syncTenant

def mapItemRow (key : Bytes × Bytes) (row : ItemRow) : ItemRecord where
  vaultId := key.1
  itemId := key.2
  itemType := row.itemType
  contentBlob := row.contentBlob
  wrappedItemKey := row.wrappedItemKey
  version := row.version.toU64
  tombstone := row.tombstone
  signature := row.signature
  authorPubkey := row.authorPubkey
  createdAt := row.createdAt
  updatedAt := row.updatedAt
  keyEpoch := row.keyEpoch.toU64

def mapManifestRow (key : Bytes × SqlInt) (row : ManifestRow) : MembershipManifest where
  vaultId := key.1
  keyEpoch := key.2.toU64
  manifestBlob := row.manifestBlob
  signature := row.signature
  authorPubkey := row.authorPubkey

def mapGrantRow (key : Bytes × Bytes × SqlInt) (row : GrantRow) : MembershipGrant where
  vaultId := key.1
  memberPubkey := key.2.1
  keyEpoch := key.2.2.toU64
  role := row.role
  notAfter := row.notAfter
  wrappedVk := row.wrappedVk
  signature := row.signature
  authorPubkey := row.authorPubkey

def mapVaultTrustAnchorRow (vaultId : Bytes) (row : AnchorRow) : VaultTrustAnchor where
  vaultId := vaultId
  genesisOwnerPubkey := row.genesisOwnerPubkey
  pinnedAt := row.pinnedAt

def mapAccountStateRow (authorPubkey : Bytes) (row : AccountStateRow) : AccountStateRecord where
  authorPubkey := authorPubkey
  version := row.version.toU64
  payload := row.payload
  signature := row.signature
  updatedAt := row.updatedAt

/-! ## Tables -/

/-- The database; `itemHistory` is in `hseq` order, and `now` is the clock. -/
structure Storage where
  metaTable : Table Bytes Bytes := ∅
  vaults : Table Bytes VaultRow := ∅
  items : Table (Bytes × Bytes) ItemRow := ∅
  itemHistory : List ItemRecord := []
  membershipManifests : Table (Bytes × SqlInt) ManifestRow := ∅
  membershipGrants : Table (Bytes × Bytes × SqlInt) GrantRow := ∅
  auditLog : List AuditEntry := []
  auditSeq : Nat := 0
  vaultEpochFloor : Table Bytes SqlInt := ∅
  syncState : Table Bytes SqlInt := ∅
  vaultTrustAnchor : Table Bytes AnchorRow := ∅
  accountState : Table Bytes AccountStateRow := ∅
  now : Int64 := 0

namespace Storage

/-! ## Metadata -/

variable (s : Storage)

def setMeta (key value : Bytes) : Storage :=
  { s with metaTable := s.metaTable.insert key value }

def getMeta (key : Bytes) : Option Bytes :=
  s.metaTable[key]?

/-! ## Vaults -/

/-- A fresh row is clean; an updated one keeps its flag and, without a new one, its binding. -/
def upsertVaultRow (v : VaultRecord) (version keyEpoch : SqlInt) (old : Option VaultRow) :
    VaultRow where
  syncTarget := v.syncTarget
  nameBlob := v.nameBlob
  wrappedVk := v.wrappedVk
  version := version
  tombstone := v.tombstone
  signature := v.signature
  authorPubkey := v.authorPubkey
  keyEpoch := keyEpoch
  cachePolicy := v.cachePolicy
  syncTenant := match old with
    | some row => if v.syncTenant = [] then row.syncTenant else v.syncTenant
    | none => v.syncTenant
  dirty := (old.map VaultRow.dirty).getD false

/-- Inserts or updates a vault; the version must grow. -/
def putVault (v : VaultRecord) : Except StorageError Storage := do
  let version ← checkedVersion v.version
  let keyEpoch ← checkedVersion v.keyEpoch
  match s.vaults.upsertNewer v.vaultId (·.version.toU64) v.version
      (upsertVaultRow v version keyEpoch) with
  | .ok vaults => .ok { s with vaults }
  | .error current => .error (.versionRollback current v.version)

variable (vaultId : Bytes)

/-- A vault by id, tombstoned ones included. -/
def getVault : Option VaultRecord :=
  s.vaults[vaultId]?.map (mapVaultRow vaultId)

/-- Records that an unbound cloud vault belongs to `tenant`, without dirtying it. -/
def adoptPulledBinding (tenant : Bytes) : Storage :=
  { s with
    vaults := s.vaults.updateWhere
      (fun k row => k = vaultId ∧ row.syncTarget = .cloud ∧ row.syncTenant = [])
      fun row => { row with syncTenant := tenant } }

/-- Marks a vault record, its items, manifests and grants as edited locally. -/
def markVaultAndContentsDirty : Storage :=
  { s with
    vaults := s.vaults.updateWhere (fun k _ => k = vaultId) fun row => { row with dirty := true }
    items := s.items.updateWhere (fun k _ => k.1 = vaultId) fun row => { row with dirty := true }
    membershipManifests := s.membershipManifests.updateWhere (fun k _ => k.1 = vaultId)
      fun row => { row with dirty := true }
    membershipGrants := s.membershipGrants.updateWhere (fun k _ => k.1 = vaultId)
      fun row => { row with dirty := true } }

/-- Binds one cloud vault to `tenant` and marks it for a full push. -/
def setVaultTenant (tenant : Bytes) : Storage :=
  let bound := { s with
    vaults := s.vaults.updateWhere (fun k row => k = vaultId ∧ row.syncTarget = .cloud)
      fun row => { row with syncTenant := tenant } }
  match s.vaults[vaultId]? with
  | some row =>
    if row.syncTarget = .cloud then bound.markVaultAndContentsDirty vaultId else bound
  | none => bound

/-- Binds all unbound cloud vaults to `tenant` and marks them for a full push. -/
def bindUnboundCloudVaults (tenant : Bytes) : Storage :=
  let unbound (vaultId : Bytes) : Bool :=
    s.vaults[vaultId]?.any fun row => row.syncTarget = .cloud ∧ row.syncTenant = []
  { s with
    vaults := s.vaults.updateWhere (fun _ row => row.syncTarget = .cloud ∧ row.syncTenant = [])
      fun row => { row with dirty := true, syncTenant := tenant }
    items := s.items.updateWhere (fun k _ => unbound k.1) fun row => { row with dirty := true }
    membershipManifests := s.membershipManifests.updateWhere (fun k _ => unbound k.1)
      fun row => { row with dirty := true }
    membershipGrants := s.membershipGrants.updateWhere (fun k _ => unbound k.1)
      fun row => { row with dirty := true } }

/-- Unbinds all cloud vaults bound to `tenant`. -/
def clearBindingForTenant (tenant : Bytes) : Storage :=
  { s with
    vaults := s.vaults.updateWhere
      (fun _ row => row.syncTarget = .cloud ∧ row.syncTenant = tenant)
      fun row => { row with syncTenant := [] } }

/-- Unbinds one cloud vault. -/
def unbindVault : Storage :=
  { s with
    vaults := s.vaults.updateWhere
      (fun k row => k = vaultId ∧ row.syncTarget = .cloud ∧ row.syncTenant ≠ [])
      fun row => { row with syncTenant := [] } }

/-- Deletes every row of a vault. -/
def purge (dropTrustAnchor : Bool) : Storage :=
  { s with
    itemHistory := s.itemHistory.filter fun r => r.vaultId ≠ vaultId
    items := s.items.filter fun k _ => k.1 ≠ vaultId
    membershipGrants := s.membershipGrants.filter fun k _ => k.1 ≠ vaultId
    membershipManifests := s.membershipManifests.filter fun k _ => k.1 ≠ vaultId
    vaultEpochFloor := s.vaultEpochFloor.erase vaultId
    vaultTrustAnchor :=
      if dropTrustAnchor then s.vaultTrustAnchor.erase vaultId else s.vaultTrustAnchor
    vaults := s.vaults.erase vaultId }

/-! ## Items -/

/-- `created_at` and the dirty flag survive an update; `updated_at` is the clock. -/
def upsertItemRow (it : ItemRecord) (version keyEpoch : SqlInt) (now : Int64)
    (old : Option ItemRow) : ItemRow where
  itemType := it.itemType
  contentBlob := it.contentBlob
  wrappedItemKey := it.wrappedItemKey
  version := version
  tombstone := it.tombstone
  signature := it.signature
  authorPubkey := it.authorPubkey
  createdAt := (old.map ItemRow.createdAt).getD now
  updatedAt := now
  keyEpoch := keyEpoch
  dirty := (old.map ItemRow.dirty).getD false

/-- Inserts or updates an item; the version must grow. -/
def putItem (it : ItemRecord) : Except StorageError Storage := do
  let version ← checkedVersion it.version
  let keyEpoch ← checkedVersion it.keyEpoch
  match s.items.upsertNewer (it.vaultId, it.itemId) (·.version.toU64) it.version
      (upsertItemRow it version keyEpoch s.now) with
  | .ok items => .ok { s with items }
  | .error current => .error (.versionRollback current it.version)

/-- An item by id, tombstoned ones included. -/
def getItem (itemId : Bytes) : Option ItemRecord :=
  s.items[(vaultId, itemId)]?.map (mapItemRow (vaultId, itemId))

/-- A vault's items in id order, tombstones included. -/
def listItemsIncludingTombstones : List ItemRecord :=
  (s.items.toList.filter fun entry => entry.1.1 = vaultId).map fun entry =>
    mapItemRow entry.1 entry.2

/-- Deletes an item that was edited and not pushed, while it is still that edit. -/
def discardUnpushedItem (itemId : Bytes) (version : UInt64)
    (authorPubkey : Bytes) : Except StorageError Storage := do
  let version ← checkedVersion version
  .ok { s with
    items := s.items.filter fun k row =>
      ¬(k = (vaultId, itemId) ∧ row.dirty ∧ row.version = version ∧
        row.authorPubkey = authorPubkey) }

/-! ## Version history -/

/-- Archives a version once. -/
def insertHistory (r : ItemRecord) : Storage :=
  if s.itemHistory.any fun h =>
      h.vaultId = r.vaultId ∧ h.itemId = r.itemId ∧ h.version = r.version
  then s
  else { s with itemHistory := s.itemHistory ++ [r] }

/-- Keeps the `retain` newest archived versions of an item. -/
def trimHistory (itemId : Bytes) (retain : Nat) : Storage :=
  let rec go : List ItemRecord → List ItemRecord
    | [] => []
    | h :: newer =>
      let kept := go newer
      if h.vaultId = vaultId ∧ h.itemId = itemId ∧
          retain ≤ (newer.filter fun r => r.vaultId = vaultId ∧ r.itemId = itemId).length
      then kept
      else h :: kept
  { s with itemHistory := go s.itemHistory }

def clearItemHistory (itemId : Bytes) : Storage :=
  { s with
    itemHistory := s.itemHistory.filter fun r => ¬(r.vaultId = vaultId ∧ r.itemId = itemId) }

/-- Deletes the archived versions of an item above `version`. -/
def deleteItemHistoryAbove (itemId : Bytes) (version : UInt64) : Except StorageError Storage := do
  let version ← checkedVersion version
  .ok { s with
    itemHistory := s.itemHistory.filter fun r =>
      ¬(r.vaultId = vaultId ∧ r.itemId = itemId ∧ version.toU64 < r.version) }

/-- Archived versions of an item, newest first. -/
def listItemHistory (itemId : Bytes) : List ItemRecord :=
  (s.itemHistory.filter fun r => r.vaultId = vaultId ∧ r.itemId = itemId).insertionSort
    fun a b => b.version ≤ a.version

/-- Stores a tombstone and clears the item's history, atomically. -/
def putItemAndClearHistory (record : ItemRecord) : Except StorageError Storage := do
  let s ← s.putItem record
  .ok (s.clearItemHistory record.vaultId record.itemId)

/-- Archives the live version, stores the new one and trims the history, atomically. -/
def archiveAndPut (record : ItemRecord) (retain : Nat) : Except StorageError Storage := do
  let archived := match s.getItem record.vaultId record.itemId with
    | some existing => if existing.tombstone then s else s.insertHistory existing
    | none => s
  let s ← archived.putItem record
  .ok (s.trimHistory record.vaultId record.itemId retain)

/-! ## Membership -/

/-- Inserts or updates the manifest of an epoch. -/
def putMembershipManifest (m : MembershipManifest) : Except StorageError Storage := do
  let keyEpoch ← checkedVersion m.keyEpoch
  let key := (m.vaultId, keyEpoch)
  .ok { s with
    membershipManifests := s.membershipManifests.insert key
      { manifestBlob := m.manifestBlob
        signature := m.signature
        authorPubkey := m.authorPubkey
        dirty := (s.membershipManifests[key]?.map ManifestRow.dirty).getD false } }

def getMembershipManifest (keyEpoch : UInt64) :
    Except StorageError (Option MembershipManifest) := do
  let epoch ← checkedVersion keyEpoch
  .ok (s.membershipManifests[(vaultId, epoch)]?.map (mapManifestRow (vaultId, epoch)))

/-- The highest epoch the vault has a manifest for. -/
def latestMembershipEpoch : Option UInt64 :=
  ((s.membershipManifests.toList.filter fun entry => entry.1.1 = vaultId).map
    fun entry => entry.1.2.toU64).max?

/-- Inserts or updates a grant. -/
def putMembershipGrant (g : MembershipGrant) : Except StorageError Storage := do
  let keyEpoch ← checkedVersion g.keyEpoch
  let key := (g.vaultId, g.memberPubkey, keyEpoch)
  .ok { s with
    membershipGrants := s.membershipGrants.insert key
      { role := g.role
        notAfter := g.notAfter
        wrappedVk := g.wrappedVk
        signature := g.signature
        authorPubkey := g.authorPubkey
        dirty := (s.membershipGrants[key]?.map GrantRow.dirty).getD false } }

/-- Revokes a member's access for an epoch. -/
def removeMembershipGrant (vaultId memberPubkey : Bytes) (keyEpoch : UInt64) :
    Except StorageError Storage := do
  let epoch ← checkedVersion keyEpoch
  .ok { s with membershipGrants := s.membershipGrants.erase (vaultId, memberPubkey, epoch) }

/-- A vault's grants of one epoch in member order. -/
def listMembershipGrants (keyEpoch : UInt64) : Except StorageError (List MembershipGrant) := do
  let epoch ← checkedVersion keyEpoch
  .ok ((s.membershipGrants.toList.filter fun entry =>
      entry.1.1 = vaultId ∧ entry.1.2.2 = epoch).map fun entry => mapGrantRow entry.1 entry.2)

/-! ## Dirty tracking -/

def markVaultDirty : Storage :=
  { s with
    vaults := s.vaults.updateWhere (fun k _ => k = vaultId) fun row => { row with dirty := true } }

def markItemDirty (itemId : Bytes) : Storage :=
  { s with
    items := s.items.updateWhere (fun k _ => k = (vaultId, itemId))
      fun row => { row with dirty := true } }

/-- Marks the manifest and the grants of an epoch as edited locally. -/
def markMembershipDirty (keyEpoch : UInt64) : Except StorageError Storage := do
  let e ← checkedVersion keyEpoch
  .ok { s with
    membershipManifests := s.membershipManifests.updateWhere (fun k _ => k = (vaultId, e))
      fun row => { row with dirty := true }
    membershipGrants := s.membershipGrants.updateWhere
      (fun k _ => k.1 = vaultId ∧ k.2.2 = e) fun row => { row with dirty := true } }

/-- Whether the vault is a cloud vault bound to `tenant`. -/
def boundTo (tenant vaultId : Bytes) : Bool :=
  match s.vaults[vaultId]? with
  | some row => row.syncTenant = tenant ∧ row.syncTarget = .cloud
  | none => false

def listDirtyBoundVaults (tenant : Bytes) : List VaultRecord :=
  (s.vaults.toList.filter fun entry =>
      entry.2.dirty ∧ entry.2.syncTenant = tenant ∧ entry.2.syncTarget = .cloud).map
    fun entry => mapVaultRow entry.1 entry.2

def listDirtyBoundItemVersions (tenant : Bytes) : List ItemVersion :=
  (s.items.toList.filter fun entry => s.boundTo tenant entry.1.1 ∧ entry.2.dirty).map
    fun entry =>
      { vaultId := entry.1.1
        itemId := entry.1.2
        version := entry.2.version.toU64
        itemType := entry.2.itemType
        authorPubkey := entry.2.authorPubkey
        keyEpoch := entry.2.keyEpoch.toU64 }

def listDirtyBoundManifests (tenant : Bytes) : List MembershipManifest :=
  (s.membershipManifests.toList.filter fun entry =>
      s.boundTo tenant entry.1.1 ∧ entry.2.dirty).map
    fun entry => mapManifestRow entry.1 entry.2

def listDirtyBoundGrants (tenant : Bytes) : List MembershipGrant :=
  (s.membershipGrants.toList.filter fun entry =>
      s.boundTo tenant entry.1.1 ∧ entry.2.dirty).map
    fun entry => mapGrantRow entry.1 entry.2

def clearVaultDirty : Storage :=
  { s with
    vaults := s.vaults.updateWhere (fun k _ => k = vaultId) fun row => { row with dirty := false } }

def clearItemDirty (itemId : Bytes) : Storage :=
  { s with
    items := s.items.updateWhere (fun k _ => k = (vaultId, itemId))
      fun row => { row with dirty := false } }

def clearManifestDirty (keyEpoch : UInt64) : Except StorageError Storage := do
  let epoch ← checkedVersion keyEpoch
  .ok { s with
    membershipManifests := s.membershipManifests.updateWhere (fun k _ => k = (vaultId, epoch))
      fun row => { row with dirty := false } }

def clearGrantDirty (vaultId memberPubkey : Bytes) (keyEpoch : UInt64) :
    Except StorageError Storage := do
  let epoch ← checkedVersion keyEpoch
  .ok { s with
    membershipGrants := s.membershipGrants.updateWhere
      (fun k _ => k = (vaultId, memberPubkey, epoch)) fun row => { row with dirty := false } }

/-! ## Audit log -/

/-- Appends an entry under the next sequence number. -/
def appendAudit (entryBlob signature authorPubkey : Bytes) : Storage :=
  { s with
    auditLog := s.auditLog ++
      [{ seq := s.auditSeq + 1, entryBlob, signature, authorPubkey, recordedAt := s.now }]
    auditSeq := s.auditSeq + 1 }

/-- Entries after `sinceSeq` in sequence order. -/
def listAudit (sinceSeq : UInt64) : List AuditEntry :=
  if i64Max < sinceSeq then []
  else s.auditLog.filter fun entry => sinceSeq.toNat < entry.seq

/-! ## Cursors, floors, anchors and account state -/

def setSyncCursor (key : Bytes) (v : UInt64) : Except StorageError Storage := do
  let value ← checkedVersion v
  .ok { s with syncState := s.syncState.insert key value }

def getSyncCursor (key : Bytes) : Option UInt64 :=
  s.syncState[key]?.map SqlInt.toU64

def setVaultEpochFloor (epoch : UInt64) : Except StorageError Storage := do
  let value ← checkedVersion epoch
  .ok { s with vaultEpochFloor := s.vaultEpochFloor.insert vaultId value }

def getVaultEpochFloor : Option UInt64 :=
  s.vaultEpochFloor[vaultId]?.map SqlInt.toU64

def setVaultTrustAnchor (vaultId genesisOwnerPubkey : Bytes) : Storage :=
  { s with
    vaultTrustAnchor := s.vaultTrustAnchor.insert vaultId
      { genesisOwnerPubkey, pinnedAt := s.now } }

def getVaultTrustAnchor : Option VaultTrustAnchor :=
  s.vaultTrustAnchor[vaultId]?.map (mapVaultTrustAnchorRow vaultId)

def setAccountState (authorPubkey : Bytes) (version : UInt64)
    (payload signature : Bytes) : Except StorageError Storage := do
  let v ← checkedVersion version
  .ok { s with
    accountState := s.accountState.insert authorPubkey
      { version := v, payload, signature, updatedAt := s.now } }

def getAccountState (authorPubkey : Bytes) : Option AccountStateRecord :=
  s.accountState[authorPubkey]?.map (mapAccountStateRow authorPubkey)

def listAccountStates : List AccountStateRecord :=
  s.accountState.toList.map fun entry => mapAccountStateRow entry.1 entry.2

end Storage

end UniSsh
