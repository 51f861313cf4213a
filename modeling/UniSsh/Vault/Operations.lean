import UniSsh.Crypto.Envelope
import UniSsh.Vault.Authority

/-!
# Operations on a vault

Creation, opening, item writes, and the membership changes that re-sign everything. An operation
works on an opened vault and is given the random bytes it draws; a failed transaction leaves the
storage as it was.
-/

namespace UniSsh

open List

/-- Computations of a vault. -/
abbrev VaultM := EStateM VaultError Storage

/-- Random bytes, in the order an operation draws them. -/
abbrev Draws := Nat → Bytes

/-- A storage write of a vault. -/
def vaultWrite (f : Storage → Except StorageError Storage) : VaultM Unit :=
  writeM fun s => (f s).mapError .storage

/-- A computation that does not look at the storage. -/
def compute {α : Type} (x : Except VaultError α) : VaultM α := readM fun _ => x

def historyRetain : Nat := 20

def require (condition : Bool) (failure : VaultError) : Except VaultError Unit :=
  if condition then .ok () else .error failure

def okOr {α : Type} (found : Option α) (failure : VaultError) : Except VaultError α :=
  match found with
  | some a => .ok a
  | none => .error failure

variable {failure : VaultError}

theorem require_eq_ok :
    require condition failure = .ok () ↔ condition = true := by
  cases condition <;> simp [require]

theorem okOr_eq_ok {α : Type} {found : Option α} {a : α} :
    okOr found failure = .ok a ↔ found = some a := by
  cases found <;> simp [okOr]

/-- The version that supersedes `version`. -/
def nextVersion (version : UInt64) : Except VaultError UInt64 :=
  if version = 0xFFFFFFFFFFFFFFFF then .error (.storage .versionOutOfRange)
  else .ok (version + 1)

/-- An opened vault. -/
structure Vault where
  keyset : UnlockedKeyset
  vaultId : Bytes
  name : Bytes
  vk : Bytes
  version : UInt64
  /-- The epoch new records are stamped with. -/
  keyEpoch : UInt64
  /-- The trusted anchor of the vault. -/
  genesisOwner : Bytes
  canWrite : Bool
  deriving DecidableEq

section Operations

variable (P : Primitives)

/-! ## Vault records -/

def sealName (vk nonce name vaultId : Bytes) (version : UInt64) : Except VaultError Bytes :=
  (aeadEncrypt P vk nonce name (nameAad vaultId version)).mapError .crypto

variable (keyset : UnlockedKeyset)

/-- The vault key sealed to its owner, bound to the vault, the owner and the epoch. -/
def sealOwnerVk (randomness vk vaultId : Bytes) (keyEpoch : UInt64) : Except VaultError Bytes := do
  let info ← (vkWrapInfo vaultId (keyset.verifying P) keyEpoch).mapError .crypto
  (sealKeyToPublic P (P.x25519Public keyset.encryption) randomness vk info).mapError .crypto

/-- The only constructor of vault records. -/
def buildVaultRecordEpoch (vaultId nameBlob wrappedVk : Bytes)
    (version : UInt64) (tombstone : Bool) (keyEpoch : UInt64) (syncTarget : SyncTarget)
    (cachePolicy : CachePolicy) (syncTenant : Bytes) : Except VaultError VaultRecord := do
  let signature ← signContent P keyset (vaultRecordAad vaultId version)
    (vaultSignedContent wrappedVk nameBlob)
  .ok { vaultId, syncTarget, nameBlob, wrappedVk, version, tombstone, signature,
        authorPubkey := keyset.verifying P, keyEpoch, cachePolicy, syncTenant }

def verifyVaultRecord (record : VaultRecord) : Except VaultError Unit :=
  verifySigned P record.authorPubkey (vaultRecordAad record.vaultId record.version)
    (vaultSignedContent record.wrappedVk record.nameBlob) record.signature

/-- Creates a vault at epoch 0 that no server knows yet. -/
def createWithTarget (vaultId name : Bytes) (syncTarget : SyncTarget)
    (draws : Draws) : VaultM Vault := do
  let vk := draws 0
  let version : UInt64 := 1
  let nameBlob ← compute (sealName P vk (draws 1) name vaultId version)
  let wrappedVk ← compute (sealOwnerVk P keyset (draws 2) vk vaultId 0)
  let record ← compute (buildVaultRecordEpoch P keyset vaultId nameBlob wrappedVk version false 0
    syncTarget .offlineAllowed [])
  vaultWrite fun s => s.putVault record
  modify fun s => s.markVaultDirty vaultId
  pure { keyset, vaultId, name, vk, version, keyEpoch := 0, genesisOwner := keyset.verifying P,
         canWrite := true }

/-! ## Opening -/

/-- The vault key as its owner reads it, bound to vault, owner and epoch or to the vault alone. -/
def openOwnerVk (secret wrappedVk vaultId ownerEd : Bytes) (keyEpoch : UInt64) :
    Except VaultError Bytes := do
  let info ← (vkWrapInfo vaultId ownerEd keyEpoch).mapError .crypto
  match openKeyWithSecret P secret wrappedVk info with
  | .ok vk => .ok vk
  | .error _ => (openKeyWithSecret P secret wrappedVk vaultId).mapError fun _ => .decrypt

def aeadDecryptCompat (key blob : Bytes) (aad : AssociatedData) : Except VaultError Bytes :=
  match aeadDecrypt P key blob aad with
  | .ok plaintext => .ok plaintext
  | .error _ => (aeadDecryptPreAgility P key blob aad).mapError fun _ => .decrypt

def unwrapKeyCompat (kek blob aad : Bytes) : Except VaultError Bytes :=
  match unwrapKey P kek blob aad with
  | .ok key => .ok key
  | .error _ => (unwrapKeyPreAgility P kek blob aad).mapError fun _ => .decrypt

/-- Unwraps the vault key of a grant that has not expired at `now`. -/
def openGrant (grant : MembershipGrant) (vaultId secret memberEd25519Pub : Bytes)
    (keyEpoch : UInt64) (now : Int64) : Except VaultError Bytes :=
  if 0 < grant.notAfter ∧ grant.notAfter ≤ now then .error .grantExpired
  else do
    let info ← (vkWrapInfo vaultId memberEd25519Pub keyEpoch).mapError .crypto
    (openKeyWithSecret P secret grant.wrappedVk info).mapError fun _ => .decrypt

/-- The vault key of the account's first grant that verifies and opens. -/
def openOwnGrant (vaultId : Bytes) (members : VerifiedMembers) (keyset : UnlockedKeyset)
    (now : Int64) (failure : VaultError) :
    List MembershipGrant → Except VaultError (Bytes × MemberRole)
  | [] => .error failure
  | grant :: rest =>
    if grant.memberPubkey ≠ keyset.verifying P then
      openOwnGrant vaultId members keyset now failure rest
    else
      let opened := do
        verifyGrant P grant vaultId members
        openGrant P grant vaultId keyset.encryption (keyset.verifying P) members.keyEpoch now
      match opened with
      | .ok vk => .ok (vk, grant.role)
      | .error e => openOwnGrant vaultId members keyset now e rest

/-- The vault key and the right to write of the genesis owner. -/
def openAsOwner (s : Storage) (keyset : UnlockedKeyset) (record : VaultRecord) :
    Except VaultError (Bytes × Bool) := do
  let own := keyset.verifying P
  let vk ← openOwnerVk P keyset.encryption record.wrappedVk record.vaultId own record.keyEpoch
  match s.latestMembershipEpoch record.vaultId with
  | none => .ok (vk, true)
  | some latest =>
    -- A set that does not verify takes the right to write, not the right to read.
    match verifyChainToEpoch P s record.vaultId latest own with
    | .ok members => .ok (vk, members.canWrite own)
    | .error _ => .ok (vk, false)

/-- The vault key and the right to write of a member, through its own grant. -/
def openAsMember (s : Storage) (keyset : UnlockedKeyset) (record : VaultRecord)
    (genesisOwner : Bytes) (now : Int64) : Except VaultError (Bytes × Bool) := do
  let epoch := (s.latestMembershipEpoch record.vaultId).getD record.keyEpoch
  let members ← verifyChainToEpoch P s record.vaultId epoch genesisOwner
  let grants ← (s.listMembershipGrants record.vaultId epoch).mapError .storage
  let (vk, _) ← openOwnGrant P record.vaultId members keyset now .notAMember grants
  .ok (vk, members.canWrite (keyset.verifying P))

/-- `Vault::open`. -/
def openVault (s : Storage) (keyset : UnlockedKeyset) (vaultId : Bytes) (now : Int64) :
    Except VaultError Vault := do
  match s.getVault vaultId with
  | none => .error .notFound
  | some record =>
    if record.tombstone then .error .notFound
    else do
      verifyVaultRecord P record
      let own := keyset.verifying P
      let genesisOwner := match s.getVaultTrustAnchor record.vaultId with
        | some a => a.genesisOwnerPubkey
        | none => own
      let (vk, canWrite) ←
        if genesisOwner = own then openAsOwner P s keyset record
        else openAsMember P s keyset record genesisOwner now
      let name ← aeadDecryptCompat P vk record.nameBlob
        (nameAad record.vaultId record.version)
      let keyEpoch := match s.latestMembershipEpoch record.vaultId with
        | some latest => max record.keyEpoch latest
        | none => record.keyEpoch
      .ok { keyset, vaultId := record.vaultId, name, vk, version := record.version, keyEpoch,
            genesisOwner, canWrite }

/-! ## Whole-record operations -/

variable (vault : Vault)

/-- Re-sealing the record as anyone but its owner would lock the owner out. -/
def Vault.requireOwner : Except VaultError Unit :=
  require (vault.keyset.verifying P = vault.genesisOwner) .authorityInvalid

def Vault.requireWriter : Except VaultError Unit :=
  require vault.canWrite .readOnly

/-- The next version of the vault's record, from the stored one. -/
def Vault.reissue (name : Bytes) (tombstone : Bool) (epoch : VaultRecord → UInt64)
    (policy : VaultRecord → CachePolicy) (draws : Draws) : VaultM VaultRecord := do
  let version ← compute (nextVersion vault.version)
  let nameBlob ← compute (sealName P vault.vk (draws 0) name vault.vaultId version)
  let cur ← readM fun s => okOr (s.getVault vault.vaultId) .notFound
  let wrappedVk ← compute
    (sealOwnerVk P vault.keyset (draws 1) vault.vk vault.vaultId (epoch cur))
  compute (buildVaultRecordEpoch P vault.keyset vault.vaultId nameBlob wrappedVk version tombstone
    (epoch cur) cur.syncTarget (policy cur) cur.syncTenant)

/-- Renames the vault. -/
def Vault.setName (newName : Bytes) (draws : Draws) : VaultM Vault := do
  compute (vault.requireOwner P)
  let record ← vault.reissue P newName false (fun cur => max vault.keyEpoch cur.keyEpoch)
    VaultRecord.cachePolicy draws
  vaultWrite fun s => s.putVault record
  modify fun s => s.markVaultDirty vault.vaultId
  pure { vault with name := newName, version := record.version }

/-- Changes the vault's cache policy, at the stored record's epoch. -/
def Vault.setCachePolicy (policy : CachePolicy) (draws : Draws) : VaultM Vault := do
  compute (vault.requireOwner P)
  let record ← vault.reissue P vault.name false VaultRecord.keyEpoch (fun _ => policy) draws
  vaultWrite fun s => s.putVault record
  modify fun s => s.markVaultDirty vault.vaultId
  pure { vault with version := record.version }

/-- Deletes the vault: a tombstone, and no archived version survives. -/
def Vault.delete (draws : Draws) : VaultM Unit := do
  compute (vault.requireOwner P)
  let record ← vault.reissue P vault.name true (fun cur => max vault.keyEpoch cur.keyEpoch)
    VaultRecord.cachePolicy draws
  transaction do
    vaultWrite fun s => s.putVault record
    modify fun s => s.markVaultDirty vault.vaultId
    let s ← get
    (s.listItemsIncludingTombstones vault.vaultId).forM fun r =>
      modify fun s => s.clearItemHistory vault.vaultId r.itemId

/-! ## Items -/

/-- The version a write of an item gets. -/
def Vault.nextItemVersion (s : Storage) (itemId : Bytes) : Except VaultError UInt64 :=
  match s.getItem vault.vaultId itemId with
  | some existing => nextVersion existing.version
  | none => .ok 1

/-- A signed item record at the vault's epoch. -/
def Vault.signedItem (itemId : Bytes) (itemType : UInt32) (contentBlob : Bytes)
    (wrappedItemKey : Bytes) (version : UInt64) (tombstone : Bool) (keyEpoch : UInt64) :
    Except VaultError ItemRecord := do
  let signature ← signContent P vault.keyset (itemAad vault.vaultId itemId version) contentBlob
  .ok { vaultId := vault.vaultId, itemId, itemType, contentBlob, wrappedItemKey, version,
        tombstone, signature, authorPubkey := vault.keyset.verifying P,
        -- Storage sets the timestamps.
        createdAt := 0, updatedAt := 0, keyEpoch }

/-- An item record with a fresh key for its content. -/
def Vault.sealItem (itemId : Bytes) (itemType : UInt32) (content : Bytes)
    (version : UInt64) (draws : Draws) : Except VaultError ItemRecord := do
  let itemKey := draws 0
  let wrappedItemKey ← (wrapKey P vault.vk (draws 1) itemKey itemId).mapError .crypto
  let contentBlob ← (aeadEncrypt P itemKey (draws 2) content
    (itemAad vault.vaultId itemId version)).mapError .crypto
  vault.signedItem P itemId itemType contentBlob wrappedItemKey version false vault.keyEpoch

/-- Creates or updates an item. -/
def Vault.putItem (itemId : Bytes) (itemType : UInt32) (content : Bytes)
    (draws : Draws) : VaultM UInt64 := do
  compute vault.requireWriter
  let version ← readM fun s => vault.nextItemVersion s itemId
  let record ← compute (vault.sealItem P itemId itemType content version draws)
  vaultWrite fun s => s.putItem record
  modify fun s => s.markItemDirty vault.vaultId itemId
  pure version

/-- `putItem` that archives the version it replaces. -/
def Vault.putItemKeepHistory (itemId : Bytes) (itemType : UInt32)
    (content : Bytes) (draws : Draws) : VaultM UInt64 := do
  compute vault.requireWriter
  let version ← readM fun s => vault.nextItemVersion s itemId
  let record ← compute (vault.sealItem P itemId itemType content version draws)
  vaultWrite fun s => s.archiveAndPut record historyRetain
  modify fun s => s.markItemDirty vault.vaultId record.itemId
  pure version

def Vault.tombstoneRecord (itemId : Bytes) (itemType : UInt32)
    (version : UInt64) : Except VaultError ItemRecord :=
  vault.signedItem P itemId itemType [] [] version true vault.keyEpoch

/-- Deletes an item: a tombstone, and no archived version survives. -/
def Vault.deleteItem (itemId : Bytes) : VaultM Unit := do
  compute vault.requireWriter
  let existing ← readM fun s => okOr (s.getItem vault.vaultId itemId) .notFound
  let version ← compute (nextVersion existing.version)
  let record ← compute (vault.tombstoneRecord P itemId existing.itemType version)
  vaultWrite fun s => s.putItemAndClearHistory record
  modify fun s => s.markItemDirty vault.vaultId itemId

structure DecryptedItem where
  itemId : Bytes
  itemType : UInt32
  version : UInt64
  content : Bytes
  deriving DecidableEq

/-- Verifies a record and its author and decrypts its content. -/
def Vault.decryptRecord (s : Storage) (record : ItemRecord) : Except VaultError DecryptedItem := do
  let aad := itemAad vault.vaultId record.itemId record.version
  verifySigned P record.authorPubkey aad record.contentBlob record.signature
  verifyRecordAuthority P s vault.vaultId record.authorPubkey record.keyEpoch vault.genesisOwner
  let itemKey ← unwrapKeyCompat P vault.vk record.wrappedItemKey record.itemId
  let content ← aeadDecryptCompat P itemKey record.contentBlob aad
  .ok { itemId := record.itemId, itemType := record.itemType, version := record.version, content }

def Vault.getItem (s : Storage) (itemId : Bytes) : Except VaultError (Option DecryptedItem) :=
  match s.getItem vault.vaultId itemId with
  | some r => if r.tombstone then .ok none else some <$> vault.decryptRecord P s r
  | none => .ok none

/-- A version of an item, current or archived. -/
def Vault.getItemVersion (s : Storage) (itemId : Bytes) (version : UInt64) :
    Except VaultError (Option DecryptedItem) :=
  match (s.getItem vault.vaultId itemId).filter fun r => !r.tombstone && r.version = version with
  | some r => some <$> vault.decryptRecord P s r
  | none =>
    match (s.listItemHistory vault.vaultId itemId).find? fun r => r.version = version with
    | some r => some <$> vault.decryptRecord P s r
    | none => .ok none

/-- Moves an item to a new id and buries the old one, atomically. -/
def Vault.renameItem (oldId newId : Bytes) (draws : Draws) : VaultM Unit :=
  if oldId = newId then pure ()
  else do
    compute vault.requireWriter
    readM fun s => match s.getItem vault.vaultId newId with
      | some r => if r.tombstone then .ok () else .error .alreadyExists
      | none => .ok ()
    let item ← readM fun s => do okOr (← vault.getItem P s oldId) .notFound
    transaction do
      let _ ← vault.putItem P newId item.itemType item.content draws
      let version ← compute (nextVersion item.version)
      let tomb ← compute (vault.tombstoneRecord P oldId item.itemType version)
      vaultWrite fun s => s.putItem tomb
      modify fun s => s.markItemDirty vault.vaultId oldId
      modify fun s => s.clearItemHistory vault.vaultId oldId

/-! ## Re-anchoring -/

/-- A live item with its key wrapped by another vault key, at a new version and epoch. -/
def Vault.rewrapItem (record : ItemRecord) (vkPrime : Bytes) (newEpoch : UInt64)
    (draws : Draws) : Except VaultError ItemRecord := do
  let itemKey ← unwrapKeyCompat P vault.vk record.wrappedItemKey record.itemId
  let plaintext ← aeadDecryptCompat P itemKey record.contentBlob
    (itemAad vault.vaultId record.itemId record.version)
  let newVersion ← nextVersion record.version
  let contentBlob ← (aeadEncrypt P itemKey (draws 0) plaintext
    (itemAad vault.vaultId record.itemId newVersion)).mapError .crypto
  let wrappedItemKey ← (wrapKey P vkPrime (draws 1) itemKey record.itemId).mapError .crypto
  vault.signedItem P record.itemId record.itemType contentBlob wrappedItemKey newVersion false
    newEpoch

/-- Whether a row may be reissued: its author could write then and can still write now. -/
def Vault.verifyReanchorAuthority (s : Storage) (record : ItemRecord)
    (current : Option VerifiedMembers) : Except VaultError Unit :=
  if current.any fun members => !members.canWrite record.authorPubkey then
    .error .authorityInvalid
  else if record.keyEpoch = 0 ∧ record.authorPubkey = vault.genesisOwner then .ok ()
  else
    let floor := max ((s.getVaultEpochFloor vault.vaultId).getD 0)
      ((current.map VerifiedMembers.keyEpoch).getD 0)
    if floor ≤ record.keyEpoch then
      verifyRecordAuthority P s vault.vaultId record.authorPubkey record.keyEpoch
        vault.genesisOwner
    else do
      let historical ← verifyChainToEpoch P s vault.vaultId record.keyEpoch vault.genesisOwner
      if historical.canWrite record.authorPubkey ∧
          current.any fun members => members.canWrite record.authorPubkey then .ok ()
      else .error .authorityInvalid

/-- The next version of one row at a new epoch, under a vault key. -/
def Vault.reanchorItem (s : Storage) (targetVk : Bytes) (epoch : UInt64)
    (current : Option VerifiedMembers) (record : ItemRecord) (draws : Draws) :
    Except VaultError ItemRecord :=
  match checkItemRecord P record vault.genesisOwner with
  | some .malformed | some .signatureInvalid => .error .signatureInvalid
  | _ =>
    if record.tombstone ∧ (record.contentBlob ≠ [] ∨ record.wrappedItemKey ≠ []) then
      .error .format
    else do
      vault.verifyReanchorAuthority P s record current
      if record.tombstone then do
        let version ← nextVersion record.version
        let tombstone ← vault.tombstoneRecord P record.itemId record.itemType version
        .ok { tombstone with keyEpoch := epoch }
      else vault.rewrapItem P record targetVk epoch draws

/-- Rows in order, a live one drawing twice. -/
def Vault.reanchorAll (vault : Vault) (s : Storage) (targetVk : Bytes) (epoch : UInt64)
    (current : Option VerifiedMembers) :
    Draws → List ItemRecord → Except VaultError (List ItemRecord)
  | _, [] => .ok []
  | draws, record :: rest => do
    let updated ← vault.reanchorItem P s targetVk epoch current record draws
    let others ← vault.reanchorAll s targetVk epoch current
      (fun n => if record.tombstone then draws n else draws (n + 2)) rest
    .ok (updated :: others)

/-- The members of the latest epoch. -/
def Vault.currentMembers (s : Storage) : Except VaultError (Option VerifiedMembers) :=
  match s.latestMembershipEpoch vault.vaultId with
  | some latest => some <$> verifyChainToEpoch P s vault.vaultId latest vault.genesisOwner
  | none => .ok none

/-- The verified current snapshot, deletions included, reissued at a new epoch. -/
def Vault.reanchorItems (s : Storage) (targetVk : Bytes) (epoch : UInt64)
    (draws : Draws) : Except VaultError (List ItemRecord) := do
  let records := s.listItemsIncludingTombstones vault.vaultId
  let current ← vault.currentMembers P s
  vault.reanchorAll P s targetVk epoch current draws records

/-! ## Membership -/

/-- A recipient of a grant: X25519 key, Ed25519 key and role. -/
structure Recipient where
  x25519 : Bytes
  ed25519 : Bytes
  role : MemberRole
  deriving DecidableEq

def buildGrant (adminKeyset : UnlockedKeyset) (vaultId : Bytes) (recipient : Recipient)
    (keyEpoch : UInt64) (vk randomness : Bytes) : Except VaultError MembershipGrant := do
  let key ← (x25519PublicFromBytes P recipient.x25519).mapError fun _ => .format
  let info ← (vkWrapInfo vaultId recipient.ed25519 keyEpoch).mapError .crypto
  let wrappedVk ← (sealKeyToPublic P key randomness vk info).mapError .crypto
  -- Grants built here do not expire.
  let notAfter : Int64 := 0
  let signature ← signContent P adminKeyset (grantAad vaultId recipient.ed25519 keyEpoch)
    (grantSignedContent recipient.role notAfter wrappedVk)
  .ok { vaultId, memberPubkey := recipient.ed25519, keyEpoch, role := recipient.role, notAfter,
        wrappedVk, signature, authorPubkey := adminKeyset.verifying P }

/-- Grants for all recipients, each verified against the new set. -/
def buildGrants (adminKeyset : UnlockedKeyset) (vaultId : Bytes) (keyEpoch : UInt64) (vk : Bytes)
    (verified : VerifiedMembers) :
    Draws → List Recipient → Except VaultError (List MembershipGrant)
  | _, [] => .ok []
  | draws, recipient :: rest => do
    let grant ← buildGrant P adminKeyset vaultId recipient keyEpoch vk (draws 0)
    verifyGrant P grant vaultId verified
    let others ← buildGrants adminKeyset vaultId keyEpoch vk verified (fun n => draws (n + 1)) rest
    .ok (grant :: others)

/-- Builds, verifies and stores the manifest and the grants of an epoch. -/
def addMember (adminKeyset : UnlockedKeyset) (vaultId : Bytes) (keyEpoch : UInt64)
    (prev : Option VerifiedMembers) (genesisOwner : Bytes) (members : List Member)
    (grants : List Recipient) (vk : Bytes) (draws : Draws) : VaultM VerifiedMembers := do
  let manifest ← compute (buildManifest P adminKeyset vaultId keyEpoch members)
  let verified ← compute (verifyManifest P manifest vaultId prev genesisOwner)
  let built ← compute (buildGrants P adminKeyset vaultId keyEpoch vk verified draws grants)
  transaction do
    vaultWrite fun s => s.putMembershipManifest manifest
    built.forM fun g => vaultWrite fun s => s.putMembershipGrant g
    vaultWrite fun s => s.markMembershipDirty vaultId keyEpoch
  pure verified

/-- Stores re-issued items as local edits. -/
def Vault.putReanchored (records : List ItemRecord) : VaultM Unit :=
  records.forM fun record => do
    vaultWrite fun s => s.putItem record
    modify fun s => s.markItemDirty vault.vaultId record.itemId

/-- The recipients among `members` whose X25519 key is known. -/
def knownRecipients (members : List Member) (x25519ByEd : List (Bytes × Bytes)) : List Recipient :=
  members.filterMap fun m =>
    (x25519ByEd.find? fun known => known.1 = m.ed25519Pub).map fun known =>
      { x25519 := known.2, ed25519 := m.ed25519Pub, role := m.role }

/-- `e.checked_add(1)`. -/
def nextEpoch (epoch : UInt64) : Except VaultError UInt64 :=
  if epoch = 0xFFFFFFFFFFFFFFFF then .error .epochInvalid else .ok (epoch + 1)

/-- The epoch a membership change issues and the verified set before it. -/
def Vault.succession (s : Storage) (genesisOwner : Bytes) :
    Except VaultError (UInt64 × Option VerifiedMembers) := do
  match s.latestMembershipEpoch vault.vaultId with
  | some latest => do
    let prev ← verifyChainToEpoch P s vault.vaultId latest genesisOwner
    let epoch ← nextEpoch latest
    .ok (epoch, some prev)
  | none => .ok (1, none)

/-- An epoch must be above the floor. -/
def Vault.requireAboveFloor (s : Storage) (epoch : UInt64) : Except VaultError Unit :=
  if epoch ≤ (s.getVaultEpochFloor vault.vaultId).getD 0 then .error .epochInvalid else .ok ()

/-- Re-signs the record and stores the re-issued items, if the owner may write. -/
def Vault.reanchorRecord (verified : VerifiedMembers) (keyEpoch : UInt64)
    (reanchored : List ItemRecord) (draws : Draws) : VaultM Unit :=
  if verified.canWrite (vault.keyset.verifying P) then do
    let vrec ← readM fun s => okOr (s.getVault vault.vaultId) .notFound
    let version ← compute (nextVersion vrec.version)
    let nameBlob ← compute (sealName P vault.vk (draws 0) vault.name vault.vaultId version)
    let wrappedVk ← compute
      (sealOwnerVk P vault.keyset (draws 1) vault.vk vault.vaultId keyEpoch)
    let newVrec ← compute (buildVaultRecordEpoch P vault.keyset vault.vaultId nameBlob wrappedVk
      version false keyEpoch vrec.syncTarget vrec.cachePolicy vrec.syncTenant)
    vaultWrite fun s => s.putVault newVrec
    modify fun s => s.markVaultDirty vault.vaultId
    vault.putReanchored reanchored
  else pure ()

/-- Creates or extends the membership at the next epoch and re-anchors the vault on it. -/
def Vault.establishOrExtendMembership (adminKeyset : UnlockedKeyset)
    (members : List Member) (x25519ByEd : List (Bytes × Bytes)) (draws : Draws) :
    VaultM Vault := do
  let genesisOwner := vault.keyset.verifying P
  let (keyEpoch, prev) ← readM fun s => vault.succession P s genesisOwner
  readM fun s => vault.requireAboveFloor s keyEpoch
  let grants := knownRecipients members x25519ByEd
  let reanchored ← readM fun s => vault.reanchorItems P s vault.vk keyEpoch draws
  let drawn := 2 * (reanchored.filter fun r => !r.tombstone).length
  transaction do
    let verified ← addMember P adminKeyset vault.vaultId keyEpoch prev genesisOwner members grants
      vault.vk fun n => draws (n + drawn)
    vault.reanchorRecord P verified keyEpoch reanchored fun n => draws (n + drawn + grants.length)
    vaultWrite fun s => s.setVaultEpochFloor vault.vaultId keyEpoch
  pure { vault with keyEpoch }

/-- What a rotation of the vault key issues. -/
structure Rotation where
  epoch : UInt64
  manifest : MembershipManifest
  grants : List MembershipGrant
  record : VaultRecord
  items : List ItemRecord

/-- A new key, epoch, manifest, grants and record, with everything re-anchored. -/
def Vault.prepareRotation (s : Storage) (adminKeyset : UnlockedKeyset)
    (remaining : List Member) (grants : List Recipient) (draws : Draws) :
    Except VaultError Rotation := do
  let genesisOwner := vault.keyset.verifying P
  let vrec ← okOr (s.getVault vault.vaultId) .notFound
  let currentEpoch ← okOr (s.latestMembershipEpoch vault.vaultId) .notAMember
  let prev ← verifyChainToEpoch P s vault.vaultId currentEpoch genesisOwner
  require (prev.isAdmin (adminKeyset.verifying P)) .authorityInvalid
  let newEpoch ← nextEpoch currentEpoch
  vault.requireAboveFloor s newEpoch
  let vkPrime := draws 0
  let manifest ← buildManifest P adminKeyset vault.vaultId newEpoch remaining
  let verifiedNew ← verifyManifest P manifest vault.vaultId (some prev) genesisOwner
  require (verifiedNew.canWrite genesisOwner) .notAMember
  let later : Draws := fun n => draws (n + 1)
  let built ← buildGrants P adminKeyset vault.vaultId newEpoch vkPrime verifiedNew later grants
  let version ← nextVersion vrec.version
  let nameBlob ← sealName P vkPrime (later grants.length) vault.name vault.vaultId version
  let wrappedVk ← sealOwnerVk P vault.keyset (later (grants.length + 1)) vkPrime vault.vaultId
    newEpoch
  let record ← buildVaultRecordEpoch P vault.keyset vault.vaultId nameBlob wrappedVk version false
    newEpoch vrec.syncTarget vrec.cachePolicy vrec.syncTenant
  let items ← vault.reanchorItems P s vkPrime newEpoch fun n => later (n + grants.length + 2)
  .ok { epoch := newEpoch, manifest, grants := built, record, items }

/-- Rotates the vault key of a vault with a membership. -/
def Vault.rotateVk (adminKeyset : UnlockedKeyset) (remaining : List Member)
    (grants : List Recipient) (draws : Draws) : VaultM Vault := do
  let rotation ← readM fun s => vault.prepareRotation P s adminKeyset remaining grants draws
  transaction do
    vaultWrite fun s => s.putMembershipManifest rotation.manifest
    rotation.grants.forM fun g => vaultWrite fun s => s.putMembershipGrant g
    vault.putReanchored rotation.items
    vaultWrite fun s => s.putVault rotation.record
    vaultWrite fun s => s.setVaultEpochFloor vault.vaultId rotation.epoch
    modify fun s => s.markVaultDirty vault.vaultId
    vaultWrite fun s => s.markMembershipDirty vault.vaultId rotation.epoch
  pure { vault with keyEpoch := rotation.epoch }

/-! ## What re-anchoring issues -/

variable {P vault} {s : Storage} {targetVk : Bytes} {epoch : UInt64}
  {current : Option VerifiedMembers} {draws : Draws} {issued : List ItemRecord}

/-- A re-anchored row is the row's next version, signed by the handle's keyset at the new epoch. -/
theorem reanchorItem_signed
    (issued : vault.reanchorItem P s targetVk epoch current record draws = .ok updated) :
    ∃ contentBlob wrappedItemKey version, nextVersion record.version = .ok version ∧
      vault.signedItem P record.itemId record.itemType contentBlob wrappedItemKey version
        record.tombstone epoch = .ok updated := by
  unfold Vault.reanchorItem at issued
  split at issued
  · cases issued
  · cases issued
  split at issued
  · cases issued
  obtain ⟨_, -, issued⟩ := bind_eq_ok.mp issued
  split at issued
  · next deleted =>
    obtain ⟨version, next, issued⟩ := bind_eq_ok.mp issued
    obtain ⟨_, signed, issued⟩ := bind_eq_ok.mp issued
    refine ⟨[], [], version, next, ?_⟩
    rw [deleted]
    -- The signature does not cover the epoch.
    obtain ⟨signature, made, same⟩ := bind_eq_ok.mp signed
    cases same
    cases issued
    exact bind_eq_ok.mpr ⟨signature, made, rfl⟩
  · next live =>
    obtain ⟨_, -, issued⟩ := bind_eq_ok.mp issued
    obtain ⟨_, -, issued⟩ := bind_eq_ok.mp issued
    obtain ⟨version, next, issued⟩ := bind_eq_ok.mp issued
    obtain ⟨contentBlob, -, issued⟩ := bind_eq_ok.mp issued
    obtain ⟨wrappedItemKey, -, issued⟩ := bind_eq_ok.mp issued
    rw [Bool.eq_false_iff.mpr live]
    exact ⟨contentBlob, wrappedItemKey, version, next, issued⟩

/-- Every listed row is reissued, and nothing else is issued. -/
theorem reanchorAll_eq_ok
    (ran : vault.reanchorAll P s targetVk epoch current draws records = .ok issued) :
    (∀ updated ∈ issued, ∃ record ∈ records, ∃ draws,
      vault.reanchorItem P s targetVk epoch current record draws = .ok updated) ∧
    ∀ record ∈ records, ∃ updated ∈ issued, ∃ draws,
      vault.reanchorItem P s targetVk epoch current record draws = .ok updated := by
  induction records generalizing draws issued with
  | nil =>
    cases ran
    exact ⟨nofun, nofun⟩
  | cons record _ ih =>
    obtain ⟨first, reissued, ran⟩ := bind_eq_ok.mp ran
    obtain ⟨_, ranRest, ran⟩ := bind_eq_ok.mp ran
    cases ran
    obtain ⟨back, forth⟩ := ih ranRest
    constructor
    · intro updated member
      rcases mem_cons.mp member with rfl | old
      · exact ⟨record, mem_cons_self, draws, reissued⟩
      · obtain ⟨source, inRest, made⟩ := back updated old
        exact ⟨source, mem_cons_of_mem _ inRest, made⟩
    · intro source member
      rcases mem_cons.mp member with rfl | old
      · exact ⟨first, mem_cons_self, draws, reissued⟩
      · obtain ⟨updated, issued, made⟩ := forth source old
        exact ⟨updated, mem_cons_of_mem _ issued, made⟩

theorem reanchorItems_eq_ok (ran : vault.reanchorItems P s targetVk epoch draws = .ok issued) :
    (∀ updated ∈ issued, ∃ record ∈ s.listItemsIncludingTombstones vault.vaultId,
      ∃ current draws, vault.reanchorItem P s targetVk epoch current record draws = .ok updated) ∧
    ∀ record ∈ s.listItemsIncludingTombstones vault.vaultId, ∃ updated ∈ issued,
      ∃ current draws, vault.reanchorItem P s targetVk epoch current record draws = .ok updated := by
  obtain ⟨current, -, ran⟩ := bind_eq_ok.mp ran
  obtain ⟨back, forth⟩ := reanchorAll_eq_ok ran
  constructor
  · intro updated member
    obtain ⟨record, listed, draws, made⟩ := back updated member
    exact ⟨record, listed, current, draws, made⟩
  · intro record listed
    obtain ⟨updated, member, draws, made⟩ := forth record listed
    exact ⟨updated, member, current, draws, made⟩

/-- What a prepared rotation is made of: the stored record, the latest set and the new one. -/
structure Rotation.MadeFrom (P : Primitives) (vault : Vault) (s : Storage)
    (adminKeyset : UnlockedKeyset) (remaining : List Member) (grants : List Recipient)
    (draws : Draws) (cur : VaultRecord) (prev verified : VerifiedMembers) (rotation : Rotation) :
    Prop where
  found : s.getVault vault.vaultId = some cur
  latest : ∃ latest, s.latestMembershipEpoch vault.vaultId = some latest ∧
    verifyChainToEpoch P s vault.vaultId latest (vault.keyset.verifying P) = .ok prev ∧
    nextEpoch latest = .ok rotation.epoch
  aboveFloor : vault.requireAboveFloor s rotation.epoch = .ok ()
  built : buildManifest P adminKeyset vault.vaultId rotation.epoch remaining =
    .ok rotation.manifest
  verifies : verifyManifest P rotation.manifest vault.vaultId (some prev)
    (vault.keyset.verifying P) = .ok verified
  writes : verified.canWrite (vault.keyset.verifying P) = true
  record : ∃ nameBlob wrappedVk version,
    sealOwnerVk P vault.keyset (draws (grants.length + 1 + 1)) (draws 0) vault.vaultId
      rotation.epoch = .ok wrappedVk ∧
    buildVaultRecordEpoch P vault.keyset vault.vaultId nameBlob wrappedVk version false
      rotation.epoch cur.syncTarget cur.cachePolicy cur.syncTenant = .ok rotation.record
  items : vault.reanchorItems P s (draws 0) rotation.epoch
    (fun n => draws (n + grants.length + 2 + 1)) = .ok rotation.items

theorem prepareRotation_eq_ok {adminKeyset : UnlockedKeyset} {remaining : List Member}
    {grants : List Recipient} {rotation : Rotation}
    (prepared : vault.prepareRotation P s adminKeyset remaining grants draws = .ok rotation) :
    ∃ cur prev verified,
      rotation.MadeFrom P vault s adminKeyset remaining grants draws cur prev verified := by
  obtain ⟨cur, found, prepared⟩ := bind_eq_ok.mp prepared
  obtain ⟨latest, isLatest, prepared⟩ := bind_eq_ok.mp prepared
  obtain ⟨prev, chain, prepared⟩ := bind_eq_ok.mp prepared
  obtain ⟨_, -, prepared⟩ := bind_eq_ok.mp prepared
  obtain ⟨_, isNext, prepared⟩ := bind_eq_ok.mp prepared
  obtain ⟨_, above, prepared⟩ := bind_eq_ok.mp prepared
  obtain ⟨m, built, prepared⟩ := bind_eq_ok.mp prepared
  obtain ⟨verified, verifies, prepared⟩ := bind_eq_ok.mp prepared
  obtain ⟨_, writes, prepared⟩ := bind_eq_ok.mp prepared
  obtain ⟨_, -, prepared⟩ := bind_eq_ok.mp prepared
  obtain ⟨version, -, prepared⟩ := bind_eq_ok.mp prepared
  obtain ⟨nameBlob, -, prepared⟩ := bind_eq_ok.mp prepared
  obtain ⟨wrappedVk, sealed, prepared⟩ := bind_eq_ok.mp prepared
  obtain ⟨r, builtRecord, prepared⟩ := bind_eq_ok.mp prepared
  obtain ⟨items, reanchored, prepared⟩ := bind_eq_ok.mp prepared
  cases prepared
  exact ⟨cur, prev, verified,
    { found := okOr_eq_ok.mp found
      latest := ⟨latest, okOr_eq_ok.mp isLatest, chain, isNext⟩
      aboveFloor := above
      built
      verifies
      writes := require_eq_ok.mp writes
      record := ⟨nameBlob, wrappedVk, version, sealed, builtRecord⟩
      items := reanchored }⟩

end Operations

/-- A key and nonces. -/
def Sample.draws : Draws
  | 0 => replicate symmetricKeyLen 0
  | _ => replicate nonceLen 0

end UniSsh
