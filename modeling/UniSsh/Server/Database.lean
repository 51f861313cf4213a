import UniSsh.Server.Codec

/-!
# The server's database

The tables the sync and grant requests use, and the two transactions that append to the log and
materialize the derived tables. A transaction that fails writes nothing.
-/

namespace UniSsh.Server

/-- A vault; the owner is the author of the first record of it. -/
structure VaultRow where
  spaceId : Option Bytes
  ownerAccountId : Option Bytes
  ownerPubkey : Bytes
  latestVersion : SqlInt
  latestEpoch : SqlInt
  syncTarget : UInt8
  cachePolicy : UInt8
  tombstone : Bool
  createdAt : Int64
  deriving DecidableEq

/-- An object as it was received, with its open columns. -/
structure ObjectRow where
  objectTag : UInt8
  objectBytes : Bytes
  vaultId : Option Bytes
  itemId : Option Bytes
  memberPubkey : Option Bytes
  objVersion : Option SqlInt
  keyEpoch : Option SqlInt
  tombstone : Option Bool
  itemType : Option UInt32
  syncTarget : Option UInt8
  cachePolicy : Option UInt8
  role : Option UInt8
  authorPubkey : Option Bytes
  receivedAt : Int64
  deriving DecidableEq

structure ManifestRow where
  manifestBlob : Bytes
  signature : Bytes
  authorPubkey : Bytes
  serverSeq : Nat
  receivedAt : Int64
  deriving DecidableEq

structure GrantRow where
  role : UInt8
  wrappedVk : Bytes
  signature : Bytes
  authorPubkey : Bytes
  notAfter : Option Int64
  revoked : Bool
  serverSeq : Nat
  receivedAt : Int64
  deriving DecidableEq

structure IdempotencyRow where
  requestHash : Bytes
  response : List Nat

structure Db where
  nextSeq : Nat := 0
  instanceOwner : Option Bytes := none
  /-- Ed25519 keys of the accounts. -/
  accounts : Table Bytes Bytes := ∅
  /-- Pairs of a space and an account. -/
  spaceMembers : List (Bytes × Bytes) := []
  vaults : Table Bytes VaultRow := ∅
  objects : Table Nat ObjectRow := ∅
  manifests : Table (Bytes × SqlInt) ManifestRow := ∅
  grants : Table (Bytes × Bytes × SqlInt) GrantRow := ∅
  idempotencyKeys : Table Bytes IdempotencyRow := ∅

/-! ## Reads -/

namespace Db

def getVaultOwner (db : Db) (vaultId : Bytes) : Option Bytes :=
  db.vaults[vaultId]?.map VaultRow.ownerPubkey

def accountEd (db : Db) (accountId : Bytes) : Option Bytes :=
  db.accounts[accountId]?

/-- The account with this Ed25519 key. -/
def accountOf (db : Db) (ed25519Pub : Bytes) : Option Bytes :=
  (db.accounts.toList.find? fun entry => entry.2 = ed25519Pub).map Prod.fst

/-- Whether an account may touch a vault: a new one, its own, or one of its spaces. -/
def canTouchVault (db : Db) (accountId vaultId : Bytes) : Bool :=
  match db.vaults[vaultId]? with
  | none => true
  | some v =>
    match v.spaceId with
    | some spaceId => (spaceId, accountId) ∈ db.spaceMembers
    | none => v.ownerAccountId = some accountId ∨ db.accountEd accountId = some v.ownerPubkey

end Db

/-! ## Transactions -/

/-- A part of a transaction. -/
abbrev Tx := EStateM AppError Db

/-- Runs a transaction as a whole. -/
def transact {α : Type} (tx : Tx α) (db : Db) : Except AppError (α × Db) :=
  match tx.run db with
  | .ok a db' => .ok (a, db')
  | .error e _ => .error e

/-- An object with its open columns. -/
structure PushObj where
  bytes : Bytes
  parsed : ParsedObject
  deriving DecidableEq

def exceedsI64 (what : String) : AppError :=
  .malformed (what ++ " exceeds i64: out of range integral type conversion attempted")

def toI64 (v : UInt64) (what : String) : Except AppError SqlInt :=
  (checkedVersion v).mapError fun _ => exceedsI64 what

def optU64 : Option UInt64 → Except AppError (Option SqlInt)
  | none => .ok none
  | some v => some <$> toI64 v "integer"

def reqU64 (field : Option UInt64) (what : String) : Except AppError SqlInt :=
  match field with
  | none => .error (.malformed ("missing " ++ what))
  | some v => toI64 v what

/-- Takes `n` fresh numbers; the first one is one above the number returned. -/
def allocSeqs (n : Nat) : Tx Nat := do
  let db ← get
  set { db with nextSeq := db.nextSeq + n }
  pure db.nextSeq

variable (p : ParsedObject)

/-- The log row of an object. -/
def objectRow (bytes : Bytes) (now : Int64) : Except AppError ObjectRow := do
  let objVersion ← optU64 p.objVersion
  let keyEpoch ← optU64 p.keyEpoch
  .ok { objectTag := p.tagU8, objectBytes := bytes, vaultId := p.vaultId, itemId := p.itemId,
        memberPubkey := p.memberPubkey, objVersion, keyEpoch, tombstone := p.tombstone,
        itemType := p.itemType, syncTarget := p.syncTarget, cachePolicy := p.cachePolicy,
        role := p.role, authorPubkey := p.authorPubkey, receivedAt := now }

/-- Appends an object to the log. -/
def insertObject (seq : Nat) (p : ParsedObject) (bytes : Bytes) (now : Int64) : Tx Unit := do
  let row ← readM fun _ => objectRow p bytes now
  readM fun db => require (db.objects[seq]?.isNone)
    (.internal "db error: UNIQUE constraint failed: objects.server_seq")
  modify fun db => { db with objects := db.objects.insert seq row }

/-- The first record claims the vault, a later one has the same author, a newer one changes the
snapshot. -/
def vaultRowAfter (db : Db) (author : Bytes) (version epoch : SqlInt)
    (syncTarget cachePolicy : UInt8) (tombstone : Bool) (now : Int64) :
    Option VaultRow → Except AppError VaultRow
  | none =>
    .ok { spaceId := none, ownerAccountId := db.accountOf author, ownerPubkey := author,
          latestVersion := version, latestEpoch := epoch, syncTarget, cachePolicy, tombstone,
          createdAt := now }
  | some row =>
    if row.ownerPubkey ≠ author then
      .error (.conflict "vault_id owned by a different author (claim-rule)")
    else
      let newer := row.latestVersion.toU64 < version.toU64
      .ok { row with
            latestVersion := if newer then version else row.latestVersion
            latestEpoch := if row.latestEpoch.toU64 < epoch.toU64 then epoch else row.latestEpoch
            syncTarget := if newer then syncTarget else row.syncTarget
            cachePolicy := if newer then cachePolicy else row.cachePolicy
            tombstone := if newer then tombstone else row.tombstone }

def materializeVault (now : Int64) : Tx Unit := do
  let vaultId ← readM fun _ => okOr p.vaultId (.malformed "vault: missing vault_id")
  let author ← readM fun _ => okOr p.authorPubkey (.malformed "vault: missing author")
  let version ← readM fun _ => reqU64 p.objVersion "vault.version"
  let epoch ← readM fun _ => reqU64 p.keyEpoch "vault.key_epoch"
  let row ← readM fun db => vaultRowAfter db author version epoch (p.syncTarget.getD 1)
    (p.cachePolicy.getD 0) (p.tombstone.getD false) now db.vaults[vaultId]?
  modify fun db => { db with vaults := db.vaults.insert vaultId row }

/-- One manifest for each vault and epoch; the first one stays. -/
def materializeManifest (seq : Nat) (p : ParsedObject) (now : Int64) : Tx Unit := do
  let epoch ← readM fun _ => reqU64 p.keyEpoch "manifest.key_epoch"
  let vaultId := p.vaultId.getD []
  modify fun db =>
    { db with
      manifests := match db.manifests[(vaultId, epoch)]? with
        | some _ => db.manifests
        | none => db.manifests.insert (vaultId, epoch)
            { manifestBlob := p.manifestBlob.getD [], signature := p.signature.getD [],
              authorPubkey := p.authorPubkey.getD [], serverSeq := seq, receivedAt := now } }

/-- The key of the grant row an object is written to. -/
def grantKey (epoch : SqlInt) : Bytes × Bytes × SqlInt :=
  (p.vaultId.getD [], p.memberPubkey.getD [], epoch)

/-- The grant row of an object; a revoked row stays revoked. -/
def grantRow (seq : Nat) (p : ParsedObject) (now : Int64) (old : Option GrantRow) : GrantRow where
  role := p.role.getD 0
  wrappedVk := p.wrappedVk.getD []
  signature := p.signature.getD []
  authorPubkey := p.authorPubkey.getD []
  notAfter := p.notAfter.bind fun n => if 0 < n then some n else none
  revoked := (old.map GrantRow.revoked).getD false
  serverSeq := seq
  receivedAt := now

def materializeGrant (seq : Nat) (p : ParsedObject) (now : Int64) : Tx Unit := do
  let epoch ← readM fun _ => reqU64 p.keyEpoch "grant.key_epoch"
  modify fun db =>
    { db with
      grants := db.grants.insert (grantKey p epoch)
        (grantRow seq p now db.grants[grantKey p epoch]?) }

/-- Prunes the older states of an account from the log. -/
def compactAccountState : Tx Unit :=
  match p.objVersion, p.authorPubkey with
  | some version, some author => do
    let version ← readM fun _ => toI64 version "integer"
    modify fun db =>
      { db with
        objects := db.objects.filter fun _ row =>
          ¬(row.objectTag = 7 ∧ row.authorPubkey = some author ∧
            row.objVersion.any fun v => v.toU64 < version.toU64) }
  | _, _ => pure ()

/-- Writes the tables derived from an object. -/
def materialize (seq : Nat) (p : ParsedObject) (now : Int64) : Tx Unit :=
  match p.tag with
  | some .vault => materializeVault p now
  | some .membershipManifest => materializeManifest seq p now
  | some .membershipGrant => materializeGrant seq p now
  | some .accountState => compactAccountState p
  | _ => pure ()

def storeObject (seq : Nat) (obj : PushObj) (now : Int64) : Tx Unit := do
  insertObject seq obj.parsed obj.bytes now
  materialize seq obj.parsed now

/-- Stores objects under successive numbers. -/
def storeObjects (now : Int64) : (seq : Nat) → List PushObj → Tx (List Nat)
  | _, [] => pure []
  | seq, obj :: rest => do
    storeObject seq obj now
    let seqs ← storeObjects now (seq + 1) rest
    pure (seq :: seqs)

/-- Remembers the response under the idempotency key; `none` when the key is taken. -/
def rememberResponse (key requestHash : Bytes) (seqs : List Nat) : Tx (Option (List Nat)) := do
  let db ← get
  match db.idempotencyKeys[key]? with
  | some _ => pure none
  | none => do
    set { db with
      idempotencyKeys := db.idempotencyKeys.insert key { requestHash, response := seqs } }
    pure (some seqs)

/-- The writes of a push; `none` when another push took its idempotency key. -/
def pushTx (idem : Option Bytes) (requestHash : Bytes) (items : List PushObj) (now : Int64) :
    Tx (Option (List Nat)) := do
  let base ← allocSeqs items.length
  let seqs ← storeObjects now (base + 1) items
  match idem with
  | none => pure (some seqs)
  | some key => rememberResponse key requestHash seqs

/-- The transaction of a push, rolled back when its idempotency key was taken. -/
def commitPush (idem : Option Bytes) (requestHash : Bytes) (items : List PushObj) (now : Int64)
    (db : Db) : Except AppError (Option (List Nat) × Db) :=
  match transact (pushTx idem requestHash items now) db with
  | .ok (some seqs, db') => .ok (some seqs, db')
  | .ok (none, _) => .ok (none, db)
  | .error e => .error e

/-! ## Claiming -/

/-- The row an explicit claim makes: a vault of a space, or a personal one of the account. -/
def claimedRow (accountId ownerPubkey : Bytes) (spaceId : Option Bytes) (now : Int64) :
    VaultRow where
  spaceId := spaceId
  ownerAccountId := match spaceId with
    | some _ => none
    | none => some accountId
  ownerPubkey := ownerPubkey
  latestVersion := ⟨0, SqlInt.zero_inRange⟩
  latestEpoch := ⟨0, SqlInt.zero_inRange⟩
  syncTarget := 1
  cachePolicy := 0
  tombstone := false
  createdAt := now

def insertVault (vaultId : Bytes) (row : VaultRow) : Tx Unit := do
  readM fun db => require (db.vaults[vaultId]?.isNone)
    (.internal "db error: UNIQUE constraint failed: vaults.vault_id")
  modify fun db => { db with vaults := db.vaults.insert vaultId row }

/-! ## Publishing -/

/-- The last rows of the log that `chosen` picks, for each value of `group`. -/
def lastOf {κ : Type} [DecidableEq κ] (rows : List (Nat × ObjectRow)) (chosen : ObjectRow → Bool)
    (group : ObjectRow → κ) : List ObjectRow :=
  let picked := (rows.map Prod.snd).filter chosen
  picked.zipIdx.filterMap fun entry =>
    if (picked.drop (entry.2 + 1)).any fun later => group later = group entry.1 then none
    else some entry.1

/-- The vault's record, its manifests of earlier epochs and its live items, as the log has them. -/
def reemitted (db : Db) (vaultId : Bytes) (newEpoch : SqlInt) : List ObjectRow :=
  let rows := db.objects.toList.filter fun entry => entry.2.vaultId = some vaultId
  lastOf rows (fun row => row.objectTag = 1) (fun _ => ()) ++
    (lastOf rows (fun row => row.objectTag = 3) ObjectRow.keyEpoch).filter
      (fun row => row.keyEpoch.any fun e => e.toU64 < newEpoch.toU64) ++
    (lastOf rows (fun row => row.objectTag = 2) ObjectRow.itemId).filter
      (fun row => row.tombstone = some false)

/-- Stores stored objects again under successive numbers. -/
def storeAgain (now : Int64) : (seq : Nat) → List ObjectRow → Tx Unit
  | _, [] => pure ()
  | seq, row :: rest => do
    let parsed ← readM fun _ => parseOpen row.objectBytes
    storeObject seq { bytes := row.objectBytes, parsed } now
    storeAgain now (seq + 1) rest

def reemit (vaultId : Bytes) (newEpoch : SqlInt) (now : Int64) : Tx Unit := do
  let rows ← readM fun db => .ok (reemitted db vaultId newEpoch)
  let base ← allocSeqs rows.length
  storeAgain now (base + 1) rows

/-- Denies the grants of an epoch from now on. -/
def revokeGrants (vaultId : Bytes) (revokeEpoch : Option Int) : Tx Unit :=
  match revokeEpoch with
  | none => pure ()
  | some epoch =>
    modify fun db =>
      { db with
        grants := db.grants.updateWhere
          (fun k _ => k.1 = vaultId ∧ (k.2.2.toU64.toNat : Int) = epoch)
          fun row => { row with revoked := true } }

/-- The transaction of a publish: manifest, grants, the vault's state again, then the revocation. -/
def publishTx (vaultId : Bytes) (manifest : PushObj) (grants : List PushObj)
    (revokeEpoch : Option Int) (now : Int64) : Tx (List Nat) := do
  let base ← allocSeqs (1 + grants.length)
  let seqs ← storeObjects now (base + 1) (manifest :: grants)
  let newEpoch ← readM fun _ => toI64 (manifest.parsed.keyEpoch.getD 0) "manifest.key_epoch"
  reemit vaultId newEpoch now
  revokeGrants vaultId revokeEpoch
  pure seqs

end UniSsh.Server
