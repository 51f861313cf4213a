import UniSsh.Base.Interleaving
import UniSsh.Server.Database

/-!
# Requests

The handlers of `push`, `grantsPublish` and the claim of a vault; each query is a step of its own.
Decoding and sessions are outside, and requests on accounts and spaces are one arbitrary write of
their tables.
-/

namespace UniSsh.Server

/-- The authenticated caller. -/
structure AuthCtx where
  accountId : Bytes
  deviceEd25519 : Bytes
  deriving DecidableEq

structure Config where
  validateSignatures : Bool
  maxObjectsPerPush : Nat
  maxObjectBytes : Nat
  deriving DecidableEq

structure PushReq where
  auth : AuthCtx
  body : Bytes
  objects : List Bytes
  idempotencyKey : Option Bytes
  now : Int64
  deriving DecidableEq

structure PublishReq where
  auth : AuthCtx
  manifest : Bytes
  grants : List Bytes
  revokeEpoch : Option Int
  newEpoch : Option Int
  now : Int64
  deriving DecidableEq

structure ClaimReq where
  auth : AuthCtx
  vaultId : Bytes
  spaceId : Option Bytes
  now : Int64
  deriving DecidableEq

/-- The tables other requests write: who owns the instance, the accounts and the spaces. -/
structure Directory where
  instanceOwner : Option Bytes
  accounts : Table Bytes Bytes
  spaceMembers : List (Bytes × Bytes)

inductive Request where
  | push (req : PushReq)
  | publish (req : PublishReq)
  | claim (req : ClaimReq)
  | administer (directory : Directory)

/-- A handler; a request that stores objects returns the numbers they were stored under. -/
abbrev Handler := Program Db AppError

/-! ## Roles -/

def epochI64 : Option UInt64 → Except AppError (Option SqlInt)
  | none => .ok none
  | some e => some <$> toI64 e "key_epoch"

/-- The author's role in the manifest stored for an epoch, whose body must name that epoch. -/
def memberRole (epoch : SqlInt) (author : Bytes) (stored : Option ManifestRow) :
    Except AppError (Option MemberRole) :=
  match stored with
  | none => .ok none
  | some m => do
    let set ← parseMemberSet m.manifestBlob
    require (set.keyEpoch = epoch.toU64) (.malformed "manifest epoch mismatch")
    .ok (set.roleOf author)

/-- The owner is an implicit admin; of a vault that does not exist yet, anyone is. -/
def ownerRole (author : Bytes) : Option Bytes → Option MemberRole
  | some owner => if owner = author then some .admin else none
  | none => some .admin

/-- The author's role for a vault at exactly the epoch of a record. -/
def authorRole (vaultId : Bytes) (epoch : SqlInt) (author : Bytes) :
    Handler (Option MemberRole) := do
  let stored ← Program.query fun db => .ok db.manifests[(vaultId, epoch)]?
  let role ← Program.lift (memberRole epoch author stored)
  match role with
  | some role => pure (some role)
  | none => Program.query fun db => .ok (ownerRole author (db.getVaultOwner vaultId))

/-- The key of the instance's owner, once the instance is claimed. -/
def genesisKey : Handler (Option Bytes) := do
  let owner ← Program.query fun db => .ok db.instanceOwner
  match owner with
  | none => pure none
  | some accountId => Program.query fun db => .ok (db.accountEd accountId)

/-! ## Push -/

def checkRecordWriter (role : Option MemberRole) : Except AppError Unit :=
  match role with
  | some .editor | some .admin => .ok ()
  | some .viewer => .error (.forbidden "viewer cannot write objects")
  | none => .error (.forbidden "author is not a member of the vault at this epoch")

/-- Resolves the role of an object's author in the vault and epoch it names. -/
def roleOfAuthor (author : Bytes) (p : ParsedObject) : Handler (Option MemberRole) := do
  let vaultId ← Program.lift (okOr p.vaultId (.malformed "missing vault_id"))
  let epoch ← Program.lift (epochI64 p.keyEpoch)
  authorRole vaultId (epoch.getD ⟨0, SqlInt.zero_inRange⟩) (p.authorPubkey.getD author)

/-- Whether the author of an object may write it; with `aclOnly`, only membership objects are
checked. -/
def writeAcceptOne (authorEd25519 : Bytes) (genesis : Option Bytes) (aclOnly : Bool)
    (p : ParsedObject) : Handler Unit :=
  match p.tag with
  | some .vault | some .item =>
    if aclOnly then pure ()
    else do
      let role ← roleOfAuthor authorEd25519 p
      Program.lift (checkRecordWriter role)
  | some .membershipManifest | some .membershipGrant => do
    let role ← roleOfAuthor authorEd25519 p
    Program.lift (require (role = some .admin)
      (.forbidden "only admins can publish membership records"))
  | some .audit =>
    if aclOnly then pure ()
    else Program.lift (require (genesis.any fun g => g = p.authorPubkey.getD [])
      (.forbidden "audit author must be genesis owner"))
  | some .keyset => pure ()
  | some .accountState =>
    if aclOnly then pure ()
    else Program.lift (require (p.authorPubkey.getD [] = authorEd25519)
      (.forbidden "account state must be self-authored"))
  | none =>
    if aclOnly then pure ()
    else Program.lift (.error (.malformed "unknown object tag"))

def writeAccept (authorEd25519 : Bytes) (items : List PushObj) (aclOnly : Bool) :
    Handler Unit := do
  let genesis ← genesisKey
  items.forM fun it => writeAcceptOne authorEd25519 genesis aclOnly it.parsed

section Handlers

variable (P : Primitives) (config : Config)

/-- Parses one object of a push and checks what holds of every object. -/
def admitObject (auth : AuthCtx) (genesis : Option Bytes) (bytes : Bytes) :
    Except AppError PushObj := do
  require (bytes.length ≤ config.maxObjectBytes)
    (.payloadTooLarge "object exceeds max_object_bytes")
  let parsed ← parseOpen bytes
  require (¬(parsed.tag = some .vault ∧ parsed.syncTarget ≠ some 1))
    (.malformed "vault sync_target must be Cloud; Local objects never reach the server")
  require (¬(parsed.tag = some .audit ∧ genesis.any fun g => parsed.authorPubkey ≠ some g))
    (.forbidden "audit author must be instance owner")
  require (¬(parsed.tag = some .accountState ∧ parsed.authorPubkey ≠ some auth.deviceEd25519))
    (.forbidden "account state must be self-authored")
  .ok { bytes, parsed }

/-- Verifies the signature of a membership object, and of every object when configured. -/
def checkSignature (it : PushObj) : Except AppError Unit :=
  if it.parsed.tag = some .membershipManifest ∨ it.parsed.tag = some .membershipGrant ∨
      config.validateSignatures then
    verifyRecordSig P it.bytes
  else .ok ()

/-- The stored response of an earlier request with the same key. -/
def idemResult (record : IdempotencyRow) (requestHash : Bytes) : Except AppError (List Nat) :=
  if record.requestHash = requestHash then .ok record.response
  else .error (.conflict "idempotency key reused with a different request body")

/-- Stores the objects unless the idempotency key was used before. -/
def pushFresh (idem : Option Bytes) (requestHash : Bytes) (items : List PushObj) (now : Int64) :
    Handler (List Nat) := do
  let stored ← Program.commit (commitPush idem requestHash items now)
  match stored with
  | some seqs => pure seqs
  | none => Program.query fun db => do
    let record ← okOr (db.idempotencyKeys[idem.getD []]?)
      (.conflict "concurrent push with the same idempotency key")
    idemResult record requestHash

def pushObjects (idem : Option Bytes) (requestHash : Bytes) (items : List PushObj)
    (now : Int64) : Handler (List Nat) := do
  let record ← Program.query fun db => .ok (idem.bind fun key => db.idempotencyKeys[key]?)
  match record with
  | some record => Program.lift (idemResult record requestHash)
  | none => pushFresh idem requestHash items now

/-- `POST /v1/sync/push`. -/
def push (req : PushReq) : Handler (List Nat) := do
  Program.lift (require (req.objects.length ≤ config.maxObjectsPerPush)
    (.payloadTooLarge "too many objects per push"))
  let genesis ← genesisKey
  let items ← Program.lift (req.objects.mapM (admitObject config req.auth genesis))
  Program.lift (items.forM (checkSignature P config))
  writeAccept req.auth.deviceEd25519 items (!config.validateSignatures)
  Program.lift (require (req.idempotencyKey.all fun key => key.length ≤ 128)
    (.malformed "idempotency-key too long (max 128 bytes)"))
  pushObjects req.idempotencyKey (P.sha256 (req.auth.deviceEd25519 ++ req.body)) items req.now

/-! ## Publish -/

/-- Parses and verifies a grant of a publish. -/
def admitGrant (bytes : Bytes) : Except AppError PushObj := do
  let parsed ← parseOpen bytes
  require (parsed.tag = some .membershipGrant) (.malformed "grant object expected")
  verifyRecordSig P bytes
  .ok { bytes, parsed }

/-- Parses and verifies the manifest of a publish. -/
def admitManifest (bytes : Bytes) : Except AppError PushObj := do
  let parsed ← parseOpen bytes
  require (parsed.tag = some .membershipManifest) (.malformed "manifest object expected")
  verifyRecordSig P bytes
  .ok { bytes, parsed }

/-- The epoch a publish is for, which its manifest must carry. -/
def publishedEpoch (req : PublishReq) (manifest : ParsedObject) : Except AppError SqlInt := do
  let parsedEpoch ← epochI64 manifest.keyEpoch
  let number := parsedEpoch.map fun e => (e.toU64.toNat : Int)
  let newEpoch ← okOr (req.newEpoch.or number) (.malformed "missing new_epoch")
  let epoch ← okOr (parsedEpoch.filter fun e => (e.toU64.toNat : Int) = newEpoch)
    (.malformed "manifest key_epoch must equal new_epoch")
  require (req.revokeEpoch ≠ some newEpoch)
    (.conflict "revoke_epoch must differ from new_epoch")
  .ok epoch

/-- `POST /v1/grants/publish`. -/
def grantsPublish (req : PublishReq) : Handler (List Nat) := do
  let manifest ← Program.lift (admitManifest P req.manifest)
  let vaultId ← Program.lift
    (okOr manifest.parsed.vaultId (.malformed "manifest missing vault_id"))
  let epoch ← Program.lift (publishedEpoch req manifest.parsed)
  let canTouch ← Program.query fun db => .ok (db.canTouchVault req.auth.accountId vaultId)
  Program.lift (require canTouch
    (.forbidden "not authorized to publish grants for this vault"))
  let role ← authorRole vaultId epoch (manifest.parsed.authorPubkey.getD [])
  Program.lift (require (role = some .admin)
    (.forbidden "grant publisher must be a vault admin"))
  let grants ← Program.lift (req.grants.mapM (admitGrant P))
  Program.commit (transact (publishTx vaultId manifest grants req.revokeEpoch req.now))

/-! ## Claim -/

def claimedBy (device owner : Bytes) : Except AppError Bool :=
  if owner ≠ device then .error (.conflict "vault_id already claimed by a different owner")
  else .ok false

/-- `POST /v1/vaults/claim`: whether the vault was made. -/
def claim (req : ClaimReq) : Handler Bool := do
  Program.lift (require (req.vaultId ≠ []) (.malformed "empty vault_id"))
  let isMember ← Program.query fun db =>
    .ok (req.spaceId.all fun spaceId => (spaceId, req.auth.accountId) ∈ db.spaceMembers)
  Program.lift (require isMember (.forbidden "not a member of this space"))
  let existing ← Program.query fun db => .ok (db.getVaultOwner req.vaultId)
  match existing with
  | some owner => Program.lift (claimedBy req.auth.deviceEd25519 owner)
  | none => do
    Program.commit (transact (insertVault req.vaultId
      (claimedRow req.auth.accountId req.auth.deviceEd25519 req.spaceId req.now)))
    pure true

/-- Accounts and spaces change in any way between the requests that write objects. -/
def administer (directory : Directory) : Handler (List Nat) :=
  Program.commit fun db => .ok ([],
    { db with
      instanceOwner := directory.instanceOwner
      accounts := directory.accounts
      spaceMembers := directory.spaceMembers })

def serve : Request → Handler (List Nat)
  | .push req => push P config req
  | .publish req => grantsPublish P req
  | .claim req => do
    let _ ← claim req
    pure []
  | .administer directory => administer directory

end Handlers

end UniSsh.Server
