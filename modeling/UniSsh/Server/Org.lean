import UniSsh.Base.Process
import UniSsh.Server.Delta

/-!
# Accounts and spaces

The tables, the statements and transactions on them, and the handlers that issue them; a handler
may stop between two statements. Verifying registrations and tokens and drawing ids are outside.
-/

namespace UniSsh.Server

/-! ## Tables -/

inductive SpaceRole where
  | admin
  | member
  deriving DecidableEq

/-- Who made a membership: a person, or the mapping of the identity provider's groups. -/
inductive MemberSource where
  | manual
  | oidc
  deriving DecidableEq

structure SpaceMember where
  role : SpaceRole
  source : MemberSource

/-- The keys a registration attests. -/
@[ext] structure Registration where
  ed25519Pub : Bytes
  x25519Pub : Bytes
  deriving DecidableEq

structure AccountRow where
  keys : Registration
  isOwner : Bool
  active : Bool
  /-- Issuer and subject at the identity provider. -/
  external : Option (Bytes × Bytes)
  deriving DecidableEq

structure AccountDevice where
  accountId : Bytes
  keys : Registration

inductive ActionKind where
  | grant
  | revoke
  deriving DecidableEq

inductive ActionSource where
  | policy
  | invite
  | directory
  deriving DecidableEq

/-- Crypto work a vault's admin is to do for an account. -/
structure PendingAction where
  kind : ActionKind
  vaultId : Bytes
  accountId : Bytes
  cryptoRole : Option Nat
  source : ActionSource
  pending : Bool

structure Invite where
  spaceIntents : List (Bytes × SpaceRole)
  vaultIntents : List (Bytes × Nat)
  expiresAt : Int64
  redeemed : Bool

structure Org where
  /-- The vaults, their manifests and their grants. -/
  db : Db := {}
  claimOwner : Option Bytes := none
  accounts : Table Bytes AccountRow := ∅
  devices : Table Bytes AccountDevice := ∅
  /-- The account and the device of a session. -/
  sessions : Table Bytes (Bytes × Bytes) := ∅
  spaces : List Bytes := []
  /-- By space and account. -/
  members : Table (Bytes × Bytes) SpaceMember := ∅
  /-- The role of the vaults whose policy is space-wide. -/
  spaceWide : Table Bytes (Option Nat) := ∅
  invites : Table Bytes Invite := ∅
  usedTokens : List Bytes := []
  actions : List PendingAction := []

namespace Org

/-! ## Reads -/

variable (org : Org)

def memberRole (spaceId accountId : Bytes) : Option SpaceRole :=
  org.members[(spaceId, accountId)]?.map SpaceMember.role

def accountByEd (ed25519Pub : Bytes) : Option (Bytes × AccountRow) :=
  org.accounts.toList.find? fun entry => entry.2.keys.ed25519Pub = ed25519Pub

def accountByExternal (external : Bytes × Bytes) : Option (Bytes × AccountRow) :=
  org.accounts.toList.find? fun entry => entry.2.external = some external

def ownerCount : Nat :=
  org.accounts.toList.countP fun entry => entry.2.isOwner

def adminCount (spaceId : Bytes) : Nat :=
  org.members.toList.countP fun entry => entry.1.1 = spaceId ∧ entry.2.role = .admin

/-- The vaults with a grant to the key that is not revoked, at the epoch of the vault's record. -/
def liveVaults (ed25519Pub : Bytes) (spaceId : Option Bytes) : List Bytes :=
  (org.db.grants.toList.filter fun entry =>
    entry.1.2.1 = ed25519Pub ∧ entry.2.revoked = false ∧
      org.db.vaults[entry.1.1]?.any fun v =>
        v.latestEpoch = entry.1.2.2 ∧ spaceId.all fun space => v.spaceId = some space).map
    fun entry => entry.1.1

/-- The live space-wide vaults of a space, with their roles. -/
def spaceWideVaults (spaceId : Bytes) : List (Bytes × Option Nat) :=
  org.spaceWide.toList.filter fun entry =>
    org.db.vaults[entry.1]?.any fun v => v.spaceId = some spaceId ∧ v.tombstone = false

/-- Whether a grant action for the account and the vault waits. -/
def grantWaits (vaultId accountId : Bytes) : Bool :=
  org.actions.any fun action =>
    action.kind = .grant ∧ action.vaultId = vaultId ∧ action.accountId = accountId ∧ action.pending

/-- Whether the account's key holds a live grant of the vault at the latest epoch. -/
def holdsLive (vaultId accountId : Bytes) (now : Int64) : Bool :=
  match org.accounts[accountId]? with
  | some account => org.db.holdsGrant vaultId account.keys.ed25519Pub now
  | none => false

/-! ## Parts of transactions -/

def uniqueFailed : AppError := .internal "db error: UNIQUE constraint failed"

def foreignKeyFailed : AppError := .internal "db error: FOREIGN KEY constraint failed"

variable (spaceId accountId : Bytes)

/-- A new membership, of a space and an account that exist. -/
def insertMember (row : SpaceMember) : Except AppError Org := do
  require (spaceId ∈ org.spaces ∧ org.accounts[accountId]?.isSome) foreignKeyFailed
  .ok { org with members := org.members.insert (spaceId, accountId) row }

/-- Adds a membership by hand; one that exists stays as it is. -/
def addEdge (role : SpaceRole) : Except AppError Org :=
  match org.members[(spaceId, accountId)]? with
  | some _ => .ok org
  | none => org.insertMember spaceId accountId ⟨role, .manual⟩

/-- Adds or updates a membership of the identity provider; one made by hand stays as it is. -/
def upsertOidc (accountId spaceId : Bytes) (role : SpaceRole) : Except AppError Org :=
  match org.members[(spaceId, accountId)]? with
  | some ⟨_, .manual⟩ => .ok org
  | _ => org.insertMember spaceId accountId ⟨role, .oidc⟩

/-- Deletes a membership if it is of the identity provider. -/
def deleteOidc (accountId : Bytes) (org : Org) (spaceId : Bytes) : Org :=
  match org.members[(spaceId, accountId)]? with
  | some ⟨_, .oidc⟩ => { org with members := org.members.erase (spaceId, accountId) }
  | _ => org

def enqueue (action : PendingAction) : Org :=
  { org with actions := org.actions ++ [action] }

/-- The policy's action for a space-wide vault. -/
def policyAction (vault : Bytes × Option Nat) : PendingAction where
  kind := .grant
  vaultId := vault.1
  accountId := accountId
  cryptoRole := vault.2
  source := .policy
  pending := true

/-- Queues a grant of a space-wide vault, unless the account holds one or one waits. -/
def enqueueMissing (now : Int64) (accountId : Bytes) (org : Org) (vault : Bytes × Option Nat) : Org :=
  if org.holdsLive vault.1 accountId now then org
  else if org.grantWaits vault.1 accountId then org
  else org.enqueue (policyAction accountId vault)

def enqueueSpaceWideGrants (now : Int64) : Org :=
  (org.spaceWideVaults spaceId).foldl (enqueueMissing now accountId) org

/-- Queues a grant of every space-wide vault of a joined space. -/
def enqueuePolicyGrants (accountId : Bytes) (org : Org) (spaceId : Bytes) : Org :=
  (org.spaceWideVaults spaceId).foldl (fun org vault => org.enqueue (policyAction accountId vault)) org

/-- A new account; its id, its key and its external identity must be free. -/
def createAccount (keys : Registration) (isOwner : Bool)
    (external : Option (Bytes × Bytes)) : Except AppError Org := do
  require (org.accounts[accountId]?.isNone ∧ (org.accountByEd keys.ed25519Pub).isNone ∧
    external.all fun e => (org.accountByExternal e).isNone) uniqueFailed
  .ok { org with
    accounts := org.accounts.insert accountId { keys, isOwner, active := true, external } }

/-- A new device of an account; its id must be free. -/
def createDevice (accountId deviceId : Bytes) (keys : Registration) : Except AppError Org := do
  require (org.devices[deviceId]?.isNone) uniqueFailed
  require (org.accounts[accountId]?.isSome) foreignKeyFailed
  .ok { org with devices := org.devices.insert deviceId { accountId, keys } }

/-- A new session of an account on a device; its id must be free. -/
def createSession (sessionId accountId deviceId : Bytes) : Except AppError Org := do
  require (org.sessions[sessionId]?.isNone) uniqueFailed
  require (org.devices[deviceId]?.isSome) foreignKeyFailed
  .ok { org with sessions := org.sessions.insert sessionId (accountId, deviceId) }

/-- Redeems an invite that was not redeemed and is not expired. -/
def redeem (token : Bytes) (now : Int64) : Except AppError (Invite × Org) := do
  let invite ← okOr (org.invites[token]?.filter fun i => !i.redeemed ∧ now < i.expiresAt)
    (.gone "invite already redeemed or expired")
  .ok (invite, { org with invites := org.invites.insert token { invite with redeemed := true } })

/-- A new space with its first admin. -/
def createSpace (spaceId creator : Bytes) : Except AppError Org := do
  require (spaceId ∉ org.spaces) uniqueFailed
  { org with spaces := spaceId :: org.spaces }.addEdge spaceId creator .admin

def inviteAction (intent : Bytes × Nat) : PendingAction where
  kind := .grant
  vaultId := intent.1
  accountId := accountId
  cryptoRole := some intent.2
  source := .invite
  pending := true

/-! ## Transactions -/

/-- The account of an enrolment: a new one or an existing one, with a fresh device. -/
structure Enrolment where
  keys : Registration
  accountId : Bytes
  deviceId : Bytes
  isNew : Bool

/-- Writes the account if it is new. -/
def ensureAccount (e : Enrolment) (isOwner : Bool)
    (external : Option (Bytes × Bytes)) : Except AppError Org :=
  if e.isNew then org.createAccount e.accountId e.keys isOwner external else .ok org

/-- Writes the account, if it is new, and the device. -/
def enrol (e : Enrolment) (isOwner : Bool) (external : Option (Bytes × Bytes)) :
    Except AppError Org := do
  let org ← org.ensureAccount e isOwner external
  org.createDevice e.accountId e.deviceId e.keys

/-- The transaction of a join. -/
def joinTx (token : Bytes) (e : Enrolment) (now : Int64) : Except AppError Org := do
  let (invite, org) ← org.redeem token now
  let org ← org.enrol e false none
  let org ← invite.spaceIntents.foldlM
    (fun org intent => org.addEdge intent.1 e.accountId intent.2) org
  let org := (invite.vaultIntents.map (inviteAction e.accountId)).foldl enqueue org
  .ok ((invite.spaceIntents.map Prod.fst).foldl (enqueuePolicyGrants e.accountId) org)

/-- The spaces of the account's memberships of the identity provider. -/
def oidcSpaces : List Bytes :=
  (org.members.toList.filter fun entry =>
    entry.1.2 = accountId ∧ entry.2.source = .oidc).map fun entry => entry.1.1

def consumeToken (token : Bytes) : Except AppError Org := do
  require (token ∉ org.usedTokens) (.unauthenticated "id_token already used")
  .ok { org with usedTokens := token :: org.usedTokens }

/-- The transaction of an OIDC sign-in: the memberships of the identity provider become the
desired ones. -/
def oidcTx (token : Bytes) (external : Bytes × Bytes) (e : Enrolment)
    (desired : List (Bytes × SpaceRole)) : Except AppError Org := do
  let org ← org.consumeToken token
  let org ← org.enrol e false (some external)
  let org ← desired.foldlM (fun org d => org.upsertOidc e.accountId d.1 d.2) org
  .ok (((org.oidcSpaces e.accountId).filter fun spaceId => spaceId ∉ desired.map Prod.fst).foldl
    (deleteOidc e.accountId) org)

/-- The transaction that claims the instance: its owner's account and first space. -/
def claimTx (e : Enrolment) (spaceId : Bytes) : Except AppError Org := do
  require (org.claimOwner.isNone) (.conflict "instance already claimed")
  let org ← { org with claimOwner := some e.accountId }.enrol e true none
  org.createSpace spaceId e.accountId

/-- Adds a member, who gets the space-wide grants. -/
def addMemberTx (role : SpaceRole) (now : Int64) : Except AppError Org := do
  let org ← org.addEdge spaceId accountId role
  .ok (org.enqueueSpaceWideGrants spaceId accountId now)

def revokeAction (accountId vaultId : Bytes) : PendingAction where
  kind := .revoke
  vaultId := vaultId
  accountId := accountId
  cryptoRole := none
  source := .directory
  pending := true

/-- Deletes a membership. -/
def removeMember : Org :=
  { org with members := org.members.erase (spaceId, accountId) }

/-- Deletes an admin's membership while another admin is left. -/
def removeAdmin : Except AppError Org := do
  require (org.memberRole spaceId accountId = some .admin ∧ 1 < org.adminCount spaceId)
    (.forbidden "cannot remove the last admin of a space")
  .ok (org.removeMember spaceId accountId)

/-- The update of a role: no row without a membership, and none for the last admin's demotion. -/
def updatedRole (role : SpaceRole) : Option Org := do
  let row ← org.members[(spaceId, accountId)]?
  if role ≠ .admin ∧ row.role = .admin ∧ org.adminCount spaceId ≤ 1 then none
  else some { org with members := org.members.insert (spaceId, accountId) { row with role } }

/-- Changes a role; an update without a row is refused if it would demote an admin. -/
def setRoleTx (role : SpaceRole)
    (current : Option SpaceRole) (now : Int64) : Except AppError Org := do
  let changed := org.updatedRole spaceId accountId role
  require (¬ (role ≠ .admin ∧ changed.isNone ∧ current = some .admin))
    (.forbidden "cannot demote the last admin of a space")
  let org := changed.getD org
  .ok (if current.isSome then org.enqueueSpaceWideGrants spaceId accountId now else org)

def setStatus (active : Bool) : Org :=
  { org with
    accounts := org.accounts.updateWhere (fun k _ => k = accountId)
      fun row => { row with active := active } }

def setOwner (isOwner : Bool) : Org :=
  { org with
    accounts := org.accounts.updateWhere (fun k _ => k = accountId)
      fun row => { row with isOwner := isOwner } }

/-- Marks actions as done. -/
def markDone (which : PendingAction → Bool) : Org :=
  { org with actions := org.actions.map fun action =>
      if which action then { action with pending := false } else action }

/-- Whether the account has one of these keys. -/
def hasKeyOf (keys : List Bytes) (accountId : Bytes) : Bool :=
  org.accounts[accountId]?.any fun account => account.keys.ed25519Pub ∈ keys

/-- After a publish its grants are done, and after a rotation the revokes of all others. -/
def markPublished (vaultId : Bytes) (granted : List Bytes) (rotated : Bool) : Org :=
  org.markDone fun action =>
    action.pending ∧ action.vaultId = vaultId ∧
      ((action.kind = .grant ∧ org.hasKeyOf granted action.accountId) ∨
        (action.kind = .revoke ∧ rotated ∧ ¬ org.hasKeyOf granted action.accountId))

end Org

/-! ## Statements -/

inductive OrgStatement where
  | memberRole (spaceId accountId : Bytes)
  | accountById (accountId : Bytes)
  | accountByEd (ed25519Pub : Bytes)
  | accountByExternal (external : Bytes × Bytes)
  | deviceById (deviceId : Bytes)
  | claimOwner
  | ownerCount
  | vaultOwner (vaultId : Bytes)
  | liveVaults (ed25519Pub : Bytes) (spaceId : Option Bytes)
  | createSpace (spaceId creator : Bytes)
  | addMember (spaceId accountId : Bytes) (role : SpaceRole) (now : Int64)
  | removeAdmin (spaceId accountId : Bytes)
  | removeMember (spaceId accountId : Bytes)
  | setRole (spaceId accountId : Bytes) (role : SpaceRole) (current : Option SpaceRole) (now : Int64)
  | enqueueRevokes (vaults : List Bytes) (accountId : Bytes)
  | setStatus (accountId : Bytes) (active : Bool)
  | setOwner (accountId : Bytes) (isOwner : Bool)
  | claim (e : Org.Enrolment) (spaceId : Bytes)
  | createDevice (accountId deviceId : Bytes) (keys : Registration)
  | createSession (sessionId accountId deviceId : Bytes)
  | createInvite (token : Bytes) (invite : Invite)
  | join (token : Bytes) (e : Org.Enrolment) (now : Int64)
  | oidc (token : Bytes) (external : Bytes × Bytes) (e : Org.Enrolment)
      (desired : List (Bytes × SpaceRole))
  | claimVault (vaultId : Bytes) (row : VaultRow) (policy : Option (Option Nat))
  | store (idem : Option Bytes) (requestHash : Bytes) (items : List PushObj) (now : Int64)
  | publish (vaultId : Bytes) (manifest : PushObj) (grants : List PushObj)
      (revokeEpoch : Option Int) (now : Int64)
  | markPublished (vaultId : Bytes) (granted : List Bytes) (rotated : Bool)

namespace OrgStatement

/-- What a statement answers. -/
abbrev Res : OrgStatement → Type
  | memberRole .. => Option SpaceRole
  | accountById .. => Option AccountRow
  | accountByEd .. => Option (Bytes × AccountRow)
  | accountByExternal .. => Option (Bytes × AccountRow)
  | deviceById .. => Option AccountDevice
  | claimOwner => Option Bytes
  | ownerCount => Nat
  | vaultOwner .. => Option Bytes
  | liveVaults .. => List Bytes
  | _ => Except AppError Unit

/-- A transaction; one that fails is rolled back. -/
def orRollback (org : Org) : Except AppError Org → Except AppError Unit × Org
  | .ok org' => (.ok (), org')
  | .error e => (.error e, org)

/-- A transaction on the vaults' tables. -/
def onDb {α : Type} (org : Org) (after : Except AppError (α × Db)) : Except AppError Org :=
  after.map fun result => { org with db := result.2 }

/-- A new vault, with its policy when that is space-wide. -/
def claimVaultTx (org : Org) (vaultId : Bytes) (row : VaultRow) (policy : Option (Option Nat)) :
    Except AppError Org := do
  require (row.spaceId.all fun spaceId => spaceId ∈ org.spaces) Org.foreignKeyFailed
  let org ← onDb org (transact (insertVault vaultId row) org.db)
  match policy with
  | none => .ok org
  | some role => .ok { org with spaceWide := org.spaceWide.insert vaultId role }

/-- A new invite; its token must be free. -/
def createInviteTx (org : Org) (token : Bytes) (invite : Invite) : Except AppError Org := do
  require (org.invites[token]?.isNone) Org.uniqueFailed
  .ok { org with invites := org.invites.insert token invite }

def exec : (q : OrgStatement) → Org → q.Res × Org
  | memberRole spaceId accountId, org => (org.memberRole spaceId accountId, org)
  | accountById accountId, org => (org.accounts[accountId]?, org)
  | accountByEd ed25519Pub, org => (org.accountByEd ed25519Pub, org)
  | accountByExternal external, org => (org.accountByExternal external, org)
  | deviceById deviceId, org => (org.devices[deviceId]?, org)
  | claimOwner, org => (org.claimOwner, org)
  | ownerCount, org => (org.ownerCount, org)
  | vaultOwner vaultId, org => (org.db.getVaultOwner vaultId, org)
  | liveVaults ed25519Pub spaceId, org => (org.liveVaults ed25519Pub spaceId, org)
  | createSpace spaceId creator, org => orRollback org (org.createSpace spaceId creator)
  | addMember spaceId accountId role now, org =>
    orRollback org (org.addMemberTx spaceId accountId role now)
  | removeAdmin spaceId accountId, org => orRollback org (org.removeAdmin spaceId accountId)
  | removeMember spaceId accountId, org => (.ok (), org.removeMember spaceId accountId)
  | setRole spaceId accountId role current now, org =>
    orRollback org (org.setRoleTx spaceId accountId role current now)
  | enqueueRevokes vaults accountId, org =>
    (.ok (), (vaults.map (Org.revokeAction accountId)).foldl Org.enqueue org)
  | setStatus accountId active, org => (.ok (), org.setStatus accountId active)
  | setOwner accountId isOwner, org => (.ok (), org.setOwner accountId isOwner)
  | claim e spaceId, org => orRollback org (org.claimTx e spaceId)
  | createDevice accountId deviceId keys, org =>
    orRollback org (org.createDevice accountId deviceId keys)
  | createSession sessionId accountId deviceId, org =>
    orRollback org (org.createSession sessionId accountId deviceId)
  | createInvite token invite, org => orRollback org (createInviteTx org token invite)
  | join token e now, org => orRollback org (org.joinTx token e now)
  | oidc token external e desired, org => orRollback org (org.oidcTx token external e desired)
  | claimVault vaultId row policy, org => orRollback org (claimVaultTx org vaultId row policy)
  | store idem requestHash items now, org =>
    orRollback org (onDb org (commitPush idem requestHash items now org.db))
  | publish vaultId manifest grants revokeEpoch now, org =>
    orRollback org (onDb org
      (transact (publishTx vaultId manifest grants revokeEpoch now) org.db))
  | markPublished vaultId granted rotated, org =>
    (.ok (), org.markPublished vaultId granted rotated)

end OrgStatement

/-! ## Handlers -/

abbrev OrgHandler := Process.Fallible AppError OrgStatement OrgStatement.Res

namespace OrgHandler

abbrev ask (q : OrgStatement) : OrgHandler q.Res := Process.Fallible.ask q

abbrev check (condition : Bool) (failure : AppError) : OrgHandler Unit :=
  Process.Fallible.check condition failure

abbrev commit (result : OrgHandler (Except AppError Unit)) : OrgHandler Unit :=
  Process.Fallible.commit result

def requireSpaceAdmin (spaceId actor : Bytes) : OrgHandler Unit := do
  let role ← ask (.memberRole spaceId actor)
  check (role = some .admin) (.forbidden "space admin required")

def requireOwner (actor : Bytes) : OrgHandler Unit := do
  let account ← ask (.accountById actor)
  check (account.any AccountRow.isOwner) (.forbidden "owner role required")

/-- Only the instance's owner evicts the instance's owner from a space. -/
def guardInstanceOwnerEviction (target actor : Bytes) : OrgHandler Unit := do
  let owner ← ask .claimOwner
  check (¬ (owner = some target ∧ actor ≠ target))
    (.forbidden "cannot remove or demote the instance owner from a space")

def spacesCreate (actor spaceId : Bytes) : OrgHandler Unit := do
  requireOwner actor
  commit (ask (.createSpace spaceId actor))

def membersAdd (actor spaceId accountId : Bytes) (role : SpaceRole) (now : Int64) :
    OrgHandler Unit := do
  requireSpaceAdmin spaceId actor
  let account ← ask (.accountById accountId)
  check account.isSome (.notFound "account")
  let present ← ask (.memberRole spaceId accountId)
  check present.isNone (.conflict
    "account is already a member of this space; use the role endpoint to change its role")
  commit (ask (.addMember spaceId accountId role now))

/-- Queues a revoke for every vault the account can still decrypt. -/
def revokeLive (accountId : Bytes) (spaceId : Option Bytes) : OrgHandler Unit := do
  match ← ask (.accountById accountId) with
  | none => pure ()
  | some account =>
    match ← ask (.liveVaults account.keys.ed25519Pub spaceId) with
    | [] => pure ()
    | vaults => commit (ask (.enqueueRevokes vaults accountId))

def membersRemove (actor spaceId accountId : Bytes) : OrgHandler Unit := do
  requireSpaceAdmin spaceId actor
  guardInstanceOwnerEviction accountId actor
  match ← ask (.memberRole spaceId accountId) with
  | some .admin => commit (ask (.removeAdmin spaceId accountId))
  | _ => commit (ask (.removeMember spaceId accountId))
  revokeLive accountId (some spaceId)

def membersSetRole (actor spaceId accountId : Bytes) (role : SpaceRole) (now : Int64) :
    OrgHandler Unit := do
  requireSpaceAdmin spaceId actor
  let current ← ask (.memberRole spaceId accountId)
  if role = .admin then pure () else guardInstanceOwnerEviction accountId actor
  commit (ask (.setRole spaceId accountId role current now))

/-- Neither the claim owner nor the last owner may lose what makes them one. -/
def guardLockout (target : Bytes) (account : AccountRow) (ofClaim ofLast : String) :
    OrgHandler Unit := do
  let owner ← ask .claimOwner
  check (owner ≠ some target) (.forbidden ofClaim)
  if account.isOwner then do
    let owners ← ask .ownerCount
    check (1 < owners) (.forbidden ofLast)
  else pure ()

def existingAccount (accountId : Bytes) : OrgHandler AccountRow := do
  match ← ask (.accountById accountId) with
  | some account => pure account
  | none => throw (.notFound "account")

def accountStatus (actor target : Bytes) (disabled : Bool) : OrgHandler Unit := do
  requireOwner actor
  let account ← existingAccount target
  if disabled then do
    guardLockout target account "cannot disable the claim owner" "cannot disable the last owner"
    commit (ask (.setStatus target false))
    revokeLive target none
  else commit (ask (.setStatus target true))

def ownerSet (actor target : Bytes) (isOwner : Bool) : OrgHandler Unit := do
  requireOwner actor
  let account ← existingAccount target
  if isOwner then pure ()
  else guardLockout target account "cannot demote the claim owner" "cannot remove the last owner"
  commit (ask (.setOwner target isOwner))

/-- The setup code was verified. -/
def claim (keys : Registration) (accountId deviceId spaceId : Bytes) : OrgHandler Unit := do
  let owner ← ask .claimOwner
  check owner.isNone (.conflict "instance already claimed")
  commit (ask (.claim { keys, accountId, deviceId, isNew := true } spaceId))

def deviceAdd (actor deviceId : Bytes) : OrgHandler Unit := do
  let account ← existingAccount actor
  commit (ask (.createDevice actor deviceId account.keys))

def deviceSelfEnroll (keys : Registration) (deviceId : Bytes) : OrgHandler Unit := do
  match ← ask (.accountByEd keys.ed25519Pub) with
  | none => throw (.notFound "account")
  | some (accountId, account) => do
    check account.active (.forbidden "account is not active")
    check (account.keys.x25519Pub = keys.x25519Pub) (.malformed "registration key mismatch")
    commit (ask (.createDevice accountId deviceId keys))

/-- The challenge was answered with the device's key. -/
def authVerify (deviceId sessionId : Bytes) : OrgHandler Unit := do
  match ← ask (.deviceById deviceId) with
  | none => throw (.unauthenticated "unknown device")
  | some device => commit (ask (.createSession sessionId device.accountId deviceId))

/-- The account an enrolment is for: an active one that exists, or a new one. -/
def resolveEnrolment (existing : Option (Bytes × AccountRow)) (keys : Registration)
    (freshAccount deviceId : Bytes) : OrgHandler Org.Enrolment :=
  match existing with
  | some (accountId, account) => do
    check account.active (.forbidden "account is not active")
    pure { keys, accountId, deviceId, isNew := false }
  | none => pure { keys, accountId := freshAccount, deviceId, isNew := true }

def join (keys : Registration) (token freshAccount deviceId : Bytes) (now : Int64) :
    OrgHandler Unit := do
  let existing ← ask (.accountByEd keys.ed25519Pub)
  let e ← resolveEnrolment existing keys freshAccount deviceId
  commit (ask (.join token e now))

/-- A group of the identity provider that gives a role in a space. -/
structure GroupMapping where
  group : Bytes
  spaceId : Bytes
  role : SpaceRole

/-- The spaces and roles the groups are mapped to; the first mapping of a space wins. -/
def desiredSpaces (groupMap : List GroupMapping) (groups : List Bytes) : List (Bytes × SpaceRole) :=
  groupMap.foldl (fun desired m =>
    if m.group ∈ groups ∧ m.spaceId ∉ desired.map Prod.fst then desired ++ [(m.spaceId, m.role)]
    else desired) []

/-- The id token was verified, and its nonce binds the keys. -/
def oidcCallback (groupMap : List GroupMapping) (keys : Registration) (token : Bytes)
    (external : Bytes × Bytes) (groups : List Bytes) (freshAccount deviceId sessionId : Bytes) :
    OrgHandler Unit := do
  let existing ← ask (.accountByExternal external)
  let e ← resolveEnrolment existing keys freshAccount deviceId
  if e.isNew then do
    let taken ← ask (.accountByEd keys.ed25519Pub)
    check taken.isNone (.conflict "identity already registered without SSO")
  else pure ()
  commit (ask (.oidc token external e (desiredSpaces groupMap groups)))
  commit (ask (.createSession sessionId e.accountId deviceId))

/-- The caller was checked to be a member of the space. -/
def claimVault (device vaultId : Bytes) (row : VaultRow) (policy : Option (Option Nat)) :
    OrgHandler Unit := do
  match ← ask (.vaultOwner vaultId) with
  | some owner => check (owner = device) (.conflict "vault_id already claimed by a different owner")
  | none => commit (ask (.claimVault vaultId row policy))

/-- A publish whose objects were verified: the transaction, then the marks. -/
def grantsPublish (vaultId : Bytes) (manifest : PushObj) (grants : List PushObj)
    (revokeEpoch : Option Int) (now : Int64) : OrgHandler Unit := do
  commit (ask (.publish vaultId manifest grants revokeEpoch now))
  commit (ask (.markPublished vaultId (grants.filterMap fun g => g.parsed.memberPubkey)
    revokeEpoch.isSome))

end OrgHandler

/-- The requests; each comes with the account of its session, and with fresh ids. -/
inductive OrgRequest where
  | spacesCreate (actor spaceId : Bytes)
  | membersAdd (actor spaceId accountId : Bytes) (role : SpaceRole) (now : Int64)
  | membersRemove (actor spaceId accountId : Bytes)
  | membersSetRole (actor spaceId accountId : Bytes) (role : SpaceRole) (now : Int64)
  | accountStatus (actor target : Bytes) (disabled : Bool)
  | ownerSet (actor target : Bytes) (isOwner : Bool)
  | claim (keys : Registration) (accountId deviceId spaceId : Bytes)
  | deviceAdd (actor deviceId : Bytes)
  | deviceSelfEnroll (keys : Registration) (deviceId : Bytes)
  | authVerify (deviceId sessionId : Bytes)
  | inviteCreate (token : Bytes) (invite : Invite)
  | join (keys : Registration) (token freshAccount deviceId : Bytes) (now : Int64)
  | oidcCallback (groupMap : List OrgHandler.GroupMapping) (keys : Registration) (token : Bytes)
      (external : Bytes × Bytes) (groups : List Bytes) (freshAccount deviceId sessionId : Bytes)
  | claimVault (device vaultId : Bytes) (row : VaultRow) (policy : Option (Option Nat))
  | push (idem : Option Bytes) (requestHash : Bytes) (items : List PushObj) (now : Int64)
  | grantsPublish (vaultId : Bytes) (manifest : PushObj) (grants : List PushObj)
      (revokeEpoch : Option Int) (now : Int64)

/-- The writers of objects and invites come after their checks, for arbitrary rows. -/
def OrgRequest.handler : OrgRequest → OrgHandler Unit
  | spacesCreate actor spaceId => OrgHandler.spacesCreate actor spaceId
  | membersAdd actor spaceId accountId role now =>
    OrgHandler.membersAdd actor spaceId accountId role now
  | membersRemove actor spaceId accountId => OrgHandler.membersRemove actor spaceId accountId
  | membersSetRole actor spaceId accountId role now =>
    OrgHandler.membersSetRole actor spaceId accountId role now
  | accountStatus actor target disabled => OrgHandler.accountStatus actor target disabled
  | ownerSet actor target isOwner => OrgHandler.ownerSet actor target isOwner
  | claim keys accountId deviceId spaceId => OrgHandler.claim keys accountId deviceId spaceId
  | deviceAdd actor deviceId => OrgHandler.deviceAdd actor deviceId
  | deviceSelfEnroll keys deviceId => OrgHandler.deviceSelfEnroll keys deviceId
  | authVerify deviceId sessionId => OrgHandler.authVerify deviceId sessionId
  | inviteCreate token invite => OrgHandler.commit (OrgHandler.ask (.createInvite token invite))
  | join keys token freshAccount deviceId now =>
    OrgHandler.join keys token freshAccount deviceId now
  | oidcCallback groupMap keys token external groups freshAccount deviceId sessionId =>
    OrgHandler.oidcCallback groupMap keys token external groups freshAccount deviceId sessionId
  | claimVault device vaultId row policy => OrgHandler.claimVault device vaultId row policy
  | push idem requestHash items now =>
    OrgHandler.commit (OrgHandler.ask (.store idem requestHash items now))
  | grantsPublish vaultId manifest grants revokeEpoch now =>
    OrgHandler.grantsPublish vaultId manifest grants revokeEpoch now

/-- A request as a process. -/
def OrgRequest.process (request : OrgRequest) :
    Process OrgStatement OrgStatement.Res (Except AppError Unit) :=
  request.handler.run

/-- The tables after a request that runs alone. -/
def Org.served (org : Org) (request : OrgRequest) : Org :=
  (request.process.runAlone OrgStatement.exec org).2

/-- The states that interleaved requests reach, and the requests still running. -/
abbrev Org.Reaches (allowed : Org → OrgStatement → Prop) (init org : Org)
    (running : List (Process OrgStatement OrgStatement.Res (Except AppError Unit))) : Prop :=
  Process.Reaches OrgStatement.exec OrgRequest.process allowed init org running

end UniSsh.Server
