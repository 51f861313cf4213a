import UniSsh.Base.Process
import UniSsh.Server.Codec

/-!
# Sessions

Sign-in by a signed challenge, rotation of tokens, and the requests that end sessions. A token
stands for its hash. The state also records what the server does not keep: consumed nonces'
sessions, tokens handed out and exchanged, devices swept or deleted, and refreshes that slipped
through.
-/

namespace UniSsh.Server

inductive DeviceStatus where
  | active
  | pending
  | revoked
  deriving DecidableEq

structure DeviceRow where
  accountId : Bytes
  status : DeviceStatus
  expiresAt : Option Int

structure SessionRow where
  accountId : Bytes
  deviceId : Bytes
  access : Bytes
  refresh : Bytes
  accessExpires : Int
  refreshExpires : Int
  /-- The deadline of a session of the identity provider. -/
  reassertExpires : Option Int
  revoked : Bool
  nonce : Bytes

structure NonceRow where
  deviceId : Bytes
  expiresAt : Int
  /-- The session of the sign-in that consumed it. -/
  consumed : Option Bytes

structure AuthAccount where
  active : Bool
  isOwner : Bool

structure Auth where
  clock : Int := 0
  accounts : Table Bytes AuthAccount := ∅
  devices : Table Bytes DeviceRow := ∅
  sessions : Table Bytes SessionRow := ∅
  nonces : Table Bytes NonceRow := ∅
  /-- The tokens handed out. -/
  used : List Bytes := []
  /-- The refresh tokens exchanged. -/
  exchanged : List Bytes := []
  /-- The devices whose sessions were revoked. -/
  swept : List Bytes := []
  /-- The pending devices deleted. -/
  deleted : List Bytes := []
  /-- The sessions a logout or a revoking refresh returned for. -/
  ended : List Bytes := []
  /-- The devices a revoke returned for. -/
  barred : List Bytes := []
  /-- The sessions refreshed while shut out. -/
  late : List Bytes := []

/-- Whether a device's time has run out. -/
def DeviceRow.expired (row : DeviceRow) (now : Int) : Bool :=
  row.expiresAt.any fun expiry => expiry ≤ now

namespace Auth

variable (auth : Auth)

def accountIsActive (accountId : Bytes) : Bool :=
  auth.accounts[accountId]?.any AuthAccount.active

/-- Whether the session is ended, its device barred or its account disabled. -/
def shutOut (sessionId : Bytes) (row : SessionRow) : Bool :=
  sessionId ∈ auth.ended ∨ row.deviceId ∈ auth.barred ∨ auth.accountIsActive row.accountId = false

/-- Whether an access token is accepted for a session. -/
def acceptsAccess (sessionId token : Bytes) : Bool :=
  auth.sessions[sessionId]?.any fun row =>
    row.access = token ∧ row.revoked = false ∧ auth.clock < row.accessExpires ∧
      (auth.devices[row.deviceId]?.any fun device =>
        device.status = .active ∧ device.expired auth.clock = false) ∧
      auth.accountIsActive row.accountId

/-- Whether a refresh token is accepted for a session. -/
def acceptsRefresh (sessionId token : Bytes) : Bool :=
  auth.sessions[sessionId]?.any fun row =>
    row.refresh = token ∧ row.revoked = false ∧ auth.clock < row.refreshExpires ∧
      auth.accountIsActive row.accountId ∧
      (auth.devices[row.deviceId]?.any fun device => device.expired auth.clock = false) ∧
      row.reassertExpires.all fun deadline => auth.clock ≤ deadline

/-! ## Writes -/

def insertNonce (nonce deviceId : Bytes) (expiresAt : Int) : Bool × Auth :=
  match auth.nonces[nonce]? with
  | some _ => (false, auth)
  | none => (true, { auth with
      nonces := auth.nonces.insert nonce { deviceId, expiresAt, consumed := none } })

/-- Marks the nonce consumed if it was not, is not expired and was issued to the device. -/
def consumeNonce (nonce deviceId : Bytes) (now : Int) (sessionId : Bytes) : Bool × Auth :=
  match auth.nonces[nonce]? with
  | none => (false, auth)
  | some row =>
    if row.deviceId = deviceId ∧ row.consumed = none ∧ now < row.expiresAt then
      (true, { auth with
        nonces := auth.nonces.insert nonce { row with consumed := some sessionId } })
    else (false, auth)

/-- Makes a pending device active; true as well when it is. -/
def activatePendingDevice (deviceId : Bytes) (now : Int) : Bool × Auth :=
  match auth.devices[deviceId]? with
  | none => (false, auth)
  | some row =>
    if row.status = .active ∨ row.status = .pending ∧ row.expiresAt.any (now < ·) then
      (true, { auth with
        devices := auth.devices.insert deviceId { row with status := .active, expiresAt := none } })
    else (false, auth)

def createPendingDevice (deviceId accountId : Bytes) (expiresAt : Int) : Bool × Auth :=
  match auth.devices[deviceId]?, auth.accounts[accountId]? with
  | none, some _ => (true, { auth with
      devices := auth.devices.insert deviceId
        { accountId, status := .pending, expiresAt := some expiresAt } })
  | _, _ => (false, auth)

def createSession (sessionId : Bytes) (row : SessionRow) : Bool × Auth :=
  match auth.sessions[sessionId]?, auth.devices[row.deviceId]? with
  | none, some _ => (true, { auth with
      sessions := auth.sessions.insert sessionId { row with revoked := false }
      used := row.access :: row.refresh :: auth.used })
  | _, _ => (false, auth)

/-- Replaces the tokens of a session that is not revoked and has the expected refresh token. -/
def rotateSession (sessionId expected access refresh : Bytes)
    (accessExpires refreshExpires : Int) : Bool × Auth :=
  match auth.sessions[sessionId]? with
  | none => (false, auth)
  | some row =>
    if row.refresh = expected ∧ row.revoked = false then
      (true, { auth with
        sessions := auth.sessions.insert sessionId
          { row with access, refresh, accessExpires, refreshExpires }
        used := access :: refresh :: auth.used
        exchanged := expected :: auth.exchanged
        late := if auth.shutOut sessionId row then sessionId :: auth.late else auth.late })
    else (false, auth)

def revokeSession (sessionId : Bytes) : Auth :=
  { auth with
    sessions := auth.sessions.updateWhere (fun k _ => k = sessionId)
      fun row => { row with revoked := true } }

/-- The first statement of a device's revocation: a pending device is deleted. -/
def deletePending (deviceId : Bytes) : Auth :=
  match auth.devices[deviceId]? with
  | some ⟨_, .pending, _⟩ => { auth with
      devices := auth.devices.erase deviceId
      deleted := deviceId :: auth.deleted }
  | _ => auth

/-- The earlier of a device's expiry and the moment it is revoked. -/
def revokedExpiry (expiresAt : Option Int) (now : Int) : Int :=
  match expiresAt with
  | none => now
  | some expiry => if now < expiry then now else expiry

/-- The second statement of a device's revocation. -/
def markRevoked (deviceId : Bytes) (now : Int) : Auth :=
  { auth with
    devices := auth.devices.updateWhere (fun k _ => k = deviceId) fun row =>
      { row with status := .revoked, expiresAt := some (revokedExpiry row.expiresAt now) } }

def revokeDeviceSessions (deviceId : Bytes) : Auth :=
  { auth with
    sessions := auth.sessions.updateWhere (fun _ row => row.deviceId = deviceId)
      fun row => { row with revoked := true }
    swept := deviceId :: auth.swept }

def setAccountStatus (accountId : Bytes) (active : Bool) : Auth :=
  { auth with
    accounts := auth.accounts.updateWhere (fun k _ => k = accountId)
      fun row => { row with active := active } }

end Auth

/-! ## Statements -/

inductive AuthStatement where
  | now
  | getDevice (deviceId : Bytes)
  | accountIsActive (accountId : Bytes)
  | accountIsOwner (accountId : Bytes)
  | findSession (sessionId : Bytes)
  | findByAccess (token : Bytes)
  | insertNonce (nonce deviceId : Bytes) (expiresAt : Int)
  | consumeNonce (nonce deviceId : Bytes) (now : Int) (sessionId : Bytes)
  | activatePendingDevice (deviceId : Bytes) (now : Int)
  | createPendingDevice (deviceId accountId : Bytes) (expiresAt : Int)
  | createSession (sessionId : Bytes) (row : SessionRow)
  | rotateSession (sessionId expected access refresh : Bytes) (accessExpires refreshExpires : Int)
  | revokeSession (sessionId : Bytes)
  | deletePending (deviceId : Bytes)
  | markRevoked (deviceId : Bytes) (now : Int)
  | revokeDeviceSessions (deviceId : Bytes)
  | setAccountStatus (accountId : Bytes) (active : Bool)
  | returnedForSession (sessionId : Bytes)
  | returnedForDevice (deviceId : Bytes)
  | tick (elapsed : Nat)

namespace AuthStatement

abbrev Res : AuthStatement → Type
  | now => Int
  | getDevice .. => Option DeviceRow
  | accountIsActive .. => Bool
  | accountIsOwner .. => Bool
  | findSession .. => Option SessionRow
  | findByAccess .. => Option (Bytes × SessionRow)
  | insertNonce .. => Bool
  | consumeNonce .. => Bool
  | activatePendingDevice .. => Bool
  | createPendingDevice .. => Bool
  | createSession .. => Bool
  | rotateSession .. => Bool
  | _ => Unit

def exec : (q : AuthStatement) → Auth → q.Res × Auth
  | now, auth => (auth.clock, auth)
  | getDevice deviceId, auth => (auth.devices[deviceId]?, auth)
  | accountIsActive accountId, auth => (auth.accountIsActive accountId, auth)
  | accountIsOwner accountId, auth => (auth.accounts[accountId]?.any AuthAccount.isOwner, auth)
  | findSession sessionId, auth => (auth.sessions[sessionId]?, auth)
  | findByAccess token, auth => (auth.sessions.toList.find? fun entry => entry.2.access = token, auth)
  | insertNonce nonce deviceId expiresAt, auth => auth.insertNonce nonce deviceId expiresAt
  | consumeNonce nonce deviceId time sessionId, auth =>
    auth.consumeNonce nonce deviceId time sessionId
  | activatePendingDevice deviceId time, auth => auth.activatePendingDevice deviceId time
  | createPendingDevice deviceId accountId expiresAt, auth =>
    auth.createPendingDevice deviceId accountId expiresAt
  | createSession sessionId row, auth => auth.createSession sessionId row
  | rotateSession sessionId expected access refresh accessExpires refreshExpires, auth =>
    auth.rotateSession sessionId expected access refresh accessExpires refreshExpires
  | revokeSession sessionId, auth => ((), auth.revokeSession sessionId)
  | deletePending deviceId, auth => ((), auth.deletePending deviceId)
  | markRevoked deviceId time, auth => ((), auth.markRevoked deviceId time)
  | revokeDeviceSessions deviceId, auth => ((), auth.revokeDeviceSessions deviceId)
  | setAccountStatus accountId active, auth => ((), auth.setAccountStatus accountId active)
  | returnedForSession sessionId, auth => ((), { auth with ended := sessionId :: auth.ended })
  | returnedForDevice deviceId, auth => ((), { auth with barred := deviceId :: auth.barred })
  | tick elapsed, auth => ((), { auth with clock := auth.clock + elapsed })

end AuthStatement

/-! ## Handlers -/

abbrev AuthHandler := Process.Fallible AppError AuthStatement AuthStatement.Res

structure SessionConfig where
  accessTtl : Nat
  refreshTtl : Nat
  nonceTtl : Nat
  pendingTtl : Nat

namespace AuthHandler

abbrev ask (q : AuthStatement) : AuthHandler q.Res := Process.Fallible.ask q

/-- Refuses the credentials unless the condition holds. -/
abbrev check (condition : Bool) (message : String) : AuthHandler Unit :=
  Process.Fallible.check condition (AppError.unauthenticated message)

abbrev refuse {α : Type} (message : String) : AuthHandler α :=
  throw (AppError.unauthenticated message)

/-- The session of an access token, if it is accepted. -/
def resolveBearer (token : Bytes) : AuthHandler (Bytes × SessionRow) := do
  match ← ask (.findByAccess token) with
  | none => refuse "invalid access token"
  | some (sessionId, session) => do
    check (!session.revoked) "session revoked"
    let now ← ask .now
    check (now < session.accessExpires) "access token expired"
    match ← ask (.getDevice session.deviceId) with
    | none => refuse "device not found"
    | some device => do
      check (device.status = .active) "device not active"
      let now ← ask .now
      check (!device.expired now) "device expired"
      let active ← ask (.accountIsActive session.accountId)
      check active "account disabled"
      pure (sessionId, session)

variable (config : SessionConfig)

def authChallenge (deviceId nonce : Bytes) : AuthHandler Unit := do
  match ← ask (.getDevice deviceId) with
  | none => throw (AppError.notFound "device")
  | some _ => do
    let now ← ask .now
    let stored ← ask (.insertNonce nonce deviceId (now + config.nonceTtl))
    Process.Fallible.check stored (AppError.internal "db error")

/-- A new session with fresh tokens. -/
def mintSession (accountId deviceId nonce sessionId access refresh : Bytes) : AuthHandler Unit := do
  let now ← ask .now
  let stored ← ask (.createSession sessionId
    { accountId, deviceId, access, refresh, nonce
      accessExpires := now + config.accessTtl
      refreshExpires := now + config.refreshTtl
      reassertExpires := none
      revoked := false })
  Process.Fallible.check stored (AppError.internal "db error")

/-- The challenge is this instance's and was signed with the device's key. -/
def authVerify (accountId deviceId nonce : Bytes) (expiry : Int)
    (sessionId access refresh : Bytes) : AuthHandler Unit := do
  let now ← ask .now
  check (now < expiry) "challenge expired"
  match ← ask (.getDevice deviceId) with
  | none => refuse "device not found"
  | some device => do
    check (device.status ≠ .revoked) "device not active"
    check (!device.expired now) "device expired"
    check (device.accountId = accountId) "device/account mismatch"
    let active ← ask (.accountIsActive accountId)
    check active "account disabled"
    let fresh ← ask (.consumeNonce nonce deviceId now sessionId)
    check fresh "nonce already used, expired, or not issued for this device"
    if device.status = .pending then do
      let activated ← ask (.activatePendingDevice deviceId now)
      check activated "device expired"
      mintSession config accountId deviceId nonce sessionId access refresh
    else mintSession config accountId deviceId nonce sessionId access refresh

/-- A refresh token names its session. -/
def sessionRefresh (sessionId token access refresh : Bytes) : AuthHandler Unit := do
  match ← ask (.findSession sessionId) with
  | none => refuse "invalid refresh token"
  | some session => do
    check (!session.revoked) "invalid refresh token"
    let now ← ask .now
    if session.refresh = token then do
      check (now < session.refreshExpires) "refresh token expired or revoked"
      let active ← ask (.accountIsActive session.accountId)
      check active "account is not active"
      match ← ask (.getDevice session.deviceId) with
      | none => refuse "device not found"
      | some device => do
        check (!device.expired now) "device expired"
        check (session.reassertExpires.all fun deadline => now ≤ deadline)
          "oidc reassertion required"
        let rotated ← ask (.rotateSession sessionId token access refresh
          (now + config.accessTtl) (now + config.refreshTtl))
        check rotated "refresh token already used (concurrent or replayed refresh)"
    else do
      let _ ← ask (.revokeSession sessionId)
      let _ ← ask (.returnedForSession sessionId)
      refuse "refresh token reuse detected; session revoked"

def sessionLogout (token : Bytes) : AuthHandler Unit := do
  let (sessionId, _) ← resolveBearer token
  let _ ← ask (.revokeSession sessionId)
  let _ ← ask (.returnedForSession sessionId)

def requireOwner (accountId : Bytes) : AuthHandler Unit := do
  let isOwner ← ask (.accountIsOwner accountId)
  Process.Fallible.check isOwner (AppError.forbidden "owner role required")

def deviceRevoke (token target : Bytes) : AuthHandler Unit := do
  let (_, session) ← resolveBearer token
  match ← ask (.getDevice target) with
  | none => throw (AppError.notFound "device")
  | some device => do
    if device.accountId = session.accountId then pure () else requireOwner session.accountId
    let now ← ask .now
    let _ ← ask (.deletePending target)
    let _ ← ask (.markRevoked target now)
    let _ ← ask (.revokeDeviceSessions target)
    let _ ← ask (.returnedForDevice target)

def deviceAdd (token deviceId : Bytes) : AuthHandler Unit := do
  let (_, session) ← resolveBearer token
  let now ← ask .now
  let stored ← ask (.createPendingDevice deviceId session.accountId (now + config.pendingTtl))
  Process.Fallible.check stored (AppError.internal "db error")

/-- The guards against locking out an owner are passed. -/
def accountStatus (token target : Bytes) (disabled : Bool) : AuthHandler Unit := do
  let (_, session) ← resolveBearer token
  requireOwner session.accountId
  let _ ← ask (.setAccountStatus target (!disabled))

end AuthHandler

/-- The requests, and the passing of time. -/
inductive AuthRequest where
  | challenge (deviceId nonce : Bytes)
  | verify (accountId deviceId nonce : Bytes) (expiry : Int) (sessionId access refresh : Bytes)
  | refresh (sessionId token access refresh : Bytes)
  | logout (token : Bytes)
  | deviceRevoke (token target : Bytes)
  | deviceAdd (token deviceId : Bytes)
  | accountStatus (token target : Bytes) (disabled : Bool)
  | tick (elapsed : Nat)

section

variable (config : SessionConfig)

def AuthRequest.handler : AuthRequest → AuthHandler Unit
  | challenge deviceId nonce => AuthHandler.authChallenge config deviceId nonce
  | verify accountId deviceId nonce expiry sessionId access newRefresh =>
    AuthHandler.authVerify config accountId deviceId nonce expiry sessionId access newRefresh
  | refresh sessionId token access newRefresh =>
    AuthHandler.sessionRefresh config sessionId token access newRefresh
  | logout token => AuthHandler.sessionLogout token
  | deviceRevoke token target => AuthHandler.deviceRevoke token target
  | deviceAdd token deviceId => AuthHandler.deviceAdd config token deviceId
  | accountStatus token target disabled => AuthHandler.accountStatus token target disabled
  | tick elapsed => AuthHandler.ask (.tick elapsed)

def AuthRequest.process (request : AuthRequest) :
    Process AuthStatement AuthStatement.Res (Except AppError Unit) :=
  (request.handler config).run

/-- The states that interleaved requests reach, and the requests still running. -/
abbrev Auth.Reaches (allowed : Auth → AuthStatement → Prop) (init auth : Auth)
    (running : List (Process AuthStatement AuthStatement.Res (Except AppError Unit))) : Prop :=
  Process.Reaches AuthStatement.exec (AuthRequest.process config) allowed init auth running

end

end UniSsh.Server
