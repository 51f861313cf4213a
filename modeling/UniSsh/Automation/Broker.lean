import UniSsh.Base.Bytes
import UniSsh.Base.Effect
import UniSsh.Base.Table

/-!
# The broker of automated commands

Threads share grants, sessions and runs under one mutex; a worker holds the read side of
`admission` from its last check until the command is sent, whatever takes access away the write
side. A transition is one critical section of one thread, given with the identifiers it draws;
`submitted` records every submission ever made.
-/

namespace UniSsh.Automation

inductive ToolError where
  | grantRequired
  | grantExpired
  | locked
  | targetUnavailable
  | sessionClosed
  | sessionNotReady
  | connectionLost
  | busy
  | timeoutLimit
  | requestConflict
  | approvalUnavailable
  | approvalExpired
  | approvalDenied
  | outcomeUnknown
  deriving DecidableEq

def require (condition : Bool) (failure : ToolError) : Except ToolError Unit :=
  if condition then .ok () else .error failure

def okOr {α : Type} (found : Option α) (failure : ToolError) : Except ToolError α :=
  found.elim (.error failure) .ok

@[simp] theorem require_eq_ok {failure : ToolError} :
    require condition failure = .ok u ↔ condition = true := by
  cases condition <;> simp [require]

@[simp] theorem okOr_eq_ok {α : Type} {found : Option α} {failure : ToolError} {a : α} :
    okOr found failure = .ok a ↔ found = some a := by
  cases found <;> simp [okOr]

/-! ## Text sent to the remote shell -/

/-- A literal inside single quotes: every quote ends the literal, is escaped, and starts it again. -/
def quoted (text : Bytes) : Bytes :=
  text.flatMap fun byte => if byte = 39 then ascii "'\\''" else [byte]

def inDirectory (command : Bytes) : (cwd : Option Bytes) → Bytes
  | none => command
  | some cwd => ascii "cd '" ++ quoted cwd ++ ascii "' || exit\n" ++ command

def withEnv (command : Bytes) (cwd : Option Bytes) (env : List (Bytes × Bytes)) : Bytes :=
  (env.flatMap fun (key, value) =>
    ascii "export " ++ key ++ ascii "='" ++ quoted value ++ ascii "' || exit\n") ++
  inDirectory command cwd

/-! ## Grants, sessions and runs -/

/-- The counters that change with the vaults the targets come from. -/
abbrev Revision := UInt64 × UInt64

structure TargetInfo where
  vaultId : Bytes
  profileId : Bytes
  label : Bytes
  host : Bytes
  port : UInt16
  user : Bytes
  deriving DecidableEq

structure Target where
  info : TargetInfo
  revision : Revision
  deriving DecidableEq

inductive ApprovalMode where
  | manual
  | trusted
  deriving DecidableEq

structure GrantLimits where
  maxConnections : Nat := 4
  maxActiveCommands : Nat := 8
  retainedCommands : Nat := 128
  retainedSessions : Nat := 32
  outputPerRunBytes : Nat := 1024 * 1024
  deriving DecidableEq

def GrantLimits.isValid (limits : GrantLimits) : Bool :=
  1 ≤ limits.maxConnections && limits.maxConnections ≤ 64 &&
  1 ≤ limits.maxActiveCommands && limits.maxActiveCommands ≤ 256 &&
  limits.maxActiveCommands ≤ limits.retainedCommands && limits.retainedCommands ≤ 10000 &&
  limits.maxConnections ≤ limits.retainedSessions && limits.retainedSessions ≤ 1000 &&
  1024 * 1024 ≤ limits.outputPerRunBytes && limits.outputPerRunBytes ≤ 64 * 1024 * 1024 &&
  limits.outputPerRunBytes % (1024 * 1024) == 0

structure BrokerLimits where
  maxConnections : Nat := 8
  retainedCommands : Nat := 256
  outputTotalBytes : Nat := 8 * 1024 * 1024

def BrokerLimits.isValid (limits : BrokerLimits) : Bool :=
  1 ≤ limits.maxConnections && limits.maxConnections ≤ 256 &&
  16 ≤ limits.retainedCommands && limits.retainedCommands ≤ 100000 &&
  1024 * 1024 ≤ limits.outputTotalBytes && limits.outputTotalBytes ≤ 1024 * 1024 * 1024 &&
  limits.outputTotalBytes % (1024 * 1024) == 0

structure Grant where
  maxTimeoutMs : Nat
  approvalMode : ApprovalMode
  limits : GrantLimits
  epoch : Bytes
  label : Bytes
  revision : Revision
  /-- When it expires, in milliseconds of the monotonic clock. -/
  expires : Option Nat
  targets : Table Bytes Target

def Grant.unexpired (grant : Grant) (now : Nat) : Bool := grant.expires.all (now < ·)

structure SavedAccess where
  integrationId : Bytes
  label : Bytes
  targets : List TargetInfo
  fingerprint : Bytes
  /-- When it expires, in seconds of the wall clock. -/
  expiresUnix : Option Nat
  approvalMode : ApprovalMode
  maxTimeoutMs : Nat
  limits : GrantLimits

inductive SessionState where
  | connecting
  | ready
  | closed
  deriving DecidableEq

structure Session where
  createdUnixMs : Nat
  owner : Bytes
  epoch : Bytes
  target : Bytes
  requestKey : Bytes
  state : SessionState
  error : Option ToolError
  cancel : Bool
  /-- The target the open connection was made to. -/
  connection : Option Target
  idle : Nat
  deriving DecidableEq

def Session.close (s : Session) (error : Option ToolError) : Session :=
  { s with cancel := true, state := .closed, connection := none, error := error.or s.error }

inductive RunState where
  | awaitingApproval
  | queued
  | connecting
  | running
  | cancelling
  | completed
  | failed
  | cancelled
  | denied
  deriving DecidableEq

def ApprovalMode.waits : ApprovalMode → RunState
  | .manual => .awaitingApproval
  | .trusted => .queued

/-- What an integration asks to run. -/
structure Submission where
  owner : Bytes
  command : Bytes
  stdin : Option Bytes
  env : List (Bytes × Bytes)
  cwd : Option Bytes
  deriving DecidableEq

/-- A command and how far it is; its cancel flag outlives it (`Broker.stopped`). -/
structure Run extends Submission where
  epoch : Bytes
  target : Bytes
  session : Option Bytes
  key : Bytes
  timeoutMs : Nat
  state : RunState
  error : Option ToolError
  approvalUntil : Nat
  finishedAt : Option Nat
  startedAt : Option Nat
  exitCode : Option Nat
  bytes : Nat
  truncated : Bool
  worker : Bool
  deriving DecidableEq

def Run.finish (now : Nat) (state : RunState) (error : Option ToolError) (run : Run) : Run :=
  { run with state, error, finishedAt := some now }

/-! ## Records and their eviction -/

/-- The runs and how many bytes of their output are kept. -/
structure Records where
  runs : Table Bytes Run := ∅
  retainedBytes : Nat := 0

namespace Records

/-- Whether a record comes before another one for eviction: those of the owner, then the oldest. -/
def evictedBefore (a b : Bool × Nat × Bytes) : Bool :=
  (compare a b).isLE

variable (records : Records)

/-- The finished records without a worker, in the order they are dropped. -/
def evictable (owner : Option Bytes) (withOutput : Bool) : List Bytes :=
  ((records.runs.toList.filterMap fun (id, run) =>
    if !run.worker && (!withOutput || 0 < run.bytes) then
      run.finishedAt.map fun at' => (owner.any (run.owner != ·), at', id)
    else none).mergeSort evictedBefore).map (·.2.2)

def removeRun (id : Bytes) : Records :=
  match records.runs[id]? with
  | some run => ⟨records.runs.erase id, records.retainedBytes - run.bytes⟩
  | none => records

def admitRun (owner : Bytes) (perGrant total : Nat) : Option Records :=
  let any := records.evictable (some owner) false
  let own := (any.takeWhile fun id => (records.runs[id]?).any (·.owner == owner)).length
  let ownExcess := (records.runs.toList.filter (·.2.owner == owner)).length + 1 - perGrant
  let dropped := max ownExcess (records.runs.size + 1 - total)
  if own < ownExcess || any.length < dropped then none
  else some ((any.take dropped).foldl removeRun records)

/-- Drops records while the kept output exceeds the ceiling. -/
def trimOutput (total : Nat) : List Bytes → Records → Records
  | [], records => records
  | id :: rest, records =>
    if records.retainedBytes ≤ total then records else trimOutput total rest (records.removeRun id)

def trim (limits : BrokerLimits) : Records :=
  let excess := records.runs.size - limits.retainedCommands
  let records := ((records.evictable none false).take excess).foldl removeRun records
  trimOutput limits.outputTotalBytes (records.evictable none true) records

/-- Drops records until the output needed fits. -/
def makeRoom (needed total : Nat) : List Bytes → Records → Records
  | [], records => records
  | id :: rest, records =>
    let records := records.removeRun id
    if needed ≤ total - records.retainedBytes then records else makeRoom needed total rest records

def outputRoom (owner : Bytes) (needed total : Nat) : Records :=
  if total - records.retainedBytes < needed then
    makeRoom needed total (records.evictable (some owner) true) records
  else records

/-- Rewrites the record of one run. -/
def modify (id : Bytes) (set : Run → Run) : Records :=
  { records with runs := records.runs.updateWhere (fun k _ => k == id) set }

/-- Counts the kept bytes again. -/
def recount : Records :=
  { records with retainedBytes := (records.runs.toList.map (·.2.bytes)).sum }

end Records

/-! ## The state of the broker -/

/-- How far a run's thread is. -/
inductive Stage where
  | recording
  | connecting
  | connected
  /-- Inside the read side of `admission`, past its last check. -/
  | admitted
  | running
  | failed (error : ToolError)
  | ended
  deriving DecidableEq

/-- A run's thread, with what it captured when the run was started. -/
structure Worker where
  target : Target
  deadline : Nat
  command : Bytes
  stdin : Option Bytes
  connection : Option Target
  stage : Stage
  deriving DecidableEq

/-- What Core answers. -/
structure Core where
  revision : Option Revision
  accessFingerprint : Option Bytes
  resolve : Bytes → Bytes → Option Target
  loadsAccess : Bool
  savesAccess : Bool

/-- A grant whose targets are resolved, on its way to the admission lock. -/
structure PendingGrant where
  owner : Bytes
  label : Bytes
  resolved : Table Bytes Target
  seconds : Option Nat
  generation : Nat
  revision : Revision
  approvalMode : ApprovalMode
  maxTimeoutMs : Nat
  limits : GrantLimits
  fingerprint : Bytes

def PendingGrant.grant (p : PendingGrant) (epoch : Bytes) (now : Nat) : Grant :=
  { p with epoch, expires := p.seconds.map fun s => now + 1000 * s, targets := p.resolved }

def PendingGrant.savedAccess (p : PendingGrant) (unix : Nat) : SavedAccess :=
  { p with
    integrationId := p.owner
    targets := p.resolved.toList.map (·.2.info)
    expiresUnix := p.seconds.map (unix + ·) }

structure Broker where
  core : Core
  now : Nat
  /-- The wall clock; saved accesses count its whole seconds. -/
  unixMs : Nat
  grants : Table Bytes Grant := ∅
  sessions : Table Bytes Session := ∅
  records : Records := {}
  limits : BrokerLimits := {}
  /-- A 64-bit counter that is only incremented. -/
  revocationEpoch : Nat := 0
  suspended : Bool := false
  manualApproval : Bool := true
  accessRevision : Option Revision := none
  saved : List SavedAccess
  /-- The runs whose cancel flag is set. -/
  stopped : List Bytes := []
  pendingGrants : List PendingGrant := []
  workers : Table Bytes Worker := ∅
  /-- The sessions' threads, with the target each connects to. -/
  connectors : Table Bytes Target := ∅
  submitted : Table Bytes Submission := ∅

namespace Broker

/-- `Broker::new`: nothing granted, opened or submitted. -/
def new (core : Core) (now unixMs : Nat) (saved : List SavedAccess) : Broker :=
  { core, now, unixMs, saved }

variable (b : Broker)

def runs : Table Bytes Run := b.records.runs

def cancelled (id : Bytes) : Bool := b.stopped.contains id

/-- No worker is inside the read side of `admission`. -/
def noReader : Bool := b.workers.toList.all (·.2.stage != .admitted)

def modifyRun (id : Bytes) (set : Run → Run) : Broker :=
  { b with records := b.records.modify id set }

/-! ### Taking access away -/

/-- Whether a revocation for `owner`, or for everyone, concerns an integration. -/
def matchesOwner (owner : Option Bytes) (other : Bytes) : Bool := owner.all (· == other)

def revokeInner (owner : Option Bytes) : Broker :=
  { b with
    grants := b.grants.filter fun o _ => !matchesOwner owner o
    sessions := b.sessions.filter fun _ s => !matchesOwner owner s.owner
    stopped := (b.runs.toList.filter (matchesOwner owner ·.2.owner)).map (·.1) ++ b.stopped
    records := Records.recount
      { b.records with runs := b.runs.filter fun _ r => !matchesOwner owner r.owner } }

def revoke (owner : Option Bytes) : Broker :=
  { b with revocationEpoch := b.revocationEpoch + 1 }.revokeInner owner

/-- The grant an expiry revocation finds due under the lock. -/
def expired (owner epoch : Bytes) : Bool :=
  (b.grants[owner]?).any fun g =>
    g.epoch == epoch && (!g.unexpired b.now || some g.revision != b.core.revision)

def revokeExpired (owner epoch : Bytes) : Broker :=
  if b.expired owner epoch then b.revoke (some owner) else b

/-- Whether the saved accesses were rewritten: the value `forget_access` returns. -/
def forgets : Bool := b.core.loadsAccess && b.core.savesAccess

def forgetAccess (owner : Option Bytes) : Broker :=
  let b := b.revoke owner
  if b.forgets then { b with saved := b.saved.filter fun s => owner.any (s.integrationId != ·) }
  else b

def suspend : Broker :=
  { { b with suspended := true }.revoke none with accessRevision := none }

def resumeIfCurrent (epoch : Nat) : Broker :=
  if b.revocationEpoch = epoch then { b with suspended := false, accessRevision := none } else b

/-! ### Giving access -/

def grantsTotal : Nat := 32

/-- The arguments of `grant_with_limits`, with the identifiers drawn for the targets. -/
structure GrantRequest where
  owner : Bytes
  label : Bytes
  targets : List (Bytes × Bytes)
  seconds : Option Nat
  generation : Nat
  revision : Revision
  approvalMode : ApprovalMode
  maxTimeoutMs : Nat
  limits : GrantLimits
  ids : List Bytes

def resolveAll (core : Core) (revision : Revision) :
    List ((Bytes × Bytes) × Bytes) → Table Bytes Target → Except ToolError (Table Bytes Target)
  | [], resolved => .ok resolved
  | ((vault, profile), id) :: rest, resolved => do
    let target ← okOr (core.resolve vault profile) .targetUnavailable
    require (target.revision == revision) .grantExpired
    resolveAll core revision rest (resolved.insert id target)

/-- The part of `grant_with_limits` before the admission lock. -/
def resolveGrant (r : GrantRequest) : Except ToolError PendingGrant := do
  require (1 ≤ r.maxTimeoutMs && r.maxTimeoutMs ≤ 86400000) .timeoutLimit
  require (r.limits.isValid && !r.owner.isEmpty && !r.targets.isEmpty && r.targets.length ≤ 64 &&
    r.seconds != some 0) .targetUnavailable
  require (b.revocationEpoch == r.generation && b.core.revision == some r.revision) .grantExpired
  let fingerprint ← okOr b.core.accessFingerprint .locked
  let resolved ← resolveAll b.core r.revision (r.targets.zip r.ids) ∅
  pure { r with resolved, fingerprint }

def saveGrant (p : PendingGrant) : Except ToolError Broker := do
  require b.core.loadsAccess .locked
  let saved := b.saved.filter (·.integrationId != p.owner)
  require (saved.length < grantsTotal) .busy
  require b.core.savesAccess .locked
  pure { b with saved := saved ++ [p.savedAccess (b.unixMs / 1000)] }

/-- The part of `grant_with_limits` under the admission lock. -/
def publishGrant (p : PendingGrant) (epoch : Bytes) : Except ToolError Broker := do
  require (b.revocationEpoch == p.generation) .grantExpired
  require (!b.suspended) .locked
  require (b.grants.size < grantsTotal || b.grants.contains p.owner) .busy
  let b ← b.saveGrant p
  let b := b.revokeInner (some p.owner)
  pure { b with grants := b.grants.insert p.owner (p.grant epoch b.now) }

/-- The grant a saved access gives again, if it still may. -/
def restored (revision : Revision) (fingerprint : Bytes) (s : SavedAccess)
    (ids : List Bytes) (epoch : Bytes) : Option Grant :=
  if s.fingerprint != fingerprint || s.expiresUnix.any (· ≤ b.unixMs / 1000) || s.targets.isEmpty ||
      64 < s.targets.length || s.maxTimeoutMs < 1 || 86400000 < s.maxTimeoutMs ||
      !s.limits.isValid || b.grants.contains s.integrationId then none
  else
    let pairs := s.targets.map fun info => (info.vaultId, info.profileId)
    match resolveAll b.core revision (pairs.zip ids) ∅ with
    | .error _ => none
    | .ok targets =>
      if targets.size != s.targets.length then none
      else some
        { s with
          epoch, revision, targets
          expires := s.expiresUnix.map fun expiry => b.now + 1000 * (expiry - b.unixMs / 1000) }

/-- The identifiers drawn for one saved access: those of its targets and the grant's epoch. -/
abbrev Draw := List Bytes × Bytes

def restoredGrants (revision : Revision) (fingerprint : Bytes) (draws : List Draw) :
    List (Bytes × Grant) :=
  (b.saved.zip draws).filterMap fun (s, ids, epoch) =>
    (b.restored revision fingerprint s ids epoch).map (s.integrationId, ·)

/-- `entry(owner).or_insert(grant)`. -/
def addGrant (grants : Table Bytes Grant) (entry : Bytes × Grant) : Table Bytes Grant :=
  if grants.contains entry.1 then grants else grants.insert entry.1 entry.2

/-- The part of `restore_access` under the admission lock; `revision` was read before. -/
def restoreAccess (revision : Revision) (draws : List Draw) : Broker :=
  if b.suspended || b.accessRevision == some revision || !b.core.loadsAccess then b
  else
    match b.core.accessFingerprint with
    | none => b
    | some fingerprint =>
      if b.core.revision != some revision then b
      else
        { b with
          grants := ((b.restoredGrants revision fingerprint draws).take grantsTotal).foldl
            addGrant b.grants
          accessRevision := some revision }

/-! ### The sweep -/

/-- An approval whose time is over is denied. -/
def expireApproval (sweepNow now : Nat) (run : Run) : Run :=
  if run.state = .awaitingApproval ∧ run.approvalUntil ≤ sweepNow then
    run.finish now .denied (some .approvalExpired)
  else run

/-- A session that idled or lost its connection is closed. -/
def sweepSession (sweepNow : Nat) (invalid : List Bytes) (id : Bytes) (s : Session) : Session :=
  let active := b.runs.toList.any fun (_, r) => r.finishedAt.isNone && r.session == some id
  let s := if s.state = .ready ∧ !active ∧ s.idle + 300000 ≤ sweepNow then s.close none else s
  if invalid.contains id ∧ s.connection.isSome then s.close (some .connectionLost) else s

/-- The last section of `sweep`, with the time it started and the sessions it found invalid. -/
def sweepState (sweepNow : Nat) (invalid : List Bytes) : Broker :=
  let b := { b with records :=
    { b.records with runs := b.runs.updateWhere (fun _ _ => true) (expireApproval sweepNow b.now) } }
  { b with
    sessions := b.sessions.map (b.sweepSession sweepNow invalid)
    records := b.records.recount }

def setLimits (limits : BrokerLimits) : Except ToolError Broker := do
  require limits.isValid .targetUnavailable
  pure { b with limits, records := b.records.trim limits }

/-! ### Tool requests -/

/-- Where a command is to run: in a session, or on a target with a connection of its own. -/
inductive Place where
  | existing (session : Bytes)
  | oneShot (target : Bytes)
  deriving DecidableEq

structure RunCommand where
  place : Place
  command : Bytes
  requestKey : Bytes
  timeoutMs : Option Nat
  cwd : Option Bytes
  stdin : Option Bytes
  env : List (Bytes × Bytes)
  deriving DecidableEq

inductive ToolRequest where
  | listCommands
  | listTargets
  | listSessions
  | openSession (target requestKey : Bytes)
  | closeSession (session : Bytes)
  | runCommand (r : RunCommand)
  | getCommand (run : Bytes)
  | cancelCommand (run : Bytes)
  deriving DecidableEq

/-- What an answer is written from. -/
inductive Answer where
  | targets (targets : List (Bytes × Target))
  | sessions (sessions : List (Bytes × Session))
  | commands (runs : List (Bytes × Run))

abbrev Answered := Except ToolError (Answer × Broker)

variable (owner : Bytes) (grant : Grant)

/-- Drops the oldest closed sessions of an integration to make room for one more. -/
def admitSession (retained : Nat) : Option (Table Bytes Session) :=
  let excess := (b.sessions.toList.filter (·.2.owner == owner)).length + 1 - retained
  let closed := ((b.sessions.toList.filter fun (_, s) =>
    s.owner == owner && s.state == .closed).map fun (id, s) => (s.createdUnixMs, id)).mergeSort
      fun a b => (compare a b).isLE
  if closed.length < excess then none
  else
    let dropped := (closed.take excess).map (·.2)
    some (b.sessions.filter fun id _ => !dropped.contains id)

def newSession (target requestKey : Bytes) : Session where
  createdUnixMs := b.unixMs
  owner := owner
  epoch := grant.epoch
  target := target
  requestKey := requestKey
  state := .connecting
  error := none
  cancel := false
  connection := none
  idle := b.now

/-- Records a session and leaves its connection to a thread of its own. -/
def startSession (target requestKey id : Bytes) (slot : Bool) : Answered := do
  let live := (b.sessions.toList.filter fun (_, s) => s.owner == owner && s.state != .closed).length
  require (live < grant.limits.maxConnections) .busy
  let leadsTo ← okOr grant.targets[target]? .targetUnavailable
  require slot .busy
  let sessions ← okOr (b.admitSession owner grant.limits.retainedSessions) .busy
  let session := b.newSession owner grant target requestKey
  pure (.sessions [(id, session)],
    { b with
      sessions := sessions.insert id session
      connectors := b.connectors.insert id leadsTo })

def openSession (target requestKey id : Bytes) (slot : Bool) : Answered :=
  match b.sessions.toList.find? fun (_, s) =>
      s.owner == owner && s.epoch == grant.epoch && s.requestKey == requestKey with
  | some found => if found.2.target = target then .ok (.sessions [found], b) else .error .requestConflict
  | none => b.startSession owner grant target requestKey id slot

/-- Whether cancelling a run ends it at once: no thread works on it yet. -/
def waiting (run : Run) : Bool := run.state == .awaitingApproval || run.state == .queued

/-- The runs of an integration in one of its sessions. -/
def runsIn (owner session : Bytes) : List Bytes :=
  (b.runs.toList.filter fun (_, r) => r.owner == owner && r.session == some session).map (·.1)

def closeSession (owner session : Bytes) : Answered := do
  let s ← okOr ((b.sessions[session]?).filter (·.owner == owner)) .sessionClosed
  let closed := { s with cancel := true, state := .closed, connection := none }
  let ids := b.runsIn owner session
  pure (.sessions [(session, closed)],
    { b with
      sessions := b.sessions.insert session closed
      stopped := ids ++ b.stopped
      records := { b.records with
        runs := b.runs.updateWhere (fun id r => ids.contains id && waiting r)
          (Run.finish b.now .cancelled none) } })

/-- The session and the target of a command. -/
def placeOf : Place → Except ToolError (Option Bytes × Bytes)
  | .existing session => do
    let s ← okOr ((b.sessions[session]?).filter (·.owner == owner)) .sessionClosed
    pure (some session, s.target)
  | .oneShot target => .ok (none, target)

/-- A session takes one command at a time, and only when it is ready. -/
def sessionTakes : Option Bytes → Except ToolError Unit
  | none => .ok ()
  | some session => do
    require ((b.sessions[session]?).any (·.state == .ready)) .sessionNotReady
    require (b.runs.toList.all fun (_, r) => r.session != some session || r.finishedAt.isSome) .busy

def newRun (session : Option Bytes) (target : Bytes) (timeoutMs : Nat) (r : RunCommand) : Run where
  owner := owner
  command := r.command
  stdin := r.stdin
  env := r.env
  cwd := r.cwd
  epoch := grant.epoch
  target := target
  session := session
  key := r.requestKey
  timeoutMs := timeoutMs
  state := match grant.approvalMode with
    | .manual => .awaitingApproval
    | .trusted => .queued
  error := none
  approvalUntil := b.now + 120000
  finishedAt := none
  startedAt := none
  exitCode := none
  bytes := 0
  truncated := false
  worker := false

def submitRun (session : Option Bytes) (target : Bytes)
    (timeoutMs : Nat) (r : RunCommand) (id : Bytes) : Answered := do
  require (grant.targets.contains target) .targetUnavailable
  b.sessionTakes session
  let active := (b.runs.toList.filter fun (_, r) => r.owner == owner && r.finishedAt.isNone).length
  require (active < grant.limits.maxActiveCommands) .busy
  require (grant.approvalMode != .manual || b.manualApproval) .approvalUnavailable
  let records ← okOr (b.records.admitRun owner grant.limits.retainedCommands
    b.limits.retainedCommands) .busy
  let run := b.newRun owner grant session target timeoutMs r
  pure (.commands [(id, run)],
    { b with
      records := { records with runs := records.runs.insert id run }
      submitted := b.submitted.insert id run.toSubmission })

def runCommand (r : RunCommand) (id : Bytes) : Answered := do
  let (session, target) ← b.placeOf owner r.place
  let timeoutMs := r.timeoutMs.getD (min 120000 grant.maxTimeoutMs)
  require (timeoutMs ≤ grant.maxTimeoutMs) .timeoutLimit
  match b.runs.toList.find? fun (_, run) =>
      run.owner == owner && run.epoch == grant.epoch && run.key == r.requestKey with
  | some found =>
    if found.2.session = session ∧ found.2.target = target ∧ found.2.command = r.command ∧
        found.2.stdin = r.stdin ∧ found.2.env = r.env ∧ found.2.timeoutMs = timeoutMs ∧
        found.2.cwd = r.cwd then .ok (.commands [found], b)
    else .error .requestConflict
  | none => b.submitRun owner grant session target timeoutMs r id

def cancelRun (now : Nat) (run : Run) : Run :=
  if waiting run then run.finish now .cancelled none else { run with state := .cancelling }

def cancelCommand (owner id : Bytes) : Answered := do
  let run ← okOr ((b.runs[id]?).filter (·.owner == owner)) .outcomeUnknown
  if run.finishedAt.isSome then pure (.commands [(id, run)], b)
  else pure (.commands [(id, cancelRun b.now run)],
    { b.modifyRun id (cancelRun b.now) with stopped := id :: b.stopped })

def tool (id : Bytes) (slot : Bool) : ToolRequest → Answered
  | .listCommands => .ok (.commands (b.runs.toList.filter (·.2.owner == owner)), b)
  | .listTargets => .ok (.targets grant.targets.toList, b)
  | .listSessions => .ok (.sessions (b.sessions.toList.filter (·.2.owner == owner)), b)
  | .openSession target requestKey => b.openSession owner grant target requestKey id slot
  | .closeSession session => b.closeSession owner session
  | .runCommand r => b.runCommand owner grant r id
  | .getCommand run => do
    let r ← okOr ((b.runs[run]?).filter (·.owner == owner)) .outcomeUnknown
    pure (.commands [(run, r)], b)
  | .cancelCommand run => b.cancelCommand owner run

/-- The section of `request` after the sweep; `revision` was read before, and `slot` is a connection
slot. -/
def request (owner : Bytes) (revision : Revision) (r : ToolRequest) (id : Bytes)
    (slot : Bool) : Answered := do
  let grant ← okOr b.grants[owner]? .grantRequired
  require (grant.revision == revision && grant.unexpired b.now) .grantExpired
  b.tool owner grant id slot r

/-! ### Approval and start -/

variable (id : Bytes)

/-- A run that can still be started or denied. -/
def decidable (mode : ApprovalMode) (run : Run) : Bool :=
  run.state == mode.waits && !b.cancelled id && b.now < run.approvalUntil

/-- The connection a run starts with: that of its session, or none yet. -/
def startConnection (slot : Bool) : Option Bytes → Except ToolError (Option Target)
  | some session => do
    let s ← okOr ((b.sessions[session]?).filter fun s => s.state == .ready && !s.cancel) .sessionClosed
    some <$> okOr s.connection .sessionNotReady
  | none => do
    require slot .busy
    pure none

def startDeadline (now : Nat) (grant : Grant) (run : Run) : Nat :=
  grant.expires.elim (now + run.timeoutMs) (min · (now + run.timeoutMs))

def started (now : Nat) (connection : Option Target) (run : Run) : Run :=
  { run with
    state := if connection.isNone then .connecting else .running
    startedAt := some now
    worker := true }

/-- Hands an allowed run to a worker. -/
def launch (run : Run) (mode : ApprovalMode) (slot : Bool) : Except ToolError Broker := do
  let grant ← okOr ((b.grants[run.owner]?).filter fun g =>
    g.epoch == run.epoch && g.unexpired b.now) .grantExpired
  require (grant.approvalMode == mode) .approvalDenied
  let target ← okOr grant.targets[run.target]? .targetUnavailable
  let connection ← b.startConnection slot run.session
  pure { b.modifyRun id (started b.now connection) with
    workers := b.workers.insert id
      { target, connection
        deadline := startDeadline b.now grant run
        command := withEnv run.command run.cwd run.env
        stdin := run.stdin
        stage := .recording } }

def startRun (allowed : Bool) (mode : ApprovalMode) (slot : Bool) : Except ToolError Broker := do
  let run ← okOr b.runs[id]? .approvalExpired
  require (b.decidable id mode run) .approvalExpired
  if allowed then b.launch id run mode slot
  else pure (b.modifyRun id (Run.finish b.now .denied (some .approvalDenied)))

/-- A command listed for a decision. -/
structure PendingApproval where
  runId : Bytes
  integrationId : Bytes
  application : Bytes
  target : TargetInfo
  command : Bytes
  cwd : Option Bytes
  stdin : Option Bytes
  env : List (Bytes × Bytes)
  timeoutMs : Nat
  deriving DecidableEq

def pendingApproval (entry : Bytes × Run) : Option PendingApproval :=
  if b.decidable entry.1 .manual entry.2 then do
    let grant ← (b.grants[entry.2.owner]?).filter (·.epoch == entry.2.epoch)
    let target ← grant.targets[entry.2.target]?
    pure
      { entry.2 with
        runId := entry.1
        integrationId := entry.2.owner
        application := grant.label
        target := target.info }
  else none

/-- The commands awaiting a decision, in no particular order. -/
def pendingApprovals : List PendingApproval := b.runs.toList.filterMap b.pendingApproval

def approvalUnavailable : Except ToolError Broker := do
  let run ← okOr b.runs[id]? .approvalExpired
  require (b.decidable id .manual run) .approvalExpired
  pure (b.modifyRun id (Run.finish b.now .failed (some .approvalUnavailable)))

/-- A trusted run that could not be started fails. -/
def failUnstarted (error : ToolError) : Broker :=
  b.modifyRun id fun run =>
    if run.finishedAt.isNone then run.finish b.now .failed (some error) else run

/-! ### Threads -/

/-- A session's thread publishes its connection, or why there is none. -/
def sessionConnected (target : Target) (failure : Option ToolError) : Broker :=
  { b with sessions := b.sessions.updateWhere (fun k s => k == id && s.state == .connecting) fun s =>
      match failure with
      | some error => { s with state := .closed, error := some error, cancel := true }
      | none =>
        if s.cancel then { s with state := .closed, error := some .grantExpired }
        else { s with state := .ready, connection := some target, idle := b.now } }

variable (w : Worker)

def setStage (stage : Stage) : Broker :=
  { b with workers := b.workers.insert id { w with stage } }

/-- The recording is prepared; without one the run fails here. -/
def workerRecords (failure : Option ToolError) : Broker :=
  match failure with
  | none => b.setStage id w .connecting
  | some error =>
    (b.modifyRun id fun run => { run.finish b.now .failed (some error) with worker := false }).setStage
      id w .ended

/-- A run without a session connects to its target. A failed connect sets the cancel flag. -/
def workerConnects (failure : Option ToolError) : Broker :=
  match w.connection, failure with
  | some _, _ => b.setStage id w .connected
  | none, none => b.setStage id { w with connection := some w.target } .connected
  | none, some error => { b.setStage id w (.failed error) with stopped := id :: b.stopped }

/-- The last check, inside the read side of `admission`. -/
def workerChecks : Broker :=
  if b.cancelled id || w.deadline ≤ b.now then b.setStage id w (.failed .grantExpired)
  else b.setStage id w .admitted

/-- The command is sent and the read side released. -/
def workerExecutes (failure : Option ToolError) : Broker :=
  (b.modifyRun id fun run => { run with state := .running }).setStage id w
    (failure.elim .running .failed)

/-- The error of a run that nothing finished before its thread ended. -/
def failure : ToolError :=
  match w.stage with
  | .failed error => error
  | _ => .outcomeUnknown

def outcome (run : Run) : RunState :=
  if b.cancelled id && (w.connection.isSome || run.state == .cancelling) then .cancelled else .failed

def concluded (run : Run) : Run :=
  if run.finishedAt.isNone then
    { run.finish b.now (b.outcome id w run) (some (failure w)) with worker := false }
  else { run with worker := false }

/-- The last section of a run's thread. -/
def workerEnds : Broker :=
  let session := (b.runs[id]?).bind (·.session)
  { (b.modifyRun id (b.concluded id w)).setStage id w .ended with
    sessions := b.sessions.updateWhere (fun k _ => session == some k) fun s => { s with idle := b.now } }

/-- Output of a command; `taken` is how much of it the buffer took. -/
def outputData (length taken : Nat) : Broker :=
  let open' (run : Run) : Bool := !b.cancelled id && run.finishedAt.isNone
  match (b.runs[id]?).filter open' with
  | none => b
  | some run =>
    match (b.grants[run.owner]?).filter fun g => g.epoch == run.epoch && g.unexpired b.now with
    | none => b
    | some grant =>
      let wanted := min (grant.limits.outputPerRunBytes - run.bytes) length
      let records := b.records.outputRoom run.owner wanted b.limits.outputTotalBytes
      let saved := min taken (min wanted (b.limits.outputTotalBytes - records.retainedBytes))
      let records := records.modify id fun run =>
        { run with bytes := run.bytes + saved, truncated := run.truncated || saved < length }
      { b with records := { records with retainedBytes := records.retainedBytes + saved } }

/-- A command exited. -/
def outputExited (code : Option Nat) : Broker :=
  b.modifyRun id fun run =>
    if !b.cancelled id && run.finishedAt.isNone then
      match code with
      | some _ => { run.finish b.now .completed none with exitCode := code }
      | none => { run.finish b.now .failed (some .outcomeUnknown) with exitCode := none }
    else run

end Broker

/-! ## Transitions -/

/-- What a run's thread does next, with the failure of the step if it fails. -/
inductive WorkerStep where
  | records (failure : Option ToolError)
  | connects (failure : Option ToolError)
  | checks
  | executes (failure : Option ToolError)
  | ends
  deriving DecidableEq

inductive Event where
  | clock (now unixMs : Nat)
  | core (core : Core)
  | resolveGrant (r : Broker.GrantRequest)
  | publishGrant (p : PendingGrant) (epoch : Bytes)
  | revoke (owner : Option Bytes)
  | forgetAccess (owner : Option Bytes)
  | suspend
  | resumeIfCurrent (epoch : Nat)
  | revokeExpired (owner epoch : Bytes)
  | restoreAccess (revision : Revision) (draws : List Broker.Draw)
  | sweepState (sweepNow : Nat) (invalid : List Bytes)
  | setLimits (limits : BrokerLimits)
  | setManualApproval (available : Bool)
  | request (owner : Bytes) (revision : Revision) (r : Broker.ToolRequest) (id : Bytes) (slot : Bool)
  | startRun (id : Bytes) (allowed : Bool) (mode : ApprovalMode) (slot : Bool)
  | approvalUnavailable (id : Bytes)
  | failUnstarted (id : Bytes) (error : ToolError)
  | sessionConnected (id : Bytes) (failure : Option ToolError)
  | worker (id : Bytes) (step : WorkerStep)
  | outputData (id : Bytes) (length taken : Nat)
  | outputExited (id : Bytes) (code : Option Nat)

namespace Event

/-- Sections under the write side of `admission`. -/
def exclusive : Event → Bool
  | publishGrant .. | revoke _ | forgetAccess _ | suspend | resumeIfCurrent _ | revokeExpired ..
  | restoreAccess .. => true
  | request _ _ (.closeSession _) _ _ | request _ _ (.cancelCommand _) _ _ => true
  | _ => false

/-- A worker takes the step its stage is at. -/
def WorkerStep.follows : WorkerStep → Stage → Bool
  | .records _, .recording => true
  | .connects _, .connecting => true
  | .checks, .connected => true
  | .executes _, .admitted => true
  | .ends, .running => true
  | .ends, .failed _ => true
  | _, _ => false

/-- The clock does not go back, a drawn identifier is new, and the thread is at the section. -/
def Ready (b : Broker) : Event → Prop
  | clock now _ => b.now ≤ now
  | publishGrant p _ => p ∈ b.pendingGrants
  | sweepState sweepNow _ => sweepNow ≤ b.now
  | request _ _ _ id _ => b.submitted[id]? = none ∧ b.connectors[id]? = none
  | sessionConnected id _ => b.connectors.contains id
  | worker id step => ∃ w, b.workers[id]? = some w ∧ WorkerStep.follows step w.stage
  | _ => True

def Enabled (b : Broker) (e : Event) : Prop :=
  (e.exclusive = true → b.noReader = true) ∧ e.Ready b

end Event

namespace Broker

variable (b : Broker)

def workerStep (id : Bytes) (w : Worker) : WorkerStep → Broker
  | .records failure => b.workerRecords id w failure
  | .connects failure => b.workerConnects id w failure
  | .checks => b.workerChecks id w
  | .executes failure => b.workerExecutes id w failure
  | .ends => b.workerEnds id w

/-- A section that fails leaves the state as it was. -/
def orUnchanged : Except ToolError Broker → Broker
  | .ok b' => b'
  | .error _ => b

def step (b : Broker) : Event → Broker
  | .clock now unixMs => { b with now, unixMs }
  | .core core => { b with core }
  | .resolveGrant r => b.orUnchanged ((b.resolveGrant r).map fun p =>
    { b with pendingGrants := p :: b.pendingGrants })
  | .publishGrant p epoch => b.orUnchanged (b.publishGrant p epoch)
  | .revoke owner => b.revoke owner
  | .forgetAccess owner => b.forgetAccess owner
  | .suspend => b.suspend
  | .resumeIfCurrent epoch => b.resumeIfCurrent epoch
  | .revokeExpired owner epoch => b.revokeExpired owner epoch
  | .restoreAccess revision draws => b.restoreAccess revision draws
  | .sweepState sweepNow invalid => b.sweepState sweepNow invalid
  | .setLimits limits => b.orUnchanged (b.setLimits limits)
  | .setManualApproval available => { b with manualApproval := available }
  | .request owner revision r id slot => b.orUnchanged ((b.request owner revision r id slot).map (·.2))
  | .startRun id allowed mode slot => b.orUnchanged (b.startRun id allowed mode slot)
  | .approvalUnavailable id => b.orUnchanged (b.approvalUnavailable id)
  | .failUnstarted id error => b.failUnstarted id error
  | .sessionConnected id failure => (b.connectors[id]?).elim b (b.sessionConnected id · failure)
  | .worker id step => (b.workers[id]?).elim b (b.workerStep id · step)
  | .outputData id length taken => b.outputData id length taken
  | .outputExited id code => b.outputExited id code

/-- The grants a sweep finds due. -/
def expiredGrants : List (Bytes × Bytes) :=
  (b.grants.toList.filter fun (o, g) => b.expired o g.epoch).map fun (o, g) => (o, g.epoch)

/-- The sections of `sweep` when no other thread comes between. -/
def sweepSections (draws : List Draw) (invalid : List Bytes) : List Event :=
  b.expiredGrants.map (fun (o, epoch) => .revokeExpired o epoch) ++
  (b.core.revision.toList.map fun revision => .restoreAccess revision draws) ++
  [.sweepState b.now invalid]

/-- The sections of `request` when no other thread comes between: the sweep, and the tool. -/
def requestSections (draws : List Draw) (invalid : List Bytes) (owner : Bytes)
    (r : ToolRequest) (id : Bytes) (slot : Bool) : List Event :=
  b.sweepSections draws invalid ++
  (b.core.revision.toList.map fun revision => .request owner revision r id slot)

/-- What happened, the latest first: the state each section began in and the section. -/
abbrev History := List (Broker × Event)

/-- Any interleaving of the broker's threads from a new broker. -/
inductive Reaches : History → Broker → Prop where
  | new (core : Core) (now unixMs : Nat) (saved : List SavedAccess) :
    Reaches [] (new core now unixMs saved)
  | step {past : History} {b : Broker} {e : Event} (reached : Reaches past b) (enabled : e.Enabled b) :
      Reaches ((b, e) :: past) (b.step e)

/-- A call of `Connection::exec`. -/
structure Exec where
  run : Bytes
  connection : Target
  command : Bytes
  stdin : Option Bytes
  deadline : Nat
  deriving DecidableEq

/-- The call a section makes, if it makes one. -/
def execOf : Event → Option Exec
  | .worker id (.executes _) => do
    let w ← b.workers[id]?
    let connection ← w.connection
    pure { w with run := id, connection }
  | _ => none

end Broker

end UniSsh.Automation
