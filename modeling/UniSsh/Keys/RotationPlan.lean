import UniSsh.Hosts.Profile
import Mathlib.Data.List.Nodup

/-!
# The plan of a key rotation

The new key goes to every machine that authenticates with the old one. A target is one login over
one route, and no two targets of a plan have the same identity.
-/

namespace UniSsh.Keys

open List

/-- One step of a target's rotation, in order. -/
inductive RotationStep where
  /-- Append the candidate's public key, logged in with the old key. -/
  | deploy
  /-- A login with the candidate and nothing else. -/
  | verify
  /-- Drop the old key's line, logged in with the candidate. -/
  | remove
  /-- A login with the old key, which must be refused. -/
  | confirm
  deriving DecidableEq

namespace RotationStep

def previous : RotationStep → Option RotationStep
  | deploy => none
  | verify => some deploy
  | remove => some verify
  | confirm => some remove

def next : RotationStep → Option RotationStep
  | deploy => some verify
  | verify => some remove
  | remove => some confirm
  | confirm => none

/-- The place of a step in the order. -/
def index : RotationStep → Nat
  | deploy => 0
  | verify => 1
  | remove => 2
  | confirm => 3

def max (a b : RotationStep) : RotationStep := if a.index ≤ b.index then b else a

end RotationStep

inductive RotationSkipReason where
  | personal
  | systemAgent
  | password

/-- A machine whose authorized keys must learn the candidate: one login over one route. -/
structure RotationTarget where
  id : String
  /-- The saved host, where the target is one. -/
  profile : Option ConnectionProfile
  host : String
  port : UInt16
  user : String
  jumps : List JumpHost
  /-- The proxy the first dial of the route goes through. -/
  proxy : Option ProxyConfig
  route : List String
  /-- For a hop, the host whose chain it was found in. -/
  via : Option ConnectionProfile

/-- A host that only hops with the key. -/
structure RotationDependent where
  host : ConnectionProfile
  targetIds : List String

structure RotationSkip where
  host : ConnectionProfile
  reason : RotationSkipReason

/-- Where the candidate has to go for the rotation of one key. -/
structure RotationPlan where
  hosts : List ConnectionProfile
  /-- The ids that name this vault. -/
  sameVault : List String
  vaultId : String
  keyItemId : String
  targets : List RotationTarget
  dependents : List RotationDependent
  skipped : List RotationSkip
  distinct : (targets.map RotationTarget.id).Nodup

/-! ## Routes -/

/-- Whether a host's own login is this item. -/
def logsInWith (auth : ProfileAuth) (itemId : String) : Bool :=
  match auth with
  | .key keyItemId => keyItemId = itemId
  | .vaultPassword passwordItemId => passwordItemId = itemId
  | .promptPassword | .systemAgent _ | .personal => false

/-- Whether the login of a written-out hop is this item of this vault. -/
def authUses (auth : AuthMethod) (itemId : String) (sameVault : String → Bool) : Bool :=
  match auth with
  | .agent vaultId keyItemId => keyItemId = itemId ∧ sameVault vaultId
  | .vaultPassword vaultId passwordItemId => passwordItemId = itemId ∧ sameVault vaultId
  | .password _ | .systemAgent _ => false

/-- How a plan reads the hosts of a vault. -/
structure Routes where
  hosts : List ConnectionProfile
  sameVault : List String
  keyItemId : String

def Routes.of (plan : RotationPlan) : Routes :=
  { hosts := plan.hosts, sameVault := plan.sameVault, keyItemId := plan.keyItemId }

def proxyScheme : ProxyKind → String
  | .http => "http"
  | .socks4 => "socks4"
  | .socks5 => "socks5"

namespace Routes

variable (m : Routes)

def isThisVault (vaultId : String) : Bool := vaultId ∈ m.sameVault

def usesKey (h : ConnectionProfile) : Bool := logsInWith h.auth m.keyItemId

/-- A uid that is listed twice resolves to its last host. -/
def byUid (uid : String) : Option ConnectionProfile :=
  m.hosts.reverse.find? fun h => h.uid = uid

/-- The saved host a reference resolves to, where it is in this vault. -/
def refProfile (j : JumpHost) : Option ConnectionProfile := do
  let r ← j.hopRef
  if m.isThisVault r.vaultId then m.byUid r.profileUid else none

def hopUsesKey (j : JumpHost) : Bool :=
  if j.hopRef.isSome then (m.refProfile j).any m.usesKey
  else authUses j.auth m.keyItemId m.isThisVault

-- Addresses are compared in lower case; how text is lowered is a parameter.
variable (lowercase : String → String)

def endpointId (user host : String) (port : UInt16) : String :=
  user ++ "@" ++ lowercase host ++ ":" ++ toString port.toNat

/-- The machine a hop lands on. -/
def hopEndpoint (j : JumpHost) : String :=
  match m.refProfile j with
  | some r => endpointId lowercase r.user r.host r.port
  | none =>
    match j.hopRef with
    | some r => "ref:" ++ r.vaultId ++ "/" ++ r.profileUid
    | none => endpointId lowercase j.user j.host j.port

/-- The proxy of the first dial: the connection's own, else that of a saved first hop. -/
def firstDialProxy (jumps : List JumpHost) (proxy : Option ProxyConfig) : Option ProxyConfig :=
  proxy <|> do
    let first ← jumps.head?
    let r ← m.refProfile first
    r.proxy

def proxyId (p : ProxyConfig) : String :=
  let user := match p.username.filter (· ≠ "") with
    | some u => u ++ "@"
    | none => ""
  " proxy " ++ proxyScheme p.kind ++ "://" ++ user ++ lowercase p.host ++ ":" ++
    toString p.port.toNat

/-- The identity of a login reached through hops behind a proxy. -/
def targetId (endpoint : String) (jumps : List JumpHost) (proxy : Option ProxyConfig) : String :=
  let via := if jumps = [] then ""
    else " via " ++ " > ".intercalate (jumps.map (m.hopEndpoint lowercase))
  endpoint ++ via ++ (proxy.map (proxyId lowercase)).getD ""

/-- The identity of one hop of a chain: its endpoint, reached through the hops before it. -/
def hopTargetId (jumps : List JumpHost) (proxy : Option ProxyConfig) (i : Nat) : Option String :=
  jumps[i]?.map fun hop => m.targetId lowercase (m.hopEndpoint lowercase hop) (jumps.take i) proxy

end Routes

/-! ## Making the plan -/

/-- A target, unless one with its identity is there. -/
def addTarget (targets : List RotationTarget) (t : RotationTarget) : List RotationTarget :=
  if targets.any fun x => x.id = t.id then targets else targets ++ [t]

section Plan

variable (m : Routes) (lowercase : String → String) (h : ConnectionProfile)

/-- A host that logs in with the key, over its own chain. -/
def hostTarget : RotationTarget :=
  let proxy := m.firstDialProxy h.jumps h.proxy
  { id := m.targetId lowercase (Routes.endpointId lowercase h.user h.host h.port) h.jumps proxy
    profile := some h
    host := h.host
    port := h.port
    user := h.user
    jumps := h.jumps
    proxy
    route := h.jumps.map (m.hopEndpoint lowercase)
    via := none }

/-- A hop of a host's chain that uses the key, reached through the hops before it. -/
def hopTarget (i : Nat) (j : JumpHost) : Option RotationTarget :=
  let proxy := m.firstDialProxy h.jumps h.proxy
  if m.hopUsesKey j then
    (m.hopTargetId lowercase h.jumps proxy i).map fun id =>
      let jumps := h.jumps.take i
      let route := jumps.map (m.hopEndpoint lowercase)
      match m.refProfile j with
      | some r =>
        { id, profile := none, host := r.host, port := r.port, user := r.user, jumps, proxy,
          route, via := some h }
      | none =>
        { id, profile := none, host := j.host, port := j.port, user := j.user, jumps, proxy,
          route, via := some h }
  else none

def hopTargets : List RotationTarget :=
  h.jumps.zipIdx.filterMap fun entry => hopTarget m lowercase h entry.2 entry.1

/-- The ids of the hops a host goes through, each once. -/
def hopIds : List String :=
  (hopTargets m lowercase h).foldl (fun ids t => if t.id ∈ ids then ids else ids ++ [t.id]) []

/-- The hosts that log in with the key first, then the hops that do. -/
def planTargets : List RotationTarget :=
  let direct := (m.hosts.filter m.usesKey).foldl (fun ts h => addTarget ts (hostTarget m lowercase h)) []
  m.hosts.foldl (fun ts h => (hopTargets m lowercase h).foldl addTarget ts) direct

def planDependents : List RotationDependent :=
  m.hosts.filterMap fun h =>
    let ids := hopIds m lowercase h
    if m.usesKey h ∨ ids = [] then none else some { host := h, targetIds := ids }

def planSkipped : List RotationSkip :=
  m.hosts.filterMap fun h =>
    if m.usesKey h ∨ hopIds m lowercase h ≠ [] then none
    else match h.auth with
      | .personal => some { host := h, reason := .personal }
      | .systemAgent _ => some { host := h, reason := .systemAgent }
      | .vaultPassword _ | .promptPassword => some { host := h, reason := .password }
      | .key _ => none

end Plan

variable {targets : List RotationTarget}

theorem addTarget_distinct (distinct : (targets.map RotationTarget.id).Nodup) (t : RotationTarget) :
    ((addTarget targets t).map RotationTarget.id).Nodup := by
  unfold addTarget
  split
  · exact distinct
  · next absent =>
    rw [map_append, nodup_append]
    refine ⟨distinct, nodup_singleton _, ?_⟩
    rintro _ old _ new rfl
    obtain ⟨x, listed, isId⟩ := mem_map.mp old
    rw [map_singleton, mem_singleton] at new
    exact absent (any_eq_true.mpr ⟨x, listed, decide_eq_true (isId.trans new)⟩)

theorem addTargets_distinct (distinct : (targets.map RotationTarget.id).Nodup)
    (added : List RotationTarget) :
    ((added.foldl addTarget targets).map RotationTarget.id).Nodup := by
  induction added generalizing targets with
  | nil => exact distinct
  | cons t _ ih => exact ih (addTarget_distinct distinct t)

theorem planTargets_distinct (m : Routes) (lowercase : String → String) :
    ((planTargets m lowercase).map RotationTarget.id).Nodup := by
  have hops : ∀ (hosts : List ConnectionProfile) (targets : List RotationTarget),
      (targets.map RotationTarget.id).Nodup →
      ((hosts.foldl (fun ts h => (hopTargets m lowercase h).foldl addTarget ts) targets).map
        RotationTarget.id).Nodup := by
    intro hosts
    induction hosts with
    | nil => exact fun _ distinct => distinct
    | cons _ _ ih => exact fun _ distinct => ih _ (addTargets_distinct distinct _)
  refine hops _ _ ?_
  have none : (([] : List RotationTarget).map RotationTarget.id).Nodup := nodup_nil
  rw [← foldl_map]
  exact addTargets_distinct none _

/-- `plan_rotation_in`. -/
def planRotationIn (lowercase : String → String) (hosts : List ConnectionProfile)
    (vaultId keyItemId : String) (sameVault : List String) : RotationPlan :=
  let m : Routes := { hosts, sameVault, keyItemId }
  { hosts, sameVault, vaultId, keyItemId
    targets := planTargets m lowercase
    dependents := planDependents m lowercase
    skipped := planSkipped m lowercase
    distinct := planTargets_distinct m lowercase }

namespace RotationPlan

variable (plan : RotationPlan) (lowercase : String → String)

def target (id : String) : Option RotationTarget := plan.targets.find? fun t => t.id = id

/-- The targets in front of a target as hops that use the key, the first hop first. -/
def keyHops (id : String) : List String :=
  match plan.target id with
  | none => []
  | some t =>
    let m := Routes.of plan
    (t.jumps.zipIdx.filter fun entry => m.hopUsesKey entry.1).filterMap (fun entry =>
      m.hopTargetId lowercase t.jumps t.proxy entry.2) |>.filter fun hop => (plan.target hop).isSome

end RotationPlan

end UniSsh.Keys
