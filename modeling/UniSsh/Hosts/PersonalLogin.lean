import UniSsh.Hosts.Destination

/-!
# Personal logins

A shared host may leave the login to each member, who binds an identity of their own, pinned to
where the host pointed then. Ids stand for what they are made of, `none` for every refusal, and
user names are left out.
-/

namespace UniSsh.Personal

open List

structure IdentityBinding where
  identityItemId : String
  destinationPin : String
  deriving DecidableEq

structure Identity where
  identityId : String
  keyItemId : Option String
  passwordItemId : Option String

/-- What the account sees of one vault; others write the shared ones too. -/
structure HostVault where
  vaultId : String
  isShared : Bool
  profiles : List ConnectionProfile
  bindings : HopRef → Option IdentityBinding
  identities : List Identity

section Vaults

variable (st : List HostVault)

def openVault (id : String) : Option HostVault := st.find? fun v => v.vaultId = id

/-- A host as it is read: the items its hops name are of its own vault. -/
def storedToProfile (vaultId : String) (p : ConnectionProfile) : ConnectionProfile :=
  { p with
    jumps := p.jumps.map fun j =>
      { j with
        auth := match j.auth with
          | .vaultPassword _ passwordItemId => .vaultPassword vaultId passwordItemId
          | .agent _ keyItemId => .agent vaultId keyItemId
          | .password _ | .systemAgent _ => .agent vaultId "" } }

def listConnections (vaultId : String) : List ConnectionProfile :=
  ((openVault st vaultId).map fun v => v.profiles.map (storedToProfile vaultId)).getD []

def resolveProfileByUid (r : HopRef) : Option ConnectionProfile :=
  (listConnections st r.vaultId).find? fun p => p.uid = r.profileUid

def bindingVaultIn (host : HopRef) (privateOnly : Bool) : Option String :=
  (st.find? fun v => (!privateOnly || !v.isShared) && (v.bindings host).isSome).map (·.vaultId)

def bindingIn (id : String) (host : HopRef) : Option IdentityBinding :=
  (openVault st id).bind fun v => v.bindings host

def updateVault (id : String) (f : HostVault → HostVault) : List HostVault :=
  st.map fun v => if v.vaultId = id then f v else v

def writeBinding (id : String) (host : HopRef) (b : Option IdentityBinding) : List HostVault :=
  updateVault st id fun v =>
    { v with bindings := fun h => if h = host then b else v.bindings h }

/-- Whether `put_binding` goes through. -/
def mayPut (id : String) (host : HopRef) (pin : String) (allowRebind : Bool) : Bool :=
  host.vaultId ≠ "" && host.profileUid ≠ "" && (openVault st id).isSome &&
    (allowRebind || (bindingIn st id host).all fun existing => existing.destinationPin = pin)

/-! ## Handing out and connecting -/

/-- The login an identity of a vault stands for: its key, otherwise its password. -/
def credential (vault : String) (i : Identity) : Option AuthMethod :=
  match i.keyItemId.filter fun s => s ≠ "" with
  | some keyItemId => some (.agent vault keyItemId)
  | none => (i.passwordItemId.filter fun s => s ≠ "").map (.vaultPassword vault)

def resolvePersonalAuth (host : HopRef) (currentDestination : String) : Option AuthMethod := do
  let v ← openVault st (← bindingVaultIn st host false)
  let b ← v.bindings host
  guard (b.destinationPin = currentDestination)
  credential v.vaultId (← v.identities.find? fun i => i.identityId = b.identityItemId)

variable (trim : String → String) (vaultId : String)

/-- A personal host with the login bound to it; other hosts hand out nothing of the account's. -/
def personalTarget (p : ConnectionProfile) : Option (ConnectionProfile × AuthMethod) := do
  guard (p.auth = .personal)
  return (p, ← resolvePersonalAuth st ⟨vaultId, p.uid⟩ (destination trim p))

def getConnection (vaultId profileId : String) : Option ConnectionProfile :=
  (listConnections st vaultId).find? fun p => p.profileId = profileId

def resolveConnection (profileId : String) : Option (ConnectionProfile × AuthMethod) := do
  let p ← getConnection st vaultId profileId
  guard (p.jumps.all fun j => j.hopRef.all fun r => r.vaultId = vaultId)
  personalTarget st trim vaultId p

def selectTargetsByTags (tagsMatch : ConnectionProfile → Bool) :
    List (ConnectionProfile × AuthMethod) :=
  ((listConnections st vaultId).filter tagsMatch).filterMap (personalTarget st trim vaultId)

def resolveGroup (memberIds : List String) : List (ConnectionProfile × AuthMethod) :=
  (memberIds.filterMap (getConnection st vaultId)).filterMap (personalTarget st trim vaultId)

/-- The three ways to a personal host's login. -/
def HandsOut (out : ConnectionProfile × AuthMethod) : Prop :=
  (∃ id, resolveConnection st trim vaultId id = some out) ∨
    (∃ tagsMatch, out ∈ selectTargetsByTags st trim vaultId tagsMatch) ∨
      ∃ ids, out ∈ resolveGroup st trim vaultId ids

def hopRefInOwnVault (j : JumpHost) (r : HopRef) : Bool :=
  match j.auth with
  | .agent vaultId _ | .vaultPassword vaultId _ => vaultId = r.vaultId
  | .password _ | .systemAgent _ => false

def canBeAHop : ProfileAuth → Bool
  | .key _ | .vaultPassword _ | .systemAgent _ => true
  | .promptPassword | .personal => false

/-- A hop, with the proxy of the host it refers to. -/
def resolveHop (j : JumpHost) : Option (HopRoute × Option ProxyConfig) :=
  match j.hopRef with
  | none => some (j.written, none)
  | some r => do
    guard (hopRefInOwnVault j r)
    let q ← resolveProfileByUid st r
    guard (canBeAHop q.auth)
    return (⟨q.host, q.port, q.user⟩, q.proxy)

/-- The route a connect to a host as it was handed out dials. -/
def connectRoute (p : ConnectionProfile) : Option Route := do
  let chain ← p.jumps.mapM (resolveHop st)
  -- The host's own proxy wins over the one of the first hop.
  let first := p.proxy.or (chain.head?.bind Prod.snd)
  return ⟨p.host, p.port, chain.map Prod.fst, first.map ProxyConfig.route⟩

/-! ## Linking an identity when a host is saved -/

structure IdentityLink where
  vaultId : String
  identityId : String

structure Link where
  identity : IdentityLink
  existing : Option IdentityBinding

def linkToPin (host : HopRef) (personal editing : Bool) : Option IdentityLink → Option Link
  | some given => some ⟨given, if editing then bindingIn st given.vaultId host else none⟩
  | none => do
    guard (personal && editing)
    let id ← bindingVaultIn st host true
    let b ← bindingIn st id host
    return ⟨⟨id, b.identityItemId⟩, some b⟩

/-- A pin that differs from where the host pointed before the save stays. -/
def keptPin (link : Link) (pinnedBefore : Option String) (movePin : Bool) : Option String :=
  (link.existing.map IdentityBinding.destinationPin).filter fun was =>
    !movePin && pinnedBefore.any fun pinned => pinned ≠ was

def writeHost (vaultId : String) (p : ConnectionProfile) : List HostVault :=
  updateVault st vaultId fun v =>
    { v with profiles := v.profiles.filter (fun h => h.profileId ≠ p.profileId) ++ [p] }

end Vaults

/-! ## Moving a vault -/

/-- A local vault on its way to a cloud id, with the uids of the hosts it holds. -/
structure VaultMove where
  old : String
  new : String
  profileUids : List String

namespace VaultMove

variable (m : VaultMove)

def holds (r : HopRef) : Bool := r.vaultId = m.old && m.profileUids.contains r.profileUid

def repointToken (token : List Char) : List Char :=
  let lead := if "via=".toList.isPrefixOf token then "via=".toList else []
  match (token.drop lead.length).dropPrefix? ("ref=".toList ++ m.old.toList ++ ['/']) with
  | some uid =>
    if m.profileUids.contains (String.ofList uid) then
      lead ++ "ref=".toList ++ m.new.toList ++ '/' :: uid
    else token
  | none => token

/-- A pin with its references to hosts of the vault following it. -/
def repointPin (pin : String) : String :=
  String.ofList <| ['|'].intercalate <| (pin.toList.splitOn '|').map fun segment =>
    ['>'].intercalate ((segment.splitOn '>').map m.repointToken)

/-- The name a host had before the move. -/
def before (r : HopRef) : HopRef :=
  if r.vaultId = m.new && m.profileUids.contains r.profileUid then ⟨m.old, r.profileUid⟩ else r

/-- `rehome_reference` on every item of a vault; bindings are keyed by the host they bind. -/
def rehomeReferences (v : HostVault) : HostVault :=
  { v with
    profiles := v.profiles.map fun p =>
      { p with
        jumps := p.jumps.map fun j =>
          { j with
            hopRef := j.hopRef.map fun r => if m.holds r then ⟨m.new, r.profileUid⟩ else r } }
    bindings := fun h =>
      if m.holds h then none
      else (v.bindings (m.before h)).map fun b =>
        { b with destinationPin := m.repointPin b.destinationPin } }

end VaultMove

/-! ## Histories -/

/-- What the account pinned: an identity, the host as it was then and its route. -/
structure Pinned where
  identityItemId : String
  profile : ConnectionProfile
  route : Option Route

/-- The vaults, the account's last pin of each binding, and where it last pinned each host. -/
structure World where
  vaults : List HostVault
  pins : String → HopRef → Option Pinned
  last : HopRef → Option String

inductive Operation where
  | setBinding (id : String) (host : HopRef) (identityId : String) (allowRebind : Bool)
  | deleteBinding (id : String) (host : HopRef)
  /-- A save that passed its checks, with the host as it is stored. -/
  | saveHost (vaultId : String) (p : ConnectionProfile) (identity : Option IdentityLink)
      (movePin : Bool)
  /-- A move, with the new id's place in the listing and the vaults the account may only view. -/
  | convertVaultToCloud (old new : String) (place : Nat) (viewed : List String)
  | othersHosts (vaultId : String) (profiles : List ConnectionProfile)
  | othersIdentities (vaultId : String) (identities : List Identity)
  | othersBinding (vaultId : String) (host : HopRef) (b : Option IdentityBinding)

namespace World

variable (trim : String → String) (w : World)

def pin (id : String) (host : HopRef) (b : Option IdentityBinding) (pinned : Option Pinned) :
    World where
  vaults := writeBinding w.vaults id host b
  pins v h := if v = id ∧ h = host then pinned else w.pins v h
  last h := if b.isSome ∧ h = host then some id else w.last h

def move (m : VaultMove) (v : HostVault) (place : Nat) (viewed : List String) : World :=
  let others := (w.vaults.filter fun u => u.vaultId ≠ m.old).map fun u =>
    if u.vaultId ∈ viewed then u else m.rehomeReferences u
  { vaults :=
      others.take place ++ { m.rehomeReferences v with vaultId := m.new } :: others.drop place
    pins := fun id h =>
      if id = m.new then w.pins m.old (m.before h)
      else w.pins id (if id ∈ viewed then h else m.before h)
    last := fun h => (w.last (m.before h)).map fun id => if id = m.old then m.new else id }

/-- Others write a vault only if it is shared. -/
def others (id : String) (f : HostVault → HostVault) : World :=
  { w with vaults := updateVault w.vaults id fun v => if v.isShared then f v else v }

def pinIdentity (host : HopRef) (p : ConnectionProfile) (link : Link)
    (pinnedBefore : Option String) (movePin : Bool) : World :=
  let kept := keptPin link pinnedBefore movePin
  let b : IdentityBinding := ⟨link.identity.identityId, kept.getD (destination trim p)⟩
  if link.existing = some b ∨ !mayPut w.vaults link.identity.vaultId host b.destinationPin true then w
  else w.pin link.identity.vaultId host b <| match kept with
    | some _ => (w.pins link.identity.vaultId host).map fun pinned =>
      { pinned with identityItemId := link.identity.identityId }
    | none => some ⟨link.identity.identityId, p, connectRoute w.vaults p⟩

def step : Operation → World
  | .setBinding id host identityId allowRebind =>
    match resolveProfileByUid w.vaults host with
    | some p =>
      if mayPut w.vaults id host (destination trim p) allowRebind then
        w.pin id host (some ⟨identityId, destination trim p⟩)
          (some ⟨identityId, p, connectRoute w.vaults p⟩)
      else w
    | none => w
  | .deleteBinding id host => w.pin id host none none
  | .saveHost vaultId p identity movePin =>
    let before := (listConnections w.vaults vaultId).find? fun h => h.profileId = p.profileId
    -- An edit keeps the uid.
    let p := storedToProfile vaultId
      { p with uid := (before.map ConnectionProfile.uid).getD p.uid }
    let host := ⟨vaultId, p.uid⟩
    let saved := { w with vaults := writeHost w.vaults vaultId p }
    match linkToPin w.vaults host (p.auth = .personal) before.isSome identity with
    | some link => saved.pinIdentity trim host p link (before.map (destination trim)) movePin
    | none => saved
  | .convertVaultToCloud old new place viewed =>
    match openVault w.vaults old with
    | some v =>
      let m : VaultMove := ⟨old, new, v.profiles.map ConnectionProfile.uid⟩
      -- Only local vaults move, and to an id that is fresh.
      if v.isShared || w.vaults.any fun u =>
          u.vaultId = new || m.profileUids.any fun uid => (u.bindings ⟨new, uid⟩).isSome then w
      else w.move m v place viewed
    | none => w
  | .othersHosts id profiles => w.others id fun v => { v with profiles }
  | .othersIdentities id identities => w.others id fun v => { v with identities }
  | .othersBinding id host b => w.others id fun v =>
    { v with bindings := fun h => if h = host then b else v.bindings h }

def run (history : List Operation) : World := history.foldl (step trim) w

end World

def Moves (history : List Operation) : Prop :=
  ∃ old new place viewed, .convertVaultToCloud old new place viewed ∈ history

/-- One vault at most holds a binding of a host. -/
def OneVault (names : HopRef → Prop) (w : World) : Prop :=
  ∀ h, names h → ∀ v ∈ w.vaults, ∀ u ∈ w.vaults, v.bindings h ≠ none → u.bindings h ≠ none →
    v.vaultId = u.vaultId

/-- No part of the host's pin reads as a reference that a move would change. -/
def Unreferring (trim : String → String) (p : ConnectionProfile) : Prop :=
  ∀ m : VaultMove, m.repointPin (destination trim p) = destination trim p

/-! ## What a binding says about the last pin -/

section Bound

variable {trim : String → String} {names : HopRef → Prop} {moves alone : Prop} {w : World}
  {p : ConnectionProfile}

theorem connectRoute_plain (st : List HostVault) (plain : p.Plain trim) :
    connectRoute st p = some p.writtenRoute := by
  have chain : ∀ jumps : List JumpHost, (∀ j ∈ jumps, j.Plain) →
      jumps.mapM (resolveHop st) = some (jumps.map fun j => (j.written, none)) := by
    intro jumps plain
    induction jumps with
    | nil => rfl
    | cons j _ ih =>
      obtain ⟨isPlain, others⟩ := forall_mem_cons.mp plain
      have hop : resolveHop st j = some (j.written, none) := by
        rw [resolveHop, isPlain.unreferenced]
      rw [mapM_cons, hop, ih others]
      rfl
  rw [connectRoute, chain p.jumps plain.hops, ConnectionProfile.writtenRoute]
  cases p.jumps <;> simp [Function.comp_def]

/-- A binding as the account pinned it. -/
structure PinnedAs (trim : String → String) (moves : Prop) (b : IdentityBinding)
    (pinned : Pinned) : Prop where
  identity : pinned.identityItemId = b.identityItemId
  pin : (moves → Unreferring trim pinned.profile) →
    b.destinationPin = destination trim pinned.profile
  route : pinned.profile.Plain trim → pinned.route = some pinned.profile.writtenRoute

theorem PinnedAs.new (identityItemId : String) (p : ConnectionProfile) (st : List HostVault) :
    PinnedAs trim moves ⟨identityItemId, destination trim p⟩
      ⟨identityItemId, p, connectRoute st p⟩ :=
  ⟨rfl, fun _ => rfl, connectRoute_plain st⟩

/-- Every binding of the host is as the account pinned it last. -/
def Bound (trim : String → String) (moves alone : Prop) (names : HopRef → Prop) (w : World) :
    Prop :=
  ∀ h, names h → ∀ v ∈ w.vaults, ∀ b, v.bindings h = some b →
    (∃ pinned ∈ w.pins v.vaultId h, PinnedAs trim moves b pinned) ∧
      (alone → w.last h = some v.vaultId)

variable {f : HostVault → HostVault} {st : List HostVault} {link : Link} {auth : AuthMethod}
  {id : String}

/-- Writes that make no binding of the host. -/
theorem Bound.update (bound : Bound trim moves alone names w) (id : String)
    (sameId : ∀ v, (f v).vaultId = v.vaultId)
    (kept : ∀ v h b, names h → (f v).bindings h = some b → v.bindings h = some b) :
    Bound trim moves alone names { w with vaults := updateVault w.vaults id f } := by
  intro h named _ member b found
  obtain ⟨v, isVault, rfl⟩ := mem_map.mp member
  split at found
  · rw [if_pos ‹_›, sameId]
    exact bound h named v isVault b (kept v h b named found)
  · rw [if_neg ‹_›]
    exact bound h named v isVault b found

theorem Bound.others (bound : Bound trim moves alone names w) (id : String)
    (sameId : ∀ v, (f v).vaultId = v.vaultId)
    (kept : ∀ v h b, names h → (f v).bindings h = some b → v.bindings h = some b) :
    Bound trim moves alone names (w.others id f) := by
  refine bound.update id (fun v => ?_) fun v h b named found => ?_
  · split
    · exact sameId v
    · rfl
  · split at found
    · exact kept v h b named found
    · exact found

theorem pin_member (member : v ∈ (w.pin id h b pinned).vaults) :
    ∃ u ∈ w.vaults, v.vaultId = u.vaultId ∧
      ∀ g, v.bindings g = if u.vaultId = id ∧ g = h then b else u.bindings g := by
  obtain ⟨u, isVault, rfl⟩ := mem_map.mp member
  refine ⟨u, isVault, ?_, fun g => ?_⟩
  · split <;> rfl
  · by_cases isIt : u.vaultId = id <;> simp [isIt]

theorem Bound.pin (bound : Bound trim moves alone names w) (id : String) (h : HopRef)
    (pinnedAs : names h → ∀ b' ∈ b, ∃ p ∈ pinned, PinnedAs trim moves b' p)
    (one : alone → b.isSome → names h → ∀ v ∈ w.vaults, v.bindings h ≠ none → v.vaultId = id) :
    Bound trim moves alone names (w.pin id h b pinned) := by
  intro g named v member b' found
  obtain ⟨u, isVault, sameId, bindings⟩ := pin_member member
  rw [bindings] at found
  rw [sameId]
  by_cases written : u.vaultId = id ∧ g = h
  · rw [if_pos written] at found
    obtain ⟨rfl, rfl⟩ := written
    simp only [World.pin, and_self, if_true, found]
    exact ⟨pinnedAs named b' found, fun _ => rfl⟩
  rw [if_neg written] at found
  obtain ⟨isPinned, isLast⟩ := bound g named u isVault b' found
  simp only [World.pin, if_neg written]
  refine ⟨isPinned, fun only => ?_⟩
  split
  · next pins =>
    obtain ⟨isNew, rfl⟩ := pins
    rw [one only isNew named u isVault (found ▸ nofun)]
  · exact isLast only

theorem OneVault.pin (one : OneVault names (w.pin id h (some b) pinned)) (named : names h)
    (opened : (openVault w.vaults id).isSome) (member : v ∈ w.vaults) (bound : v.bindings h ≠ none) :
    v.vaultId = id := by
  obtain ⟨u, isVault, isId⟩ := find?_isSome.mp opened
  by_contra other
  have written : (if u.vaultId = id then
      { u with bindings := fun g => if g = h then some b else u.bindings g } else u) ∈
        (w.pin id h (some b) pinned).vaults := mem_map.mpr ⟨u, isVault, rfl⟩
  rw [if_pos (of_decide_eq_true isId)] at written
  have kept : v ∈ (w.pin id h (some b) pinned).vaults :=
    mem_map.mpr ⟨v, member, if_neg other⟩
  exact other ((one h named v kept _ written bound (by simp)).trans (of_decide_eq_true isId))

theorem mem_of_openVault {id : String} (opened : openVault st id = some v) :
    v ∈ st ∧ v.vaultId = id :=
  ⟨mem_of_find?_eq_some opened, by simpa using find?_some opened⟩

theorem linkToPin_existing (linked : linkToPin st host personal editing given = some link)
    (existing : link.existing = some b) :
    ∃ v ∈ st, v.vaultId = link.identity.vaultId ∧ v.bindings host = some b := by
  have found : bindingIn st link.identity.vaultId host = some b := by
    cases given with
    | some =>
      cases linked
      exact (ite_eq_iff.mp existing).elim And.right fun none => nomatch none.2
    | none =>
      simp only [linkToPin, Option.bind_eq_bind, Option.bind_eq_some_iff] at linked
      obtain ⟨_, -, _, -, _, found, made⟩ := linked
      cases made
      cases existing
      exact found
  obtain ⟨v, opened, bound⟩ := Option.bind_eq_some_iff.mp found
  exact ⟨v, (mem_of_openVault opened).1, (mem_of_openVault opened).2, bound⟩

theorem opened_of_mayPut (puts : mayPut st id h pin allowRebind = true) :
    (openVault st id).isSome := by
  simp only [mayPut, Bool.and_eq_true] at puts
  exact puts.1.2

theorem Bound.pinIdentity (bound : Bound trim moves alone names w)
    (linked : ∀ b, link.existing = some b →
      ∃ v ∈ w.vaults, v.vaultId = link.identity.vaultId ∧ v.bindings h = some b)
    (one : alone → OneVault names (w.pinIdentity trim h p link pinnedBefore movePin)) :
    Bound trim moves alone names (w.pinIdentity trim h p link pinnedBefore movePin) := by
  revert one
  unfold World.pinIdentity
  dsimp only
  split
  · exact fun _ => bound
  next puts =>
  intro one
  have opened := opened_of_mayPut (by simpa using (not_or.mp puts).2)
  refine bound.pin _ _ (fun named b isNew => ?_) fun only _ named v member =>
    (one only).pin named opened member
  cases isNew
  cases kept : keptPin link pinnedBefore movePin with
  | none => exact ⟨_, rfl, .new _ p _⟩
  | some =>
    obtain ⟨b, existing, rfl⟩ := Option.map_eq_some_iff.mp (Option.filter_eq_some_iff.mp kept).1
    obtain ⟨v, member, sameId, found⟩ := linked b existing
    obtain ⟨⟨pinned, last, as⟩, -⟩ := bound h named v member b found
    rw [sameId] at last
    exact ⟨_, Option.mem_map.mpr ⟨pinned, last, rfl⟩, rfl, as.pin, as.route⟩

/-- A move takes the bindings and the account's pins along. -/
theorem Bound.move (bound : Bound trim moves alone names w) (m : VaultMove) (moved : moves)
    (closed : ∀ h, names h → names ⟨m.old, h.profileUid⟩)
    (isVault : v ∈ w.vaults) (isOld : v.vaultId = m.old)
    (fresh : ∀ u ∈ w.vaults, u.vaultId ≠ m.new ∧
      ∀ uid ∈ m.profileUids, u.bindings ⟨m.new, uid⟩ = none)
    (place : Nat) (viewed : List String) :
    Bound trim moves alone names (w.move m v place viewed) := by
  intro h named u member b found
  have rehomed {x : HostVault} (isVault : x ∈ w.vaults)
      (found : (m.rehomeReferences x).bindings h = some b) :
      (∃ pinned ∈ w.pins x.vaultId (m.before h), PinnedAs trim moves b pinned) ∧
        (alone → w.last (m.before h) = some x.vaultId) := by
    have named : names (m.before h) := by
      unfold VaultMove.before
      split
      · exact closed h named
      · exact named
    obtain ⟨b, isBinding, rfl⟩ := Option.map_eq_some_iff.mp
      ((ite_eq_iff.mp found).resolve_left fun none => nomatch none.2).2
    obtain ⟨⟨pinned, last, as⟩, isLast⟩ := bound _ named x isVault b isBinding
    refine ⟨⟨pinned, last, as.identity, fun settled => ?_, as.route⟩, isLast⟩
    dsimp only
    rw [as.pin settled, settled moved m]
  have members : u = { m.rehomeReferences v with vaultId := m.new } ∨
      ∃ x ∈ w.vaults, x.vaultId ≠ m.old ∧
        (if x.vaultId ∈ viewed then x else m.rehomeReferences x) = u := by
    rcases mem_append.mp member with inside | inside
    · exact .inr (by simpa [and_assoc] using mem_of_mem_take inside)
    rcases mem_cons.mp inside with isNew | inside
    · exact .inl isNew
    · exact .inr (by simpa [and_assoc] using mem_of_mem_drop inside)
  obtain rfl | ⟨x, isOther, notOld, rfl⟩ := members
  · obtain ⟨isPinned, isLast⟩ := rehomed isVault found
    rw [isOld] at isPinned isLast
    exact ⟨by simpa [World.move] using isPinned, fun only => by simp [World.move, isLast only]⟩
  obtain ⟨notNew, unnamed⟩ := fresh x isOther
  by_cases views : x.vaultId ∈ viewed
  · rw [if_pos views] at found ⊢
    obtain ⟨isPinned, isLast⟩ := bound h named x isOther b found
    have same : m.before h = h := by
      refine if_neg fun renamed => ?_
      obtain ⟨isNew, listed⟩ := (Bool.and_eq_true _ _).mp renamed
      have none := unnamed h.profileUid (contains_iff_mem.mp listed)
      rw [← of_decide_eq_true isNew, found] at none
      cases none
    exact ⟨by simpa [World.move, notNew, views] using isPinned,
      fun only => by simp [World.move, same, isLast only, notOld]⟩
  · rw [if_neg views] at found ⊢
    obtain ⟨isPinned, isLast⟩ := rehomed isOther found
    exact ⟨by simpa [World.move, VaultMove.rehomeReferences, notNew, views] using isPinned,
      fun only => by simp [World.move, VaultMove.rehomeReferences, isLast only, notOld]⟩

/-- Others bind no host of these names, and the names are those a move leaves and takes up. -/
def Operation.Spares (moves : Prop) (names : HopRef → Prop) : Operation → Prop
  | .othersBinding _ h (some _) => ¬ names h
  | .convertVaultToCloud old _ _ _ => moves ∧ ∀ h, names h → names ⟨old, h.profileUid⟩
  | _ => True

theorem Bound.step (bound : Bound trim moves alone names w) (spares : op.Spares moves names) :
    (alone → OneVault names (w.step trim op)) → Bound trim moves alone names (w.step trim op) := by
  cases op with
  | setBinding id h =>
    simp only [World.step]
    split
    · split
      · next puts =>
        intro one
        refine bound.pin _ _ (fun _ b isNew => ?_) fun only _ named v member =>
          (one only).pin named (opened_of_mayPut puts) member
        cases isNew
        exact ⟨_, rfl, .new _ _ _⟩
      · exact fun _ => bound
    · exact fun _ => bound
  | deleteBinding => exact fun _ => bound.pin _ _ (fun _ _ isNew => nomatch isNew) nofun
  | saveHost vaultId p =>
    have saved (p : ConnectionProfile) :
        Bound trim moves alone names { w with vaults := writeHost w.vaults vaultId p } :=
      bound.update _ (fun _ => rfl) fun _ _ _ _ => id
    simp only [World.step]
    split
    · next linked =>
      refine (saved _).pinIdentity fun b existing => ?_
      obtain ⟨v, member, sameId, found⟩ := linkToPin_existing linked existing
      refine ⟨_, mem_map.mpr ⟨v, member, rfl⟩, ?_, ?_⟩
      · split <;> exact sameId
      · split <;> exact found
    · exact fun _ => saved _
  | convertVaultToCloud old new place viewed =>
    intro _
    simp only [World.step]
    split
    · next v opened =>
      split
      · exact bound
      · next fresh =>
        obtain ⟨isVault, isOld⟩ := mem_of_openVault opened
        refine bound.move _ spares.1 spares.2 isVault isOld (fun u member => ?_) place viewed
        simp_all
    · exact bound
  | othersHosts id => exact fun _ => bound.others id (fun _ => rfl) fun _ _ _ _ found => found
  | othersIdentities id =>
    exact fun _ => bound.others id (fun _ => rfl) fun _ _ _ _ found => found
  | othersBinding id h' b' =>
    intro _
    refine bound.others id (fun _ => rfl) fun v h b named found => ?_
    dsimp only at found
    split at found
    · next same =>
      subst same found
      exact absurd named spares
    · exact found

theorem Bound.run (bound : Bound trim moves alone names w)
    (spares : ∀ op ∈ history, op.Spares moves names)
    (one : alone → ∀ k, OneVault names (w.run trim (history.take k))) :
    Bound trim moves alone names (w.run trim history) := by
  induction history generalizing w with
  | nil => exact bound
  | cons op _ ih =>
    obtain ⟨first, others⟩ := forall_mem_cons.mp spares
    exact ih (bound.step first fun only => one only 1) others fun only k => one only (k + 1)

theorem HandsOut.resolved (handed : HandsOut st trim vaultId (p, auth)) :
    resolvePersonalAuth st ⟨vaultId, p.uid⟩ (destination trim p) = some auth := by
  obtain ⟨q, target⟩ : ∃ q, personalTarget st trim vaultId q = some (p, auth) := by
    obtain ⟨_, handed⟩ | ⟨_, handed⟩ | ⟨_, handed⟩ := handed
    · simp only [resolveConnection, Option.bind_eq_bind, Option.bind_eq_some_iff] at handed
      obtain ⟨q, -, _, -, target⟩ := handed
      exact ⟨q, target⟩
    · obtain ⟨q, -, target⟩ := mem_filterMap.mp handed
      exact ⟨q, target⟩
    · obtain ⟨q, -, target⟩ := mem_filterMap.mp handed
      exact ⟨q, target⟩
  simp only [personalTarget, Option.bind_eq_bind, Option.bind_eq_some_iff] at target
  obtain ⟨_, -, _, resolved, made⟩ := target
  cases made
  exact resolved

end Bound

namespace Sample

def host : HopRef := ⟨"team", "web"⟩

def bastion (address : String) : ConnectionProfile :=
  ⟨"bastion", "bastion", "bastion", address, 22, "jump", .key "key", none, [], none⟩

def web (jumps : List JumpHost) (proxy : Option ProxyConfig) : ConnectionProfile :=
  ⟨"web", "web", "web", "10.0.0.7", 22, "", .personal, none, jumps, proxy⟩

/-- A host behind a hop of its own and a proxy. -/
def direct : ConnectionProfile :=
  web [⟨"10.0.0.2", 22, "jump", .agent "team" "key", none⟩]
    (some ⟨.socks5, "10.0.0.3", 1080, some "me", none⟩)

/-- An identity of the account's own, and the hosts of a team. -/
def start (profiles : List ConnectionProfile) : World :=
  ⟨[⟨"mine", false, [], fun _ => none, [⟨"me", some "key", none⟩]⟩,
    ⟨"team", true, profiles, fun _ => none, []⟩], fun _ _ => none, fun _ => none⟩

def binds : Operation := .setBinding "mine" host "me" false

end Sample

end UniSsh.Personal
