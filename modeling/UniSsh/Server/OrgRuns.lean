import UniSsh.Server.Org

/-!
# Runs of requests on accounts and spaces

`Safe` says what a statement takes for granted, and `Evolves` what no statement undoes: every
statement is executed where it is safe (`process_sound`), and what safe statements keep holds in
every run.
-/

namespace UniSsh.Server

open Org List Option

/-! ## What a run keeps -/

/-- The parts of an account that never change. -/
structure AccountRow.SameIdentity (a b : AccountRow) : Prop where
  keys : b.keys = a.keys
  external : b.external = a.external

instance : Std.Refl AccountRow.SameIdentity := ⟨fun _ => ⟨rfl, rfl⟩⟩

instance : IsTrans AccountRow AccountRow.SameIdentity :=
  ⟨fun _ _ _ first second =>
    ⟨second.keys.trans first.keys, second.external.trans first.external⟩⟩

namespace Org

/-- Accounts and devices stay, and no account that exists becomes the claim owner. -/
structure Evolves (org org' : Org) : Prop where
  accounts : Table.Grows AccountRow.SameIdentity org.accounts org'.accounts
  devices : Table.Grows (· = ·) org.devices org'.devices
  notOwner : ∀ (id : Bytes) account, org.accounts[id]? = some account →
    org.claimOwner ≠ some id → org'.claimOwner ≠ some id

instance : Std.Refl Evolves where
  refl _ := ⟨Table.Grows.refl _, Table.Grows.refl _, fun _ _ _ other => other⟩

instance : IsTrans Org Evolves where
  trans _ _ _ first second :=
    ⟨first.accounts.trans second.accounts, first.devices.trans second.devices,
      fun id account found other => by
        obtain ⟨account', found', -⟩ := first.accounts id account found
        exact second.notOwner id account' found' (first.notOwner id account found other)⟩

/-- The tables of identities are as they were. -/
structure SameIdentities (org org' : Org) : Prop where
  accounts : org'.accounts = org.accounts
  devices : org'.devices = org.devices
  sessions : org'.sessions = org.sessions
  claimOwner : org'.claimOwner = org.claimOwner

instance : Std.Refl SameIdentities := ⟨fun _ => ⟨rfl, rfl, rfl, rfl⟩⟩

instance : IsTrans Org SameIdentities where
  trans _ _ _ first second :=
    ⟨second.accounts.trans first.accounts, second.devices.trans first.devices,
      second.sessions.trans first.sessions, second.claimOwner.trans first.claimOwner⟩

theorem SameIdentities.evolves {org org' : Org} (same : org.SameIdentities org') :
    org.Evolves org' where
  accounts := same.accounts ▸ Table.Grows.refl _
  devices := same.devices ▸ Table.Grows.refl _
  notOwner _ _ _ other := by rwa [same.claimOwner]

end Org

/-! ## Statements in their places -/

/-- What a statement takes for granted. -/
def Safe (org : Org) : OrgStatement → Prop
  | .createDevice accountId _ keys =>
    ∃ account, org.accounts[accountId]? = some account ∧ account.keys = keys
  | .createSession _ accountId deviceId => ∀ device,
      org.devices[deviceId]? = some device → device.accountId = accountId
  | .claim e _ => e.isNew = true
  | .join _ e _ => e.isNew = false →
      ∃ account, org.accounts[e.accountId]? = some account ∧
        account.keys.ed25519Pub = e.keys.ed25519Pub
  | .oidc _ external e _ => e.isNew = false →
      ∃ account, org.accounts[e.accountId]? = some account ∧ account.external = some external
  | .setStatus accountId active => active = false →
      (∃ account, org.accounts[accountId]? = some account) ∧ org.claimOwner ≠ some accountId
  | .setOwner accountId isOwner => isOwner = false →
      (∃ account, org.accounts[accountId]? = some account) ∧ org.claimOwner ≠ some accountId
  | _ => True

namespace Org

variable {org org' : Org}

/-! ## The parts of transactions -/

theorem require_bind_eq_ok {α : Type} {condition : Bool} {failure : AppError}
    {next : Unit → Except AppError α} {a : α} :
    (require condition failure >>= next) = .ok a ↔ condition = true ∧ next () = .ok a := by
  cases condition <;> simp [require]

variable {spaceId accountId : Bytes} {row : SpaceMember}

theorem insertMember_eq_ok :
    org.insertMember spaceId accountId row = .ok org' ↔
      (spaceId ∈ org.spaces ∧ org.accounts[accountId]?.isSome) ∧
        { org with members := org.members.insert (spaceId, accountId) row } = org' := by
  rw [insertMember, require_bind_eq_ok, decide_eq_true_eq, Except.ok.injEq]

variable {role : SpaceRole}

theorem addEdge_eq_ok (added : org.addEdge spaceId accountId role = .ok org') :
    org' = org ∨ org.members[(spaceId, accountId)]? = none ∧
      org.insertMember spaceId accountId ⟨role, .manual⟩ = .ok org' := by
  unfold addEdge at added
  split at added
  · exact .inl (Except.ok.inj added).symm
  · next absent => exact .inr ⟨absent, added⟩

theorem insertMember_same (added : org.insertMember spaceId accountId row = .ok org') :
    org.SameIdentities org' := by
  obtain ⟨-, rfl⟩ := insertMember_eq_ok.mp added
  exact ⟨rfl, rfl, rfl, rfl⟩

theorem addEdge_same (added : org.addEdge spaceId accountId role = .ok org') :
    org.SameIdentities org' := by
  obtain rfl | ⟨-, inserted⟩ := addEdge_eq_ok added
  · exact refl_of _ _
  · exact insertMember_same inserted

theorem upsertOidc_same (added : org.upsertOidc accountId spaceId role = .ok org') :
    org.SameIdentities org' := by
  unfold upsertOidc at added
  split at added
  · cases added
    exact refl_of _ _
  · exact insertMember_same added

theorem deleteOidc_same (org : Org) (spaceId : Bytes) :
    org.SameIdentities (deleteOidc accountId org spaceId) := by
  unfold deleteOidc
  split
  · exact ⟨rfl, rfl, rfl, rfl⟩
  · exact refl_of _ _

theorem enqueue_same (org : Org) (action : PendingAction) :
    org.SameIdentities (org.enqueue action) :=
  ⟨rfl, rfl, rfl, rfl⟩

variable {now : Int64}

theorem enqueueSpaceWideGrants_same :
    org.SameIdentities (org.enqueueSpaceWideGrants spaceId accountId now) := by
  refine foldl_rel (fun org vault => ?_) _ _
  unfold enqueueMissing
  split
  · exact refl_of _ _
  split
  · exact refl_of _ _
  · exact enqueue_same _ _

/-- What an enrolment writes. -/
structure Enrols (e : Enrolment) (isOwner : Bool) (external : Option (Bytes × Bytes))
    (org org' : Org) : Prop where
  account : e.isNew = false ∧ org'.accounts = org.accounts ∨
    e.isNew = true ∧ org.accounts[e.accountId]? = none ∧
      (∀ (id : Bytes) account, org.accounts[id]? = some account →
        account.keys.ed25519Pub ≠ e.keys.ed25519Pub) ∧
      org'.accounts = org.accounts.insert e.accountId
        { keys := e.keys, isOwner, active := true, external }
  exists_ : org'.accounts[e.accountId]?.isSome
  free : org.devices[e.deviceId]? = none
  devices : org'.devices = org.devices.insert e.deviceId { accountId := e.accountId, keys := e.keys }
  rest : { org with accounts := org'.accounts, devices := org'.devices } = org'

variable {ed25519Pub deviceId : Bytes} {account : AccountRow} {keys : Registration}

theorem accountByEd_eq_some {id : Bytes} (found : org.accountByEd ed25519Pub = some (id, account)) :
    org.accounts[id]? = some account ∧ account.keys.ed25519Pub = ed25519Pub := by
  refine ⟨mem_toList_iff_getElem?_eq_some.mp (mem_of_find?_eq_some found), ?_⟩
  simpa using find?_some found

theorem createDevice_eq_ok :
    org.createDevice accountId deviceId keys = .ok org' ↔
      org.devices[deviceId]?.isNone = true ∧ org.accounts[accountId]?.isSome = true ∧
        { org with devices := org.devices.insert deviceId { accountId, keys } } = org' := by
  rw [createDevice, require_bind_eq_ok, require_bind_eq_ok, Except.ok.injEq]

variable {isOwner : Bool} {external : Option (Bytes × Bytes)} {e : Enrolment} {token : Bytes}
  {now : Int64} {invite : Invite}

theorem enrol_enrols (ran : org.enrol e isOwner external = .ok org') :
    Enrols e isOwner external org org' := by
  obtain ⟨_, account, device⟩ := bind_eq_ok.mp ran
  obtain ⟨free, present, rfl⟩ := createDevice_eq_ok.mp device
  cases isNew : e.isNew with
  | false =>
    rw [ensureAccount, isNew, if_neg Bool.false_ne_true] at account
    cases account
    exact ⟨.inl ⟨isNew, rfl⟩, present, isNone_iff_eq_none.mp free, rfl, rfl⟩
  | true =>
    rw [ensureAccount, isNew, if_pos rfl] at account
    obtain ⟨unique, wrote⟩ := require_bind_eq_ok.mp account
    simp only [Bool.decide_and, Bool.and_eq_true, decide_eq_true_eq, isNone_iff_eq_none] at unique
    obtain ⟨absent, unused, -⟩ := unique
    cases wrote
    refine ⟨.inr ⟨isNew, absent, fun id account found => ?_, rfl⟩, present,
      isNone_iff_eq_none.mp free, rfl, rfl⟩
    have other := find?_eq_none.mp unused (id, account) (mem_toList_iff_getElem?_eq_some.mpr found)
    simpa using other

theorem Enrols.grows (enrols : Enrols e isOwner external org org') :
    Table.Grows AccountRow.SameIdentity org.accounts org'.accounts ∧
      Table.Grows (· = ·) org.devices org'.devices := by
  constructor
  · obtain ⟨-, same⟩ | ⟨-, absent, -, inserted⟩ := enrols.account
    · exact same ▸ Table.Grows.refl _
    · rw [inserted]
      exact Table.Grows.insert fun row found => nomatch absent.symm.trans found
  · rw [enrols.devices]
    exact Table.Grows.insert fun row found => nomatch enrols.free.symm.trans found

theorem Enrols.evolves (enrols : Enrols e isOwner external org org') : org.Evolves org' where
  accounts := enrols.grows.1
  devices := enrols.grows.2
  notOwner id account found other := by rwa [← enrols.rest]

/-! ## Transactions -/

theorem redeem_eq_ok (ran : org.redeem token now = .ok (invite, org')) :
    org.invites[token]? = some invite ∧
      { org with invites := org.invites.insert token { invite with redeemed := true } } = org' := by
  obtain ⟨_, open_, wrote⟩ := bind_eq_ok.mp ran
  obtain ⟨rfl, rfl⟩ := Prod.mk.inj (Except.ok.inj wrote)
  exact ⟨(filter_eq_some_iff.mp (okOr_eq_ok.mp open_)).1, rfl⟩

/-- A join redeems its invite, enrols, and then changes memberships and actions only. -/
theorem joinTx_eq_ok (ran : org.joinTx token e now = .ok org') :
    ∃ invite redeemed enrolled joined,
      org.redeem token now = .ok (invite, redeemed) ∧ Enrols e false none redeemed enrolled ∧
        invite.spaceIntents.foldlM (fun org intent => org.addEdge intent.1 e.accountId intent.2)
          enrolled = .ok joined ∧
        org' = (invite.spaceIntents.map Prod.fst).foldl (enqueuePolicyGrants e.accountId)
          ((invite.vaultIntents.map (inviteAction e.accountId)).foldl enqueue joined) := by
  obtain ⟨⟨invite, redeemed⟩, redeem, ran⟩ := bind_eq_ok.mp ran
  obtain ⟨enrolled, enrol, ran⟩ := bind_eq_ok.mp ran
  obtain ⟨joined, join, wrote⟩ := bind_eq_ok.mp ran
  exact ⟨invite, redeemed, enrolled, joined, redeem, enrol_enrols enrol, join,
    (Except.ok.inj wrote).symm⟩

variable {enrolled : Org} {desired : List (Bytes × SpaceRole)} {creator : Bytes}

theorem joinTx_same
    (join : invite.spaceIntents.foldlM (fun org intent => org.addEdge intent.1 e.accountId intent.2)
      enrolled = .ok joined) :
    enrolled.SameIdentities ((invite.spaceIntents.map Prod.fst).foldl
      (enqueuePolicyGrants e.accountId)
      ((invite.vaultIntents.map (inviteAction e.accountId)).foldl enqueue joined)) :=
  trans_of SameIdentities (foldlM_rel (R := SameIdentities) (fun _ _ _ added => addEdge_same added) join)
    (trans_of SameIdentities (foldl_rel enqueue_same _ _)
      (foldl_rel (R := SameIdentities) (fun _ _ => foldl_rel (fun org _ => enqueue_same org _) _ _) _ _))

/-- A sign-in uses its token, enrols, and then changes memberships only. -/
theorem oidcTx_eq_ok {external : Bytes × Bytes}
    (ran : org.oidcTx token external e desired = .ok org') :
    ∃ enrolled mapped,
      Enrols e false (some external) { org with usedTokens := token :: org.usedTokens } enrolled ∧
        desired.foldlM (fun org d => org.upsertOidc e.accountId d.1 d.2) enrolled = .ok mapped ∧
        org' = ((mapped.oidcSpaces e.accountId).filter
          fun spaceId => spaceId ∉ desired.map Prod.fst).foldl (deleteOidc e.accountId) mapped := by
  obtain ⟨_, consume, ran⟩ := bind_eq_ok.mp ran
  obtain ⟨-, wrote⟩ := require_bind_eq_ok.mp consume
  cases wrote
  obtain ⟨enrolled, enrol, ran⟩ := bind_eq_ok.mp ran
  obtain ⟨mapped, map, wrote⟩ := bind_eq_ok.mp ran
  exact ⟨enrolled, mapped, enrol_enrols enrol, map, (Except.ok.inj wrote).symm⟩

theorem oidcTx_same
    (map : desired.foldlM (fun org d => org.upsertOidc e.accountId d.1 d.2) enrolled = .ok mapped)
    {left : List Bytes} : enrolled.SameIdentities (left.foldl (deleteOidc e.accountId) mapped) :=
  trans_of SameIdentities (foldlM_rel (R := SameIdentities) (fun _ _ _ added => upsertOidc_same added) map)
    (foldl_rel deleteOidc_same _ _)

theorem createSpace_eq_ok (ran : org.createSpace spaceId creator = .ok org') :
    spaceId ∉ org.spaces ∧
      { org with spaces := spaceId :: org.spaces }.addEdge spaceId creator .admin = .ok org' := by
  obtain ⟨fresh, added⟩ := require_bind_eq_ok.mp ran
  exact ⟨of_decide_eq_true fresh, added⟩

theorem createSpace_same (ran : org.createSpace spaceId creator = .ok org') :
    org.SameIdentities org' :=
  { addEdge_same (createSpace_eq_ok ran).2 with }

theorem addMemberTx_eq_ok (ran : org.addMemberTx spaceId accountId role now = .ok org') :
    ∃ added, org.addEdge spaceId accountId role = .ok added ∧
      org' = added.enqueueSpaceWideGrants spaceId accountId now := by
  obtain ⟨added, edge, wrote⟩ := bind_eq_ok.mp ran
  exact ⟨added, edge, (Except.ok.inj wrote).symm⟩

/-- The update of a role leaves the row of a member who is not the last admin being demoted. -/
theorem updatedRole_eq_some (ran : org.updatedRole spaceId accountId role = some org') :
    ∃ row, org.members[(spaceId, accountId)]? = some row ∧
      ¬ (role ≠ .admin ∧ row.role = .admin ∧ org.adminCount spaceId ≤ 1) ∧
      { org with members := org.members.insert (spaceId, accountId) { row with role } } = org' := by
  obtain ⟨row, found, update⟩ := bind_eq_some_iff.mp ran
  split at update
  · exact nomatch update
  · next more => exact ⟨row, found, more, some.inj update⟩

theorem foldl_enqueue (actions : List PendingAction) (org : Org) :
    actions.foldl enqueue org = { org with actions := org.actions ++ actions } := by
  induction actions generalizing org with
  | nil => rw [foldl_nil, append_nil]
  | cons _ _ ih => rw [foldl_cons, ih, enqueue, append_assoc, singleton_append]

theorem setAccount_evolves {set : AccountRow → AccountRow}
    (same : ∀ row, AccountRow.SameIdentity row (set row)) :
    org.Evolves { org with
      accounts := org.accounts.updateWhere (fun k _ => k = accountId) set } where
  accounts := Table.Grows.updateWhere (fun _ row _ => same row) _
  devices := Table.Grows.refl _
  notOwner _ _ _ other := other

end Org

/-- What a statement leaves: the tables as they were, or what it wrote, with the checks that let
it write. -/
inductive OrgStatement.Effect (org : Org) : OrgStatement → Org → Prop where
  | nothing {q : OrgStatement} : Effect org q org
  | createSpace {spaceId creator : Bytes} {org' : Org}
      (ran : org.createSpace spaceId creator = .ok org') :
      Effect org (.createSpace spaceId creator) org'
  | addMember {spaceId accountId : Bytes} {role : SpaceRole} {now : Int64} {added : Org}
      (edge : org.addEdge spaceId accountId role = .ok added) :
      Effect org (.addMember spaceId accountId role now)
        (added.enqueueSpaceWideGrants spaceId accountId now)
  | removeAdmin {spaceId accountId : Bytes} (more : 1 < org.adminCount spaceId) :
      Effect org (.removeAdmin spaceId accountId) (org.removeMember spaceId accountId)
  | removeMember {spaceId accountId : Bytes} :
      Effect org (.removeMember spaceId accountId) (org.removeMember spaceId accountId)
  | setRole {spaceId accountId : Bytes} {role : SpaceRole} {current : Option SpaceRole}
      {now : Int64} {updated : Org}
      (update : updated = org ∨ org.updatedRole spaceId accountId role = some updated) :
      Effect org (.setRole spaceId accountId role current now)
        (if current.isSome then updated.enqueueSpaceWideGrants spaceId accountId now else updated)
  | enqueueRevokes {vaults : List Bytes} {accountId : Bytes} :
      Effect org (.enqueueRevokes vaults accountId)
        { org with actions := org.actions ++ vaults.map (Org.revokeAction accountId) }
  | setStatus {accountId : Bytes} {active : Bool} :
      Effect org (.setStatus accountId active) (org.setStatus accountId active)
  | setOwner {accountId : Bytes} {isOwner : Bool} :
      Effect org (.setOwner accountId isOwner) (org.setOwner accountId isOwner)
  | claim {e : Org.Enrolment} {spaceId : Bytes} {enrolled org' : Org}
      (enrols : Org.Enrols e true none { org with claimOwner := some e.accountId } enrolled)
      (created : enrolled.createSpace spaceId e.accountId = .ok org') :
      Effect org (.claim e spaceId) org'
  | createDevice {accountId deviceId : Bytes} {keys : Registration}
      (free : org.devices[deviceId]? = none) :
      Effect org (.createDevice accountId deviceId keys)
        { org with devices := org.devices.insert deviceId { accountId, keys } }
  | createSession {sessionId accountId deviceId : Bytes}
      (present : org.devices[deviceId]?.isSome = true) :
      Effect org (.createSession sessionId accountId deviceId)
        { org with sessions := org.sessions.insert sessionId (accountId, deviceId) }
  | createInvite {token : Bytes} {invite : Invite} :
      Effect org (.createInvite token invite)
        { org with invites := org.invites.insert token invite }
  | join {token : Bytes} {e : Org.Enrolment} {now : Int64} {org' : Org}
      (ran : org.joinTx token e now = .ok org') : Effect org (.join token e now) org'
  | oidc {token : Bytes} {external : Bytes × Bytes} {e : Org.Enrolment}
      {desired : List (Bytes × SpaceRole)} {org' : Org}
      (ran : org.oidcTx token external e desired = .ok org') :
      Effect org (.oidc token external e desired) org'
  | claimVault {vaultId : Bytes} {row : VaultRow} {policy : Option (Option Nat)} {db : Db}
      (inserted : transact (insertVault vaultId row) org.db = .ok ((), db)) :
      Effect org (.claimVault vaultId row policy)
        { org with db, spaceWide := policy.elim org.spaceWide (org.spaceWide.insert vaultId) }
  | store {idem : Option Bytes} {requestHash : Bytes} {items : List PushObj} {now : Int64}
      {seqs : Option (List Nat)} {db : Db}
      (pushed : commitPush idem requestHash items now org.db = .ok (seqs, db)) :
      Effect org (.store idem requestHash items now) { org with db }
  | publish {vaultId : Bytes} {manifest : PushObj} {grants : List PushObj}
      {revokeEpoch : Option Int} {now : Int64} {seqs : List Nat} {db : Db} (published :
        transact (publishTx vaultId manifest grants revokeEpoch now) org.db = .ok (seqs, db)) :
      Effect org (.publish vaultId manifest grants revokeEpoch now) { org with db }
  | markPublished {vaultId : Bytes} {granted : List Bytes} {rotated : Bool} :
      Effect org (.markPublished vaultId granted rotated)
        (org.markPublished vaultId granted rotated)

theorem OrgStatement.exec_effect (org : Org) (q : OrgStatement) :
    ∃ org', (q.exec org).2 = org' ∧ q.Effect org org' := by
  refine ⟨_, rfl, ?_⟩
  have orNothing {q : OrgStatement} {after : Except AppError Org}
      (ran : ∀ org', after = .ok org' → Effect org q org') :
      Effect org q (orRollback org after).2 := by
    cases after with
    | ok org' => exact ran org' rfl
    | error => exact .nothing
  cases q with
  | createSpace => exact orNothing fun _ => .createSpace
  | addMember =>
    refine orNothing fun _ ran => ?_
    obtain ⟨_, edge, rfl⟩ := addMemberTx_eq_ok ran
    exact .addMember edge
  | removeAdmin =>
    refine orNothing fun _ ran => ?_
    obtain ⟨guarded, wrote⟩ := require_bind_eq_ok.mp ran
    cases wrote
    exact .removeAdmin (of_decide_eq_true guarded).2
  | removeMember => exact .removeMember
  | setRole spaceId accountId role =>
    refine orNothing fun _ ran => ?_
    obtain ⟨-, wrote⟩ := require_bind_eq_ok.mp ran
    cases wrote
    refine .setRole ?_
    cases org.updatedRole spaceId accountId role with
    | none => exact .inl rfl
    | some => exact .inr rfl
  | enqueueRevokes =>
    rw [exec, foldl_enqueue]
    exact .enqueueRevokes
  | setStatus => exact .setStatus
  | setOwner => exact .setOwner
  | claim =>
    refine orNothing fun _ ran => ?_
    obtain ⟨-, ran⟩ := require_bind_eq_ok.mp ran
    obtain ⟨_, enrol, created⟩ := bind_eq_ok.mp ran
    exact .claim (enrol_enrols enrol) created
  | createDevice =>
    refine orNothing fun _ ran => ?_
    obtain ⟨free, -, rfl⟩ := createDevice_eq_ok.mp ran
    exact .createDevice (isNone_iff_eq_none.mp free)
  | createSession =>
    refine orNothing fun _ ran => ?_
    obtain ⟨-, ran⟩ := require_bind_eq_ok.mp ran
    obtain ⟨present, wrote⟩ := require_bind_eq_ok.mp ran
    cases wrote
    exact .createSession present
  | createInvite =>
    refine orNothing fun _ ran => ?_
    obtain ⟨-, wrote⟩ := require_bind_eq_ok.mp ran
    cases wrote
    exact .createInvite
  | join => exact orNothing fun _ => .join
  | oidc => exact orNothing fun _ => .oidc
  | claimVault _ _ policy =>
    refine orNothing fun _ ran => ?_
    obtain ⟨-, ran⟩ := require_bind_eq_ok.mp ran
    obtain ⟨_, write, ran⟩ := bind_eq_ok.mp ran
    obtain ⟨⟨_, db⟩, inserted, rfl⟩ := map_eq_ok.mp write
    cases policy <;> cases ran <;> exact .claimVault inserted
  | store =>
    refine orNothing fun _ ran => ?_
    obtain ⟨⟨_, db⟩, pushed, rfl⟩ := map_eq_ok.mp ran
    exact .store pushed
  | publish =>
    refine orNothing fun _ ran => ?_
    obtain ⟨⟨_, _⟩, published, rfl⟩ := map_eq_ok.mp ran
    exact .publish published
  | markPublished => exact .markPublished
  | _ => exact .nothing

/-- The statements that write accounts, devices or sessions. -/
def OrgStatement.WritesIdentities : OrgStatement → Prop
  | setStatus .. | setOwner .. | claim .. | createDevice .. | createSession .. | join .. | oidc .. =>
    True
  | _ => False

variable {q : OrgStatement}

theorem exec_same {org : Org} (quiet : ¬ q.WritesIdentities) :
    org.SameIdentities (OrgStatement.exec q org).2 := by
  obtain ⟨_, isAfter, effect⟩ := q.exec_effect org
  rw [isAfter]
  cases effect with
  | nothing => exact refl_of _ org
  | createSpace ran => exact createSpace_same ran
  | addMember edge =>
    exact trans_of _ (addEdge_same edge) enqueueSpaceWideGrants_same
  | @setRole _ _ _ _ _ updated update =>
    have first : org.SameIdentities updated := by
      obtain rfl | some := update
      · exact refl_of _ _
      · obtain ⟨_, -, -, rfl⟩ := updatedRole_eq_some some
        exact ⟨rfl, rfl, rfl, rfl⟩
    split
    · exact trans_of _ first enqueueSpaceWideGrants_same
    · exact first
  | setStatus | setOwner | claim | createDevice | createSession | join | oidc =>
    exact absurd trivial quiet
  | _ => exact ⟨rfl, rfl, rfl, rfl⟩

/-- No statement in its place undoes what others rely on. -/
theorem exec_evolves {org : Org} (safe : Safe org q) : org.Evolves (OrgStatement.exec q org).2 := by
  by_cases quiet : q.WritesIdentities
  case neg => exact (exec_same quiet).evolves
  obtain ⟨_, isAfter, effect⟩ := q.exec_effect org
  rw [isAfter]
  cases effect with
  | nothing => exact refl_of _ org
  | setStatus => exact setAccount_evolves fun _ => ⟨rfl, rfl⟩
  | setOwner => exact setAccount_evolves fun _ => ⟨rfl, rfl⟩
  | claim enrols created =>
    have same := createSpace_same created
    -- the account is new, so no account that exists becomes the owner
    obtain ⟨old, -⟩ | ⟨-, absent, -⟩ := enrols.account
    · exact nomatch old.symm.trans safe
    refine ⟨same.accounts ▸ enrols.grows.1, same.devices ▸ enrols.grows.2, ?_⟩
    intro id _ found _ isOwner
    rw [same.claimOwner, ← enrols.rest] at isOwner
    cases isOwner
    exact nomatch absent.symm.trans found
  | createDevice free =>
    exact ⟨Table.Grows.refl _, Table.Grows.insert fun row found => (nomatch free.symm.trans found),
      fun _ _ _ other => other⟩
  | createSession =>
    exact ⟨Table.Grows.refl _, Table.Grows.refl _, fun _ _ _ other => other⟩
  | join ran =>
    obtain ⟨_, _, enrolled, _, redeem, enrols, join, rfl⟩ := joinTx_eq_ok ran
    obtain ⟨-, rfl⟩ := redeem_eq_ok redeem
    exact { trans_of Org.Evolves enrols.evolves (joinTx_same join).evolves with }
  | oidc ran =>
    obtain ⟨_, _, enrols, map, rfl⟩ := oidcTx_eq_ok ran
    exact { trans_of Org.Evolves enrols.evolves (oidcTx_same map).evolves with }
  | _ => exact absurd quiet id

/-! ## Handlers -/

section Handlers

open OrgHandler
open Process.Fallible hiding ask check commit Sound

variable {inv : Org → Prop} {allowed : Org → OrgStatement → Prop} {org : Org}

variable (inv allowed) in
/-- Every statement of the handler is executed where it is safe, and a success is as `post` says. -/
abbrev OrgHandler.Sound {α : Type} (handler : OrgHandler α) (org : Org) (post : α → Org → Prop) :
    Prop :=
  Process.Fallible.Sound OrgStatement.exec inv Org.Evolves allowed Safe handler org post

variable {token spaceId actor accountId : Bytes} {external : Bytes × Bytes}

/-- A sign-in that goes through leaves its device. -/
theorem oidc_device (ran : (OrgStatement.exec (.oidc token external e desired) org).1 = .ok ()) :
    (OrgStatement.exec (.oidc token external e desired) org).2.devices[e.deviceId]? =
      some { accountId := e.accountId, keys := e.keys } := by
  change (OrgStatement.orRollback org (org.oidcTx token external e desired)).1 = .ok () at ran
  change (OrgStatement.orRollback org (org.oidcTx token external e desired)).2.devices[_]? = _
  cases after : org.oidcTx token external e desired with
  | error => exact nomatch after ▸ ran
  | ok =>
    obtain ⟨_, _, enrols, map, rfl⟩ := oidcTx_eq_ok after
    rw [OrgStatement.orRollback, (oidcTx_same map).devices, enrols.devices]
    exact Std.ExtTreeMap.getElem?_insert_self

theorem requireSpaceAdmin_sound :
    (requireSpaceAdmin spaceId actor).Sound inv allowed org fun _ _ => True :=
  ask_bind_sound (fun _ => trivial) fun _ _ => check_sound fun _ => trivial

theorem requireOwner_sound : (requireOwner actor).Sound inv allowed org fun _ _ => True :=
  ask_bind_sound (fun _ => trivial) fun _ _ => check_sound fun _ => trivial

variable {target : Bytes}

theorem guardInstanceOwnerEviction_sound :
    (guardInstanceOwnerEviction target actor).Sound inv allowed org fun _ _ => True :=
  ask_bind_sound (fun _ => trivial) fun _ _ => check_sound fun _ => trivial

theorem revokeLive_sound {spaceId : Option Bytes} :
    (revokeLive accountId spaceId).Sound inv allowed org fun _ _ => True := by
  refine ask_bind_sound (fun _ => trivial) fun account _ => ?_
  cases account with
  | none => exact pure_sound trivial
  | some =>
    refine ask_bind_sound (fun _ => trivial) fun vaults _ => ?_
    cases vaults with
    | nil => exact pure_sound trivial
    | cons => exact commit_sound (ask_sound fun _ _ _ => ⟨trivial, fun _ => trivial⟩)

theorem existingAccount_sound :
    (existingAccount accountId).Sound inv allowed org fun account org' =>
      org'.accounts[accountId]? = some account := by
  refine (ask_sound (q := OrgStatement.accountById accountId)
    (P := fun r (org' : Org) => org'.accounts[accountId]? = r) fun _ _ _ => ⟨trivial, fun _ => rfl⟩).bind
    fun account _ found => ?_
  cases account with
  | none => exact throw_sound
  | some => exact pure_sound found

/-- An account that exists and is not the claim owner. -/
def Org.NotOwner (org : Org) (accountId : Bytes) : Prop :=
  (∃ account, org.accounts[accountId]? = some account) ∧ org.claimOwner ≠ some accountId

theorem Org.NotOwner.later {org' : Org} (before : org.NotOwner accountId)
    (step : org.Evolves org') : org'.NotOwner accountId := by
  obtain ⟨⟨account, found⟩, other⟩ := before
  obtain ⟨account', found', -⟩ := step.accounts accountId account found
  exact ⟨⟨account', found'⟩, step.notOwner accountId account found other⟩

/-- Past the guard, the account is not the claim owner. -/
theorem guardLockout_sound {account row : AccountRow} (found : org.accounts[target]? = some row) :
    (guardLockout target account ofClaim ofLast).Sound inv allowed org fun _ org' =>
      org'.NotOwner target := by
  refine (ask_sound (q := OrgStatement.claimOwner)
    (P := fun r (org' : Org) => (∃ row, org'.accounts[target]? = some row) ∧ org'.claimOwner = r)
    fun org' _ step => ?_).bind fun owner org' holds => ?_
  · obtain ⟨row', found', -⟩ := step.accounts target row found
    exact ⟨trivial, fun _ => ⟨⟨row', found'⟩, rfl⟩⟩
  refine check_bind_sound fun other => ?_
  have notOwner : org'.NotOwner target := ⟨holds.1, holds.2 ▸ of_decide_eq_true other⟩
  cases account.isOwner with
  | false => exact pure_sound notOwner
  | true =>
    exact (ask_sound (q := OrgStatement.ownerCount) (P := fun _ (org' : Org) => org'.NotOwner target)
      fun org'' _ step => ⟨trivial, fun _ => notOwner.later step⟩).bind
      fun owners org'' holds => check_sound fun _ => holds

theorem accountStatus_sound {disabled : Bool} :
    (accountStatus actor target disabled).Sound inv allowed org fun _ _ => True := by
  refine requireOwner_sound.bind fun _ _ _ => existingAccount_sound.bind fun account _ found => ?_
  cases disabled with
  | false => exact commit_sound (ask_sound fun _ _ _ => ⟨nofun, fun _ => trivial⟩)
  | true =>
    refine (guardLockout_sound found).bind fun _ _ notOwner => ?_
    exact commit_bind_sound (ask_sound fun _ _ step => ⟨fun _ => notOwner.later step, fun _ => trivial⟩)
      fun _ => revokeLive_sound

theorem ownerSet_sound :
    (ownerSet actor target isOwner).Sound inv allowed org fun _ _ => True := by
  refine requireOwner_sound.bind fun _ _ _ => existingAccount_sound.bind fun account _ found => ?_
  cases isOwner with
  | true => exact commit_sound (ask_sound fun _ _ _ => ⟨nofun, fun _ => trivial⟩)
  | false =>
    exact (guardLockout_sound found).bind fun _ _ notOwner =>
      commit_sound (ask_sound fun _ _ step => ⟨fun _ => notOwner.later step, fun _ => trivial⟩)

theorem membersRemove_sound :
    (membersRemove actor spaceId accountId).Sound inv allowed org fun _ _ => True := by
  refine requireSpaceAdmin_sound.bind fun _ _ _ =>
    guardInstanceOwnerEviction_sound.bind fun _ _ _ => ?_
  refine ask_bind_sound (fun _ => trivial) fun role _ => ?_
  obtain _ | _ | _ := role <;>
    exact commit_bind_sound (ask_sound fun _ _ _ => ⟨trivial, fun _ => trivial⟩) fun _ => revokeLive_sound

variable {now : Int64} {deviceId freshAccount : Bytes} {keys : Registration}
  {role : SpaceRole} {sessionId : Bytes}

theorem membersSetRole_sound :
    (membersSetRole actor spaceId accountId role now).Sound inv allowed org fun _ _ => True := by
  refine requireSpaceAdmin_sound.bind fun _ _ _ => ask_bind_sound (fun _ => trivial) fun _ _ => ?_
  cases role with
  | admin => exact commit_sound (ask_sound fun _ _ _ => ⟨trivial, fun _ => trivial⟩)
  | member =>
    exact guardInstanceOwnerEviction_sound.bind fun _ _ _ =>
      commit_sound (ask_sound fun _ _ _ => ⟨trivial, fun _ => trivial⟩)

theorem membersAdd_sound :
    (membersAdd actor spaceId accountId role now).Sound inv allowed org fun _ _ => True :=
  requireSpaceAdmin_sound.bind fun _ _ _ => ask_bind_sound (fun _ => trivial) fun _ _ =>
    check_bind_sound fun _ => ask_bind_sound (fun _ => trivial) fun _ _ =>
      check_bind_sound fun _ => commit_sound (ask_sound fun _ _ _ => ⟨trivial, fun _ => trivial⟩)

theorem deviceAdd_sound : (deviceAdd actor deviceId).Sound inv allowed org fun _ _ => True := by
  refine existingAccount_sound.bind fun account _ found => commit_sound (ask_sound fun _ _ step => ?_)
  obtain ⟨account', found', same⟩ := step.accounts actor account found
  exact ⟨⟨account', found', same.keys⟩, fun _ => trivial⟩

theorem deviceSelfEnroll_sound :
    (deviceSelfEnroll keys deviceId).Sound inv allowed org fun _ _ => True := by
  refine (ask_sound (q := OrgStatement.accountByEd keys.ed25519Pub)
    (P := fun r (org' : Org) => org'.accountByEd keys.ed25519Pub = r) fun _ _ _ => ⟨trivial, fun _ => rfl⟩).bind
    fun found org' read => ?_
  obtain _ | ⟨accountId, account⟩ := found
  · exact throw_sound
  obtain ⟨found, sameEd⟩ := accountByEd_eq_some read
  refine check_bind_sound fun _ => check_bind_sound fun sameX =>
    commit_sound (ask_sound fun _ _ step => ?_)
  obtain ⟨account', found', same⟩ := step.accounts accountId account found
  have isKeys : account.keys = keys := Registration.ext sameEd (of_decide_eq_true sameX)
  exact ⟨⟨account', found', same.keys.trans isKeys⟩, fun _ => trivial⟩

theorem authVerify_sound :
    (authVerify deviceId sessionId).Sound inv allowed org fun _ _ => True := by
  refine (ask_sound (q := OrgStatement.deviceById deviceId) (P := fun r (org' : Org) => org'.devices[deviceId]? = r)
    fun _ _ _ => ⟨trivial, fun _ => rfl⟩).bind fun device org' found => ?_
  cases device with
  | none => exact throw_sound
  | some device =>
    refine commit_sound (ask_sound fun _ _ step => ⟨fun device' found' => ?_, fun _ => trivial⟩)
    obtain ⟨_, found'', rfl⟩ := step.devices deviceId device found
    rw [some.inj (found''.symm.trans found')]

theorem resolveEnrolment_sound :
    (resolveEnrolment existing keys freshAccount deviceId).Sound inv allowed org fun e org' =>
      org' = org ∧ e.keys = keys ∧ e.deviceId = deviceId ∧
        (e.isNew = false → ∃ account, existing = some (e.accountId, account)) := by
  obtain _ | ⟨_, account⟩ := existing
  · exact pure_sound ⟨rfl, rfl, rfl, nofun⟩
  · exact check_bind_sound fun _ => pure_sound ⟨rfl, rfl, rfl, fun _ => ⟨account, rfl⟩⟩

theorem join_sound :
    (join keys token freshAccount deviceId now).Sound inv allowed org fun _ _ => True := by
  refine (ask_sound (q := OrgStatement.accountByEd keys.ed25519Pub)
    (P := fun r (org' : Org) => org'.accountByEd keys.ed25519Pub = r) fun _ _ _ => ⟨trivial, fun _ => rfl⟩).bind
    fun existing org' read => resolveEnrolment_sound.bind fun e org'' resolved => ?_
  obtain ⟨rfl, rfl, -, resolved⟩ := resolved
  refine commit_sound (ask_sound fun _ _ step => ⟨fun old => ?_, fun _ => trivial⟩)
  obtain ⟨account, rfl⟩ := resolved old
  obtain ⟨found, sameEd⟩ := accountByEd_eq_some read
  obtain ⟨account', found', same⟩ := step.accounts e.accountId account found
  exact ⟨account', found', by rw [same.keys, sameEd]⟩

theorem oidcCallback_sound :
    (oidcCallback groupMap keys token external groups freshAccount deviceId sessionId).Sound
      inv allowed org fun _ _ => True := by
  refine (ask_sound (q := OrgStatement.accountByExternal external)
    (P := fun r (org' : Org) => org'.accountByExternal external = r) fun _ _ _ => ⟨trivial, fun _ => rfl⟩).bind
    fun existing org' read => resolveEnrolment_sound.bind fun e org'' resolved => ?_
  obtain ⟨rfl, rfl, rfl, resolved⟩ := resolved
  -- what the sign-in takes for granted, it found
  have safe : ∀ org' : Org, org''.Evolves org' →
      Safe org' (.oidc token external e (desiredSpaces groupMap groups)) := by
    intro org' step old
    obtain ⟨account, rfl⟩ := resolved old
    have isExternal : account.external = some external := by simpa using find?_some read
    obtain ⟨account', found', same⟩ := step.accounts e.accountId account
      (mem_toList_iff_getElem?_eq_some.mp (mem_of_find?_eq_some read))
    exact ⟨account', found', same.external.trans isExternal⟩
  have signIn : ∀ org' : Org, org''.Evolves org' →
      ((do
        commit (ask (.oidc token external e (desiredSpaces groupMap groups)))
        commit (ask (.createSession sessionId e.accountId e.deviceId))) : OrgHandler Unit).Sound
        inv allowed org' fun _ _ => True := by
    intro org' before
    refine commit_then_sound
      (M := fun org : Org => org.devices[e.deviceId]? = some { accountId := e.accountId, keys := e.keys })
      (ask_sound fun org _ step => ⟨safe org (trans_of _ before step), fun _ => oidc_device⟩)
      fun org wrote => commit_sound (ask_sound fun org' _ step => ⟨fun device found => ?_, fun _ => trivial⟩)
    obtain ⟨_, found', rfl⟩ := step.devices _ _ wrote
    rw [← some.inj (found'.symm.trans found)]
  cases isNew : e.isNew with
  | false => simpa [isNew] using signIn org'' (refl_of _ _)
  | true =>
    simp only [if_true]
    exact (ask_sound (q := OrgStatement.accountByEd e.keys.ed25519Pub)
      (P := fun _ (org' : Org) => org''.Evolves org') fun org' _ step => ⟨trivial, fun _ => step⟩).bind
      fun taken org' before => check_bind_sound fun _ => signIn org' before

/-- Every statement of every request is executed where it is safe. -/
theorem process_sound (request : OrgRequest) (org : Org) :
    request.process.Sound OrgStatement.exec inv Org.Evolves allowed Safe (fun _ _ => True) org := by
  have sound : request.handler.Sound inv allowed org fun _ _ => True := by
    cases request with
    | spacesCreate =>
      exact requireOwner_sound.bind fun _ _ _ =>
        commit_sound (ask_sound fun _ _ _ => ⟨trivial, fun _ => trivial⟩)
    | membersAdd => exact membersAdd_sound
    | membersRemove => exact membersRemove_sound
    | membersSetRole => exact membersSetRole_sound
    | accountStatus => exact accountStatus_sound
    | ownerSet => exact ownerSet_sound
    | claim =>
      exact ask_bind_sound (fun _ => trivial) fun _ _ => check_bind_sound fun _ =>
        commit_sound (ask_sound fun _ _ _ => ⟨rfl, fun _ => trivial⟩)
    | deviceAdd => exact deviceAdd_sound
    | deviceSelfEnroll => exact deviceSelfEnroll_sound
    | authVerify => exact authVerify_sound
    | inviteCreate => exact commit_sound (ask_sound fun _ _ _ => ⟨trivial, fun _ => trivial⟩)
    | join => exact join_sound
    | oidcCallback => exact oidcCallback_sound
    | claimVault =>
      refine ask_bind_sound (fun _ => trivial) fun owner _ => ?_
      cases owner with
      | some => exact check_sound fun _ => trivial
      | none => exact commit_sound (ask_sound fun _ _ _ => ⟨trivial, fun _ => trivial⟩)
    | push => exact commit_sound (ask_sound fun _ _ _ => ⟨trivial, fun _ => trivial⟩)
    | grantsPublish =>
      exact commit_bind_sound (ask_sound fun _ _ _ => ⟨trivial, fun _ => trivial⟩) fun _ =>
        commit_sound (ask_sound fun _ _ _ => ⟨trivial, fun _ => trivial⟩)
  exact sound.process

end Handlers

variable {org init : Org} {allowed : Org → OrgStatement → Prop}
  {running : List (Process OrgStatement OrgStatement.Res (Except AppError Unit))}

/-- An invariant that allowed statements keep in their places holds in every run. -/
theorem Org.Reaches.keeps {I : Org → Prop} (start : I init)
    (keeps : ∀ org q, I org → allowed org q → Safe org q → I (OrgStatement.exec q org).2)
    (reached : Org.Reaches allowed init org running) : I org :=
  (Process.Reaches.sound start
    (fun org q holds fine safe => ⟨keeps org q holds fine safe, exec_evolves safe⟩)
    process_sound reached).1

/-- A request that no other interrupts. -/
theorem Org.Reaches.serve (reached : Org.Reaches allowed init org running) (request : OrgRequest)
    (fine : request.process.AllowedAlone OrgStatement.exec allowed org) :
    ∃ running', Org.Reaches allowed init (org.served request) running' :=
  Process.Reaches.alone (reached.start request) ⟨running, rfl⟩ fine

namespace Sample

/-- The keys of a person, named by a number. -/
def keysOf (person : UInt8) : Registration := ⟨[person, 0], [person, 1]⟩

/-- A sign-in of one subject of the identity provider, with groups. -/
def signIn (groupMap : List OrgHandler.GroupMapping) (keys : Registration) (token : UInt8)
    (groups : List Bytes) : OrgRequest :=
  .oidcCallback groupMap keys [token] ([1], [2]) groups [token, 0] [token, 1] [token, 2]

end Sample

end UniSsh.Server
