import UniSsh.Server.OrgRuns

/-!
# Space-wide vaults

A join queues a grant for each space-wide vault, an add and a role change what is missing, and the
mapping of groups nothing. The queueing functions are first brought into closed form.
-/

namespace UniSsh.Server

open Org Option

open List

namespace Org

variable {org org' : Org} {spaceId accountId : Bytes} {now : Int64}

/-! ## What waits -/

/-- A grant of the vault at its space-wide role waits for the account. -/
def GrantOffered (org : Org) (vault : Bytes × Option Nat) (accountId : Bytes) : Prop :=
  ∃ action ∈ org.actions, action.kind = .grant ∧ action.pending = true ∧
    action.vaultId = vault.1 ∧ action.accountId = accountId ∧ action.cryptoRole = vault.2

instance (org : Org) (vault : Bytes × Option Nat) (accountId : Bytes) :
    Decidable (org.GrantOffered vault accountId) :=
  inferInstanceAs (Decidable (∃ action ∈ org.actions, _))

/-- The account holds a live grant of every space-wide vault of the space, or one waits. -/
def Covered (org : Org) (spaceId accountId : Bytes) (now : Int64) : Prop :=
  ∀ vault ∈ org.spaceWideVaults spaceId,
    org.holdsLive vault.1 accountId now = true ∨ org.GrantOffered vault accountId

instance (org : Org) (spaceId accountId : Bytes) (now : Int64) :
    Decidable (org.Covered spaceId accountId now) :=
  inferInstanceAs (Decidable (∀ vault ∈ org.spaceWideVaults spaceId, _))

/-- A grant the policy queued that waits for the account. -/
def isPolicyGrant (vaultId accountId : Bytes) (action : PendingAction) : Bool :=
  action.kind = .grant ∧ action.source = .policy ∧ action.pending ∧ action.vaultId = vaultId ∧
    action.accountId = accountId

/-- No grant of the policy waits twice. -/
def SingleGrants (org : Org) : Prop :=
  ∀ vaultId accountId, org.actions.countP (isPolicyGrant vaultId accountId) ≤ 1

/-! ## The queueing functions -/

theorem foldl_enqueuePolicyGrants (accountId : Bytes) (spaces : List Bytes) (org : Org) :
    spaces.foldl (enqueuePolicyGrants accountId) org =
      { org with
        actions := org.actions ++
          (spaces.flatMap org.spaceWideVaults).map (policyAction accountId) } := by
  induction spaces generalizing org with
  | nil => simp
  | cons _ _ ih =>
    rw [foldl_cons, ih, enqueuePolicyGrants, ← foldl_map, foldl_enqueue, flatMap_cons, map_append,
      append_assoc]
    rfl

/-- Neither a live grant nor a waiting one. -/
def lacks (org : Org) (now : Int64) (accountId : Bytes) (vault : Bytes × Option Nat) : Bool :=
  !org.holdsLive vault.1 accountId now && !org.grantWaits vault.1 accountId

theorem foldl_enqueueMissing (vaults : List (Bytes × Option Nat)) (org : Org)
    (distinct : (vaults.map Prod.fst).Nodup) :
    vaults.foldl (enqueueMissing now accountId) org =
      { org with
        actions := org.actions ++
          (vaults.filter (org.lacks now accountId)).map (policyAction accountId) } := by
  induction vaults generalizing org with
  | nil => simp
  | cons vault rest ih =>
    obtain ⟨fresh, distinct⟩ := nodup_cons.mp distinct
    have first : enqueueMissing now accountId org vault =
        if org.lacks now accountId vault then org.enqueue (policyAction accountId vault) else org := by
      unfold enqueueMissing lacks
      cases org.holdsLive vault.1 accountId now <;> cases org.grantWaits vault.1 accountId <;> rfl
    rw [foldl_cons, ih _ distinct, first]
    by_cases missing : org.lacks now accountId vault = true
    · have same : rest.filter ((org.enqueue (policyAction accountId vault)).lacks now accountId) =
          rest.filter (org.lacks now accountId) := by
        refine filter_congr fun other mem => ?_
        have differ : vault.1 ≠ other.1 := fun same =>
          fresh (same ▸ mem_map_of_mem mem)
        have waits : (org.enqueue (policyAction accountId vault)).grantWaits other.1 accountId =
            org.grantWaits other.1 accountId := by
          simp [grantWaits, enqueue, policyAction, differ]
        unfold lacks
        rw [waits]
        rfl
      rw [if_pos missing, same, filter_cons_of_pos missing, map_cons]
      simp [enqueue]
    · rw [if_neg missing, filter_cons_of_neg missing]

theorem spaceWideVaults_distinct (org : Org) (spaceId : Bytes) :
    ((org.spaceWideVaults spaceId).map Prod.fst).Nodup :=
  org.spaceWide.nodup_map_toList _ fun _ _ same => same

theorem enqueueSpaceWideGrants_eq (org : Org) (spaceId accountId : Bytes) (now : Int64) :
    org.enqueueSpaceWideGrants spaceId accountId now =
      { org with
        actions := org.actions ++
          ((org.spaceWideVaults spaceId).filter (org.lacks now accountId)).map
            (policyAction accountId) } :=
  foldl_enqueueMissing _ org (org.spaceWideVaults_distinct spaceId)

/-! ## Membership changes nothing for the vaults -/

/-- The vaults, their policies and what waits are as they were. -/
structure SamePolicy (org org' : Org) : Prop where
  db : org'.db = org.db
  spaceWide : org'.spaceWide = org.spaceWide
  actions : org'.actions = org.actions

instance : Std.Refl SamePolicy := ⟨fun _ => ⟨rfl, rfl, rfl⟩⟩

instance : IsTrans Org SamePolicy where
  trans _ _ _ first second :=
    ⟨second.db.trans first.db, second.spaceWide.trans first.spaceWide,
      second.actions.trans first.actions⟩

theorem SamePolicy.spaceWideVaults (same : org.SamePolicy org') (spaceId : Bytes) :
    org'.spaceWideVaults spaceId = org.spaceWideVaults spaceId := by
  rw [Org.spaceWideVaults, Org.spaceWideVaults, same.spaceWide, same.db]

theorem insertMember_samePolicy (added : org.insertMember spaceId accountId row = .ok org') :
    org.SamePolicy org' := by
  obtain ⟨-, rfl⟩ := insertMember_eq_ok.mp added
  exact ⟨rfl, rfl, rfl⟩

variable {role : SpaceRole}

theorem addEdge_samePolicy (added : org.addEdge spaceId accountId role = .ok org') :
    org.SamePolicy org' := by
  obtain rfl | ⟨-, inserted⟩ := addEdge_eq_ok added
  · exact refl_of _ _
  · exact insertMember_samePolicy inserted

theorem upsertOidc_samePolicy (added : org.upsertOidc accountId spaceId role = .ok org') :
    org.SamePolicy org' := by
  unfold upsertOidc at added
  split at added
  · cases added
    exact refl_of _ _
  · exact insertMember_samePolicy added

theorem deleteOidc_samePolicy (org : Org) (spaceId : Bytes) :
    org.SamePolicy (deleteOidc accountId org spaceId) := by
  unfold deleteOidc
  split <;> exact ⟨rfl, rfl, rfl⟩

variable {e : Enrolment} {token : Bytes}

theorem Enrols.samePolicy {isOwner : Bool} (enrols : Enrols e isOwner external org org') :
    org.SamePolicy org' := by
  rw [← enrols.rest]
  exact ⟨rfl, rfl, rfl⟩

variable {external : Bytes × Bytes} {desired : List (Bytes × SpaceRole)}

theorem oidcTx_samePolicy (ran : org.oidcTx token external e desired = .ok org') :
    org.SamePolicy org' := by
  obtain ⟨_, _, enrols, map, rfl⟩ := oidcTx_eq_ok ran
  obtain ⟨db, spaceWide, actions⟩ := trans_of SamePolicy enrols.samePolicy
    (trans_of SamePolicy
      (foldlM_rel (R := SamePolicy) (fun _ _ _ added => upsertOidc_samePolicy added) map)
      (foldl_rel deleteOidc_samePolicy _ _))
  exact ⟨db, spaceWide, actions⟩

/-- A join leaves what waits and appends its own actions. -/
theorem joinTx_actions (ran : org.joinTx token e now = .ok org') :
    ∃ invite, org.invites[token]? = some invite ∧ org'.db = org.db ∧
      org'.spaceWide = org.spaceWide ∧
      org'.actions = org.actions ++ invite.vaultIntents.map (inviteAction e.accountId) ++
        ((invite.spaceIntents.map Prod.fst).flatMap org.spaceWideVaults).map
          (policyAction e.accountId) := by
  obtain ⟨invite, _, _, joined, redeem, enrols, join, rfl⟩ := joinTx_eq_ok ran
  obtain ⟨found, rfl⟩ := redeem_eq_ok redeem
  have same := trans_of SamePolicy enrols.samePolicy
    (foldlM_rel (R := SamePolicy) (fun _ _ _ added => addEdge_samePolicy added) join)
  refine ⟨invite, found, ?_⟩
  rw [foldl_enqueuePolicyGrants, foldl_enqueue]
  refine ⟨same.db, same.spaceWide, ?_⟩
  have vaults : ({ joined with
      actions := joined.actions ++ invite.vaultIntents.map (inviteAction e.accountId) } :
        Org).spaceWideVaults = org.spaceWideVaults := funext same.spaceWideVaults
  rw [vaults, same.actions]

/-! ## New members -/

theorem memberRole_eq_none :
    org.memberRole spaceId accountId = none ↔ org.members[(spaceId, accountId)]? = none :=
  map_eq_none_iff

/-- An edge of another space or account makes nobody a member here. -/
theorem addEdge_absent (other : (space, account) ≠ (spaceId, accountId))
    (absent : org.members[(spaceId, accountId)]? = none)
    (added : org.addEdge space account role = .ok org') :
    org'.members[(spaceId, accountId)]? = none := by
  obtain rfl | ⟨-, inserted⟩ := addEdge_eq_ok added
  · exact absent
  · obtain ⟨-, rfl⟩ := insertMember_eq_ok.mp inserted
    rw [Table.getElem?_insert, if_neg other, absent]

theorem joinTx_spaces (ran : org.joinTx token e now = .ok org')
    (found : org.invites[token]? = some invite) (before : org.memberRole spaceId e.accountId = none)
    (after : org'.memberRole spaceId e.accountId ≠ none) :
    spaceId ∈ invite.spaceIntents.map Prod.fst := by
  obtain ⟨_, _, _, _, redeem, enrols, join, rfl⟩ := joinTx_eq_ok ran
  obtain ⟨found', rfl⟩ := redeem_eq_ok redeem
  cases found.symm.trans found'
  by_contra notInvited
  refine after (memberRole_eq_none.mpr ?_)
  rw [foldl_enqueuePolicyGrants, foldl_enqueue]
  refine foldlM_invariant (I := fun o => o.members[(spaceId, e.accountId)]? = none)
    (fun intent mem o o' absent added => addEdge_absent ?_ absent added) ?_ join
  · intro same
    obtain ⟨rfl, -⟩ := Prod.mk.inj same
    exact notInvited (mem_map_of_mem mem)
  · rw [← enrols.rest]
    exact memberRole_eq_none.mp before

theorem grantOffered_policy (mem : policyAction accountId vault ∈ org.actions) :
    org.GrantOffered vault accountId :=
  ⟨_, mem, rfl, rfl, rfl, rfl, rfl⟩

theorem addMemberTx_covered (ran : org.addMemberTx spaceId accountId role now = .ok org') :
    org'.Covered spaceId accountId now ↔ ∀ vault ∈ org.spaceWideVaults spaceId,
      org.holdsLive vault.1 accountId now = true ∨ org.GrantOffered vault accountId ∨
        org.grantWaits vault.1 accountId = false := by
  obtain ⟨added, edge, rfl⟩ := addMemberTx_eq_ok ran
  have same := addEdge_samePolicy edge
  have live (vaultId : Bytes) :
      added.holdsLive vaultId accountId now = org.holdsLive vaultId accountId now := by
    rw [holdsLive, holdsLive, (addEdge_same edge).accounts, same.db]
  have waits (vaultId : Bytes) :
      added.grantWaits vaultId accountId = org.grantWaits vaultId accountId := by
    rw [grantWaits, grantWaits, same.actions]
  have lacks : added.lacks now accountId = org.lacks now accountId := by
    funext vault
    rw [Org.lacks, Org.lacks, live, waits]
  rw [enqueueSpaceWideGrants_eq, same.spaceWideVaults, same.actions, lacks]
  generalize isQueue : org.actions ++ ((org.spaceWideVaults spaceId).filter
    (org.lacks now accountId)).map (policyAction accountId) = queue
  -- the queue gained exactly the vaults that lacked a grant
  have offered {vault : Bytes × Option Nat} (listed : vault ∈ org.spaceWideVaults spaceId) :
      { added with actions := queue }.GrantOffered vault accountId ↔
        org.GrantOffered vault accountId ∨ org.lacks now accountId vault = true := by
    subst isQueue
    constructor
    · rintro ⟨action, mem, kind, pending, vaultId, account, role⟩
      obtain old | new := mem_append.mp mem
      · exact .inl ⟨action, old, kind, pending, vaultId, account, role⟩
      · obtain ⟨vault', mem', rfl⟩ := mem_map.mp new
        obtain rfl : vault' = vault := Prod.ext vaultId role
        exact .inr (mem_filter.mp mem').2
    · rintro (⟨action, mem, rest⟩ | missing)
      · exact ⟨action, mem_append_left _ mem, rest⟩
      · exact grantOffered_policy (mem_append_right _
          (mem_map_of_mem (mem_filter.mpr ⟨listed, missing⟩)))
  have vaults : { added with actions := queue }.spaceWideVaults spaceId =
      org.spaceWideVaults spaceId := same.spaceWideVaults spaceId
  unfold Covered
  rw [vaults]
  refine forall₂_congr fun vault listed => ?_
  rw [offered listed]
  change added.holdsLive vault.1 accountId now = true ∨ _ ↔ _
  rw [live, Org.lacks]
  cases org.holdsLive vault.1 accountId now <;> simp

/-- The key of an account, or of the registration that makes it. -/
def keyOf (org : Org) (accountId : Bytes) (presented : Registration) : Bytes :=
  ((org.accounts[accountId]?.map AccountRow.keys).getD presented).ed25519Pub

theorem oidcTx_covered (ran : org.oidcTx token external e desired = .ok org') :
    org'.Covered spaceId e.accountId now ↔ ∀ vault ∈ org.spaceWideVaults spaceId,
      org.db.holdsGrant vault.1 (org.keyOf e.accountId e.keys) now = true ∨
        org.GrantOffered vault e.accountId := by
  have same := oidcTx_samePolicy ran
  obtain ⟨_, mapped, enrols, map, rfl⟩ := oidcTx_eq_ok ran
  have live (vaultId : Bytes) :
      (((mapped.oidcSpaces e.accountId).filter fun spaceId =>
        spaceId ∉ desired.map Prod.fst).foldl (deleteOidc e.accountId) mapped).holdsLive
          vaultId e.accountId now =
        org.db.holdsGrant vaultId (org.keyOf e.accountId e.keys) now := by
    rw [holdsLive, (oidcTx_same map).accounts, same.db]
    obtain ⟨-, accounts⟩ | ⟨-, absent, -, accounts⟩ := enrols.account
    · obtain ⟨account, found⟩ := isSome_iff_exists.mp enrols.exists_
      rw [found]
      rw [accounts] at found
      have key : org.keyOf e.accountId e.keys = account.keys.ed25519Pub := by
        rw [keyOf, show org.accounts[e.accountId]? = some account from found]
        rfl
      rw [key]
    · have key : org.keyOf e.accountId e.keys = e.keys.ed25519Pub := by
        rw [keyOf, show org.accounts[e.accountId]? = none from absent]
        rfl
      rw [accounts, Std.ExtTreeMap.getElem?_insert_self, key]
  unfold Covered GrantOffered
  rw [same.spaceWideVaults, same.actions]
  simp only [live]

end Org

/-- A transaction of a join, a direct add or a sign-in of the account. -/
def OrgStatement.Admits (accountId : Bytes) (now : Int64) : OrgStatement → Prop
  | join _ e _ => e.accountId = accountId
  | addMember _ account _ time => account = accountId ∧ time = now
  | oidc _ _ e _ => e.accountId = accountId
  | _ => False

/-- Whether a new member will be covered. -/
def CoversNew (org : Org) (spaceId accountId : Bytes) (now : Int64) : OrgStatement → Prop
  | .addMember .. => ∀ vault ∈ org.spaceWideVaults spaceId,
      org.holdsLive vault.1 accountId now = true ∨ org.GrantOffered vault accountId ∨
        org.grantWaits vault.1 accountId = false
  | .oidc _ _ e _ => ∀ vault ∈ org.spaceWideVaults spaceId,
      org.db.holdsGrant vault.1 (org.keyOf accountId e.keys) now = true ∨
        org.GrantOffered vault accountId
  | _ => True

instance (org : Org) (spaceId accountId : Bytes) (now : Int64) (q : OrgStatement) :
    Decidable (CoversNew org spaceId accountId now q) := by
  rcases q with ⟨⟩ <;> unfold CoversNew <;> infer_instance

variable {org : Org}

/-- A transaction that changed something went through. -/
theorem exists_ok_of_changed {P : Org → Prop} (before : ¬ P org)
    (after : P (OrgStatement.orRollback org result).2) : ∃ org', result = .ok org' ∧ P org' := by
  cases result with
  | ok org' => exact ⟨org', rfl, after⟩
  | error => exact absurd after before

variable {q : OrgStatement} {now : Int64}

theorem exec_covered (admits : q.Admits accountId now)
    (before : org.memberRole spaceId accountId = none)
    (after : (q.exec org).2.memberRole spaceId accountId ≠ none) :
    (q.exec org).2.Covered spaceId accountId now ↔ CoversNew org spaceId accountId now q := by
  cases q with
  | join _ e =>
    obtain rfl := admits
    obtain ⟨org', ran, after⟩ := exists_ok_of_changed (P := fun o => o.memberRole spaceId e.accountId ≠ none)
      (fun new => new before) after
    rw [OrgStatement.exec, ran]
    obtain ⟨_, found, db, spaceWide, actions⟩ := joinTx_actions ran
    have invited := joinTx_spaces ran found before after
    refine iff_of_true (fun _ listed => .inr (grantOffered_policy ?_)) trivial
    dsimp only [OrgStatement.orRollback] at listed ⊢
    rw [Org.spaceWideVaults, db, spaceWide] at listed
    rw [actions]
    exact mem_append_right _ (mem_map_of_mem (mem_flatMap.mpr ⟨spaceId, invited, listed⟩))
  | addMember space account =>
    obtain ⟨rfl, rfl⟩ := admits
    obtain ⟨org', ran, after⟩ := exists_ok_of_changed (P := fun o => o.memberRole spaceId account ≠ none)
      (fun new => new before) after
    obtain rfl : space = spaceId := by
      by_contra other
      obtain ⟨_, edge, rfl⟩ := addMemberTx_eq_ok ran
      rw [enqueueSpaceWideGrants_eq] at after
      have absent := addEdge_absent (fun same => other (congrArg Prod.fst same))
        (memberRole_eq_none.mp before) edge
      exact after (memberRole_eq_none.mpr absent)
    rw [OrgStatement.exec, ran]
    exact addMemberTx_covered ran
  | oidc _ _ e =>
    obtain rfl := admits
    obtain ⟨_, ran, -⟩ := exists_ok_of_changed (P := fun o => o.memberRole spaceId e.accountId ≠ none)
      (fun new => new before) after
    rw [OrgStatement.exec, ran]
    exact oidcTx_covered ran
  | _ => exact absurd admits id

/-! ## Grants that wait twice -/

/-- The invite of a join names no space twice, and none with a vault whose grant waits already. -/
def JoinsFresh (org : Org) : OrgStatement → Prop
  | .join token e _ => ∀ invite ∈ org.invites[token]?, (invite.spaceIntents.map Prod.fst).Nodup ∧
        ∀ vault ∈ (invite.spaceIntents.map Prod.fst).flatMap org.spaceWideVaults,
          org.actions.countP (Org.isPolicyGrant vault.1 e.accountId) = 0
  | _ => True

instance (org : Org) (q : OrgStatement) : Decidable (JoinsFresh org q) := by
  rcases q with ⟨⟩ <;> unfold JoinsFresh <;> infer_instance

namespace Org

variable {org org' : Org} {accountId : Bytes} {vaults : List (Bytes × Option Nat)}

theorem countP_policyAction (distinct : (vaults.map Prod.fst).Nodup) (vaultId account : Bytes) :
    (vaults.map (policyAction accountId)).countP (isPolicyGrant vaultId account) ≤
      if account = accountId ∧ vaultId ∈ vaults.map Prod.fst then 1 else 0 := by
  have isGrant (vault : Bytes × Option Nat) :
      isPolicyGrant vaultId account (policyAction accountId vault) = true ↔
        vault.1 = vaultId ∧ accountId = account := by
    simp [isPolicyGrant, policyAction]
  rw [countP_map]
  split
  · next =>
    have counted : vaults.countP (isPolicyGrant vaultId account ∘ policyAction accountId) ≤
        (vaults.map Prod.fst).count vaultId := by
      rw [List.count, countP_map]
      refine countP_mono_left fun vault _ chosen => ?_
      simp [((isGrant vault).mp chosen).1]
    exact counted.trans (nodup_iff_count_le_one.mp distinct vaultId)
  · next neither =>
    rw [Nat.le_zero, countP_eq_zero]
    intro vault mem chosen
    obtain ⟨rfl, rfl⟩ := (isGrant vault).mp chosen
    exact neither ⟨rfl, mem_map_of_mem mem⟩

/-- Actions for vaults of which none waits do not make one wait twice. -/
theorem SingleGrants.append (before : org.SingleGrants) (distinct : (vaults.map Prod.fst).Nodup)
    (none : ∀ vault ∈ vaults, org.actions.countP (isPolicyGrant vault.1 accountId) = 0) :
    { org with actions := org.actions ++ vaults.map (policyAction accountId) }.SingleGrants := by
  intro vaultId account
  rw [countP_append]
  have few := @countP_policyAction accountId _ distinct vaultId account
  split at few
  · next both =>
    obtain ⟨rfl, mem⟩ := both
    obtain ⟨vault, listed, rfl⟩ := mem_map.mp mem
    rw [none vault listed]
    omega
  · have := before vaultId account
    omega

theorem SingleGrants.of_actions (before : org.SingleGrants) (same : org'.actions = org.actions) :
    org'.SingleGrants := by
  unfold SingleGrants
  rw [same]
  exact before

theorem SingleGrants.append_other (before : org.SingleGrants) {actions : List PendingAction}
    (other : ∀ action ∈ actions, action.kind ≠ .grant ∨ action.source ≠ .policy) :
    { org with actions := org.actions ++ actions }.SingleGrants := by
  intro vaultId account
  have none : actions.countP (isPolicyGrant vaultId account) = 0 := by
    rw [countP_eq_zero]
    intro action mem chosen
    obtain ⟨kind, source, -⟩ := of_decide_eq_true chosen
    obtain notGrant | notPolicy := other action mem
    · exact notGrant kind
    · exact notPolicy source
  rw [countP_append, none]
  exact before vaultId account

/-- No grant waits where none of any source does. -/
theorem countP_of_not_waits (idle : org.grantWaits vaultId accountId = false) :
    org.actions.countP (isPolicyGrant vaultId accountId) = 0 := by
  rw [countP_eq_zero]
  intro action mem chosen
  obtain ⟨kind, -, pending, vault, account⟩ := of_decide_eq_true chosen
  have waits : org.grantWaits vaultId accountId = true :=
    any_eq_true.mpr ⟨action, mem, decide_eq_true ⟨kind, vault, account, pending⟩⟩
  exact Bool.false_ne_true (idle.symm.trans waits)

theorem SingleGrants.enqueueSpaceWideGrants (before : org.SingleGrants) (spaceId accountId : Bytes)
    (now : Int64) : (org.enqueueSpaceWideGrants spaceId accountId now).SingleGrants := by
  rw [enqueueSpaceWideGrants_eq]
  refine before.append ?_ fun vault mem => countP_of_not_waits ?_
  · exact (org.spaceWideVaults_distinct spaceId).sublist (filter_sublist.map _)
  · have missing := (mem_filter.mp mem).2
    simpa using (Bool.and_eq_true_iff.mp missing).2

theorem flatMap_distinct (org : Org) {spaces : List Bytes} (distinct : spaces.Nodup) :
    ((spaces.flatMap org.spaceWideVaults).map Prod.fst).Nodup := by
  rw [map_flatMap, nodup_flatMap]
  refine ⟨fun spaceId _ => org.spaceWideVaults_distinct spaceId, distinct.imp fun differ => ?_⟩
  intro _ inFirst inSecond
  obtain ⟨first, memFirst, rfl⟩ := mem_map.mp inFirst
  obtain ⟨_, memSecond, same⟩ := mem_map.mp inSecond
  have ofFirst := (mem_filter.mp memFirst).2
  have ofSecond := (mem_filter.mp memSecond).2
  rw [same] at ofSecond
  cases found : org.db.vaults[first.1]? with
  | none => simp [found] at ofFirst
  | some =>
    simp only [found, any_some, decide_eq_true_eq] at ofFirst ofSecond
    exact differ (some.inj (ofFirst.1.symm.trans ofSecond.1))

theorem SingleGrants.join (before : org.SingleGrants) {token : Bytes}
    (ran : org.joinTx token e now = .ok org') (fresh : JoinsFresh org (.join token e now)) :
    org'.SingleGrants := by
  obtain ⟨invite, found, -, -, actions⟩ := joinTx_actions ran
  obtain ⟨distinct, none⟩ := fresh invite found
  have invited : ({ org with
      actions := org.actions ++ invite.vaultIntents.map (inviteAction e.accountId) } :
        Org).SingleGrants := by
    refine before.append_other fun action mem => ?_
    obtain ⟨intent, -, rfl⟩ := mem_map.mp mem
    exact .inr nofun
  refine (invited.append (org.flatMap_distinct distinct) fun vault mem => ?_).of_actions actions
  rw [countP_append, none vault mem, Nat.zero_add, countP_eq_zero]
  intro _ mem chosen
  obtain ⟨_, -, rfl⟩ := mem_map.mp mem
  exact nomatch (of_decide_eq_true chosen).2.1

/-- An action that is done counts no more. -/
theorem SingleGrants.markDone (before : org.SingleGrants) (which : PendingAction → Bool) :
    (org.markDone which).SingleGrants := by
  intro vaultId account
  refine le_trans ?_ (before vaultId account)
  rw [Org.markDone, countP_map]
  refine countP_mono_left fun action _ chosen => ?_
  simp only [Function.comp_apply] at chosen
  split at chosen
  · exact nomatch (of_decide_eq_true chosen).2.2.1
  · exact chosen

end Org

theorem exec_singleGrants (before : org.SingleGrants) (fresh : JoinsFresh org q) :
    (q.exec org).2.SingleGrants := by
  obtain ⟨_, isAfter, effect⟩ := q.exec_effect org
  rw [isAfter]
  cases effect with
  | createSpace ran =>
    exact before.of_actions (addEdge_samePolicy (createSpace_eq_ok ran).2).actions
  | addMember edge =>
    exact (before.of_actions (addEdge_samePolicy edge).actions).enqueueSpaceWideGrants _ _ _
  | @setRole _ _ _ _ _ updated update =>
    have after : updated.SingleGrants := by
      obtain rfl | changed := update
      · exact before
      · obtain ⟨_, -, -, rfl⟩ := updatedRole_eq_some changed
        exact before.of_actions rfl
    split
    · exact after.enqueueSpaceWideGrants _ _ _
    · exact after
  | enqueueRevokes =>
    refine before.append_other fun action mem => ?_
    obtain ⟨_, -, rfl⟩ := mem_map.mp mem
    exact .inl nofun
  | claim enrols created =>
    have same := trans_of Org.SamePolicy enrols.samePolicy
      ⟨(addEdge_samePolicy (createSpace_eq_ok created).2).db,
        (addEdge_samePolicy (createSpace_eq_ok created).2).spaceWide,
        (addEdge_samePolicy (createSpace_eq_ok created).2).actions⟩
    exact before.of_actions same.actions
  | join ran => exact before.join ran fresh
  | oidc ran => exact before.of_actions (oidcTx_samePolicy ran).actions
  | markPublished => exact before.markDone _
  | _ => exact before.of_actions rfl

/-- A new member has every space-wide vault, or a grant waiting, exactly when `CoversNew` says so;
and with fresh joins no grant of the policy waits twice. -/
theorem every_way_in_covers_iff (org : Org) :
    (∀ q spaceId accountId now, q.Admits accountId now → org.memberRole spaceId accountId = none →
        (q.exec org).2.memberRole spaceId accountId ≠ none →
          ((q.exec org).2.Covered spaceId accountId now ↔ CoversNew org spaceId accountId now q)) ∧
      ∀ running : List (Process OrgStatement OrgStatement.Res (Except AppError Unit)),
        Org.Reaches JoinsFresh {} org running → org.SingleGrants := by
  refine ⟨fun _ _ _ _ admits before after => exec_covered admits before after,
    fun running reached => ?_⟩
  have start : ({} : Org).SingleGrants := fun _ _ => Nat.zero_le 1
  exact reached.keeps start fun _ _ before fresh _ => exec_singleGrants before fresh

namespace Sample

/-- The owner's vault of the first space, for all its members to edit. -/
def spaceWideVault : OrgRequest :=
  .claimVault [7, 0] [5] (claimedRow [1] [7, 0] (some [3]) 0) (some (some 1))

/-- A group whose members are members of the first space. -/
def memberGroup : OrgHandler.GroupMapping := ⟨[9], [3], .member⟩

/-- An invite to the first space. -/
def spaceInvite (token : UInt8) : OrgRequest :=
  .inviteCreate [token]
    { spaceIntents := [([3], .member)], vaultIntents := [], expiresAt := 9, redeemed := false }

/-- The instance with a space-wide vault in its first space. -/
def withVault : Org := Org.served (Org.served {} (.claim (keysOf 7) [1] [2] [3])) spaceWideVault

end Sample

open UniSsh.Server.Sample

/-- A member by a group gets no grant, and a member who joins once more gets two. -/
theorem group_member_not_covered :
    (∃ org running, Org.Reaches (fun _ _ => True) {} org running ∧
      org.memberRole [3] [1, 0] = some .member ∧ ¬ org.Covered [3] [1, 0] 0) ∧
    ∃ org running, Org.Reaches (fun _ _ => True) {} org running ∧ ¬ org.SingleGrants := by
  have start : Org.Reaches (fun _ _ => True) {} {} [] := .init
  obtain ⟨_, claimed⟩ := start.serve (.claim (keysOf 7) [1] [2] [3]) (by decide)
  obtain ⟨_, vault⟩ := claimed.serve spaceWideVault (by decide)
  constructor
  · obtain ⟨_, joined⟩ := vault.serve (signIn [memberGroup] (keysOf 8) 1 [[9]]) (by decide)
    exact ⟨withVault.served (signIn [memberGroup] (keysOf 8) 1 [[9]]),
      _, joined, by decide, by decide⟩
  · obtain ⟨_, first⟩ := vault.serve (spaceInvite 1) (by decide)
    obtain ⟨_, second⟩ := first.serve (spaceInvite 2) (by decide)
    obtain ⟨_, joined⟩ := second.serve (.join (keysOf 8) [1] [8] [10] 0) (by decide)
    obtain ⟨_, again⟩ := joined.serve (.join (keysOf 8) [2] [12] [11] 0) (by decide)
    refine ⟨_, _, again, fun single => absurd (single [5] [8]) ?_⟩
    decide

/-- Someone joins, and someone else is added directly. -/
theorem every_way_in_covers_iff_joined :
    ∃ org running, Org.Reaches JoinsFresh {} org running ∧ org.actions.length = 1 ∧
      org.SingleGrants ∧
      org.memberRole [3] [14] = none ∧
      ((OrgStatement.addMember [3] [14] .member 0).exec org).2.Covered [3] [14] 0 := by
  have start : Org.Reaches JoinsFresh {} {} [] := .init
  obtain ⟨_, claimed⟩ := start.serve (.claim (keysOf 7) [1] [2] [3]) (by decide)
  obtain ⟨_, vault⟩ := claimed.serve spaceWideVault (by decide)
  obtain ⟨_, invited⟩ := vault.serve (spaceInvite 1) (by decide)
  obtain ⟨_, joined⟩ := invited.serve (.join (keysOf 8) [1] [8] [10] 0) (by decide)
  obtain ⟨_, signedIn⟩ := joined.serve
    (.oidcCallback [] (keysOf 9) [1] ([1], [2]) [] [14] [15] [16]) (by decide)
  have covered := ((every_way_in_covers_iff
    (((withVault.served (spaceInvite 1)).served (.join (keysOf 8) [1] [8] [10] 0)).served
      (.oidcCallback [] (keysOf 9) [1] ([1], [2]) [] [14] [15] [16]))).1
    (.addMember [3] [14] .member 0) [3] [14] 0 ⟨rfl, rfl⟩ (by decide)
    (by decide)).mpr (by decide)
  exact ⟨_, _, signedIn, rfl, (every_way_in_covers_iff _).2 _ signedIn, rfl, covered⟩

end UniSsh.Server
