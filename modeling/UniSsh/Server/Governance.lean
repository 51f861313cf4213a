import UniSsh.Server.OrgRuns

/-!
# Spaces have admins, the instance has its owner

Removals by hand count the admins if they read that the member is one; the others may remove the
last admin. Without those every space keeps an admin, and the claim owner always stays an active
owner.
-/

namespace UniSsh.Server

open Org

open Table

namespace Org

variable {org org' : Org} {spaceId accountId : Bytes}

/-! ## Admins -/

def HasAdmin (org : Org) (spaceId : Bytes) : Prop :=
  ∃ accountId, org.memberRole spaceId accountId = some .admin

variable {role : SpaceRole}

theorem memberRole_eq_some :
    org.memberRole spaceId accountId = some role ↔
      ∃ row, org.members[(spaceId, accountId)]? = some row ∧ row.role = role :=
  map_eq_some_iff

/-- Memberships are of spaces that exist, and every space has an admin. -/
structure Administered (org : Org) : Prop where
  known : ∀ (key : Bytes × Bytes) row, org.members[key]? = some row →
    key.1 ∈ org.spaces
  admins : ∀ spaceId ∈ org.spaces, org.HasAdmin spaceId

/-- An admin besides the account. -/
theorem exists_other_admin (more : 1 < org.adminCount spaceId) :
    ∃ other, other ≠ accountId ∧ org.memberRole spaceId other = some .admin := by
  obtain ⟨⟨_, other⟩, row, found, chosen, differ⟩ :=
    exists_ne_of_one_lt_countP org.members more (spaceId, accountId)
  obtain ⟨rfl, admin⟩ := of_decide_eq_true chosen
  exact ⟨other, fun same => differ (by rw [same]), memberRole_eq_some.mpr ⟨row, found, admin⟩⟩

section

variable (before : org.Administered)
include before

/-- Without a member, a space keeps its other admins, and other spaces all of theirs. -/
theorem Administered.removeMember (other : spaceId ∈ org.spaces →
      ∃ other, other ≠ accountId ∧ org.memberRole spaceId other = some .admin) :
    (org.removeMember spaceId accountId).Administered := by
  constructor
  · intro key row found
    rw [Org.removeMember, Std.ExtTreeMap.getElem?_erase] at found
    split at found
    · exact nomatch found
    · exact before.known key row found
  · intro space listed
    by_cases same : space = spaceId
    · obtain rfl := same
      obtain ⟨admin, differ, isAdmin⟩ := other listed
      refine ⟨admin, ?_⟩
      rw [memberRole, Org.removeMember, getElem?_erase_of_ne]
      · exact isAdmin
      · exact fun same => differ (congrArg Prod.snd same)
    · obtain ⟨admin, isAdmin⟩ := before.admins space listed
      refine ⟨admin, ?_⟩
      rw [memberRole, Org.removeMember, getElem?_erase_of_ne]
      · exact isAdmin
      · exact fun isKey => same (congrArg Prod.fst isKey)

theorem Administered.of_eq (members : org'.members = org.members)
    (spaces : org'.spaces = org.spaces) : org'.Administered := by
  constructor
  · rw [members, spaces]
    exact before.known
  · unfold HasAdmin memberRole
    rw [members, spaces]
    exact before.admins

/-- A row of a space that exists, unless it takes the place of the last admin's. -/
theorem Administered.insert (listed : spaceId ∈ org.spaces) (kept : row.role = .admin ∨
      ∃ other, other ≠ accountId ∧ org.memberRole spaceId other = some .admin) :
    { org with members := org.members.insert (spaceId, accountId) row }.Administered := by
  constructor
  · intro key old found
    obtain ⟨rfl, -⟩ | ⟨-, found⟩ := of_insert found
    · exact listed
    · exact before.known key old found
  · intro space listed'
    by_cases same : space = spaceId
    · obtain rfl := same
      obtain isAdmin | ⟨other, differ, isAdmin⟩ := kept
      · exact ⟨accountId, memberRole_eq_some.mpr ⟨row, getElem?_insert_self, isAdmin⟩⟩
      · refine ⟨other, ?_⟩
        rw [memberRole, getElem?_insert, if_neg]
        · exact isAdmin
        · exact fun isKey => differ (congrArg Prod.snd isKey).symm
    · obtain ⟨admin, isAdmin⟩ := before.admins space listed'
      refine ⟨admin, ?_⟩
      rw [memberRole, getElem?_insert, if_neg]
      · exact isAdmin
      · exact fun isKey => same (congrArg Prod.fst isKey).symm

theorem Administered.addEdge
    (added : org.addEdge spaceId accountId role = .ok org') : org'.Administered := by
  obtain rfl | ⟨absent, inserted⟩ := addEdge_eq_ok added
  · exact before
  obtain ⟨⟨listed, -⟩, rfl⟩ := insertMember_eq_ok.mp inserted
  obtain ⟨admin, isAdmin⟩ := before.admins spaceId listed
  refine before.insert listed (.inr ⟨admin, ?_, isAdmin⟩)
  rintro rfl
  obtain ⟨_, found, -⟩ := memberRole_eq_some.mp isAdmin
  exact nomatch absent.symm.trans found

theorem Administered.createSpace (created : org.createSpace spaceId creator = .ok org') :
    org'.Administered := by
  obtain ⟨fresh, added⟩ := createSpace_eq_ok created
  -- a space that is new has no member
  have absent (accountId : Bytes) : org.members[(spaceId, accountId)]? = none := by
    cases found : org.members[(spaceId, accountId)]? with
    | none => rfl
    | some row => exact absurd (before.known _ row found) fresh
  simp only [Org.addEdge, absent] at added
  obtain ⟨-, rfl⟩ := insertMember_eq_ok.mp added
  constructor
  · intro key row found
    obtain ⟨rfl, -⟩ | ⟨-, found⟩ := of_insert found
    · exact List.mem_cons_self
    · exact List.mem_cons_of_mem _ (before.known key row found)
  · intro space listed
    obtain rfl | old := List.mem_cons.mp listed
    · exact ⟨creator, memberRole_eq_some.mpr ⟨_, getElem?_insert_self, rfl⟩⟩
    · obtain ⟨admin, isAdmin⟩ := before.admins space old
      refine ⟨admin, ?_⟩
      rw [memberRole, getElem?_insert, if_neg]
      · exact isAdmin
      · intro isKey
        obtain ⟨rfl, -⟩ := Prod.mk.inj isKey
        exact fresh old

theorem Administered.updatedRole
    (updated : org.updatedRole spaceId accountId role = some org') : org'.Administered := by
  obtain ⟨row, found, guarded, rfl⟩ := updatedRole_eq_some updated
  refine before.insert (before.known _ row found) ?_
  cases role with
  | admin => exact .inl rfl
  | member =>
    refine .inr ?_
    by_cases isAdmin : row.role = .admin
    · -- the update counted another admin
      have more : 1 < org.adminCount spaceId := by
        by_contra few
        exact guarded ⟨nofun, isAdmin, Nat.not_lt.mp few⟩
      exact exists_other_admin more
    · obtain ⟨admin, holds⟩ := before.admins spaceId (before.known _ row found)
      refine ⟨admin, ?_, holds⟩
      rintro rfl
      obtain ⟨_, found', isAdmin'⟩ := memberRole_eq_some.mp holds
      cases found.symm.trans found'
      exact isAdmin isAdmin'

end

/-! ## Memberships of the identity provider -/

/-- An admin that a sign-in of the account keeps: of another account, made by hand, or mapped to
admin again. -/
structure Lasting (accountId : Bytes) (desired : List (Bytes × SpaceRole)) (key : Bytes × Bytes)
    (row : SpaceMember) : Prop where
  admin : row.role = .admin
  kept : key.2 ≠ accountId ∨ row.source = .manual ∨
    key.1 ∈ desired.map Prod.fst ∧ ∀ d ∈ desired, d.1 = key.1 → d.2 = .admin

def HasLasting (accountId : Bytes) (desired : List (Bytes × SpaceRole)) (key : Bytes × Bytes)
    (org : Org) : Prop :=
  ∃ row, org.members[key]? = some row ∧ Lasting accountId desired key row

variable {desired : List (Bytes × SpaceRole)} {key : Bytes × Bytes}

theorem HasLasting.upsertOidc (before : HasLasting accountId desired key org) (mem : d ∈ desired)
    (upserted : org.upsertOidc accountId d.1 d.2 = .ok org') :
    HasLasting accountId desired key org' := by
  obtain ⟨row, found, admin, kept⟩ := before
  unfold Org.upsertOidc at upserted
  split at upserted
  · cases upserted
    exact ⟨row, found, admin, kept⟩
  · next notManual =>
    obtain ⟨-, rfl⟩ := insertMember_eq_ok.mp upserted
    by_cases isKey : (d.1, accountId) = key
    · obtain rfl := isKey
      obtain other | manual | ⟨mapped, toAdmin⟩ := kept
      · exact absurd rfl other
      · exact absurd found (by obtain ⟨_, _⟩ := row; obtain rfl := manual; exact notManual _)
      · exact ⟨_, getElem?_insert_self,
          toAdmin d mem rfl, .inr (.inr ⟨mapped, toAdmin⟩)⟩
    · exact ⟨row, by rw [getElem?_insert, if_neg isKey, found], admin, kept⟩

theorem HasLasting.deleteOidc (before : HasLasting accountId desired key org)
    (unmapped : spaceId ∉ desired.map Prod.fst) :
    HasLasting accountId desired key (deleteOidc accountId org spaceId) := by
  obtain ⟨row, found, admin, kept⟩ := before
  unfold Org.deleteOidc
  split
  · next isOidc =>
    refine ⟨row, ?_, admin, kept⟩
    rw [getElem?_erase_of_ne]
    · exact found
    rintro rfl
    obtain other | manual | ⟨mapped, -⟩ := kept
    · exact other rfl
    · rw [Option.some.inj (found.symm.trans isOidc)] at manual
      exact nomatch manual
    · exact unmapped mapped
  · exact ⟨row, found, admin, kept⟩

/-- Memberships change only for spaces that exist. -/
def Known (org : Org) : Prop :=
  ∀ (key : Bytes × Bytes) row, org.members[key]? = some row → key.1 ∈ org.spaces

theorem upsertOidc_known (before : org.Known)
    (upserted : org.upsertOidc accountId spaceId role = .ok org') :
    org'.Known ∧ org'.spaces = org.spaces := by
  unfold Org.upsertOidc at upserted
  split at upserted
  · cases upserted
    exact ⟨before, rfl⟩
  · obtain ⟨⟨listed, -⟩, rfl⟩ := insertMember_eq_ok.mp upserted
    refine ⟨fun key row found => ?_, rfl⟩
    obtain ⟨rfl, -⟩ | ⟨-, found⟩ := of_insert found
    · exact listed
    · exact before key row found

theorem deleteOidc_known (before : org.Known) :
    (deleteOidc accountId org spaceId).Known ∧
      (deleteOidc accountId org spaceId).spaces = org.spaces := by
  unfold Org.deleteOidc
  split
  · refine ⟨fun key row found => ?_, rfl⟩
    rw [Std.ExtTreeMap.getElem?_erase] at found
    split at found
    · exact nomatch found
    · exact before key row found
  · exact ⟨before, rfl⟩

variable {token : Bytes} {e : Enrolment}

theorem Administered.oidc (before : org.Administered)
    (ran : org.oidcTx token external e desired = .ok org')
    (lasting : ∀ spaceId ∈ org.spaces, ∃ account,
      HasLasting e.accountId desired (spaceId, account) org) : org'.Administered := by
  obtain ⟨enrolled, mapped, enrols, map, rfl⟩ := oidcTx_eq_ok ran
  -- the enrolment leaves memberships and spaces alone
  have members : enrolled.members = org.members := by rw [← enrols.rest]
  have spaces : enrolled.spaces = org.spaces := by rw [← enrols.rest]
  have mappedKnown : mapped.Known ∧ mapped.spaces = org.spaces := by
    refine foldlM_invariant (I := fun o => o.Known ∧ o.spaces = org.spaces) ?_ ?_ map
    · intro d _ o o' holds upserted
      obtain ⟨known, same⟩ := upsertOidc_known holds.1 upserted
      exact ⟨known, same.trans holds.2⟩
    · refine ⟨?_, spaces⟩
      unfold Known
      rw [members, spaces]
      exact before.known
  have finalKnown := List.foldlRecOn
    ((mapped.oidcSpaces e.accountId).filter fun spaceId => spaceId ∉ desired.map Prod.fst)
    (Org.deleteOidc e.accountId)
    (motive := fun o => o.Known ∧ o.spaces = org.spaces) mappedKnown
    fun o holds spaceId _ =>
      ⟨(deleteOidc_known holds.1).1, (deleteOidc_known holds.1).2.trans holds.2⟩
  refine ⟨finalKnown.1, fun spaceId listed => ?_⟩
  rw [finalKnown.2] at listed
  obtain ⟨account, before⟩ := lasting spaceId listed
  have afterMap : HasLasting e.accountId desired (spaceId, account) mapped := by
    refine foldlM_invariant (fun d mem o o' holds upserted => holds.upsertOidc mem upserted) ?_ map
    unfold HasLasting
    rw [members]
    exact before
  have final := List.foldlRecOn
    ((mapped.oidcSpaces e.accountId).filter fun spaceId => spaceId ∉ desired.map Prod.fst)
    (Org.deleteOidc e.accountId) (motive := HasLasting e.accountId desired (spaceId, account))
    afterMap fun o holds space mem =>
      holds.deleteOidc (of_decide_eq_true (List.mem_filter.mp mem).2)
  obtain ⟨row, found, admin, -⟩ := final
  exact ⟨account, memberRole_eq_some.mpr ⟨row, found, admin⟩⟩

/-- Memberships and spaces are as they were. -/
structure SameMembers (org org' : Org) : Prop where
  members : org'.members = org.members
  spaces : org'.spaces = org.spaces

instance : Std.Refl SameMembers := ⟨fun _ => ⟨rfl, rfl⟩⟩

instance : IsTrans Org SameMembers where
  trans _ _ _ first second :=
    ⟨second.members.trans first.members, second.spaces.trans first.spaces⟩

theorem SameMembers.administered (same : org.SameMembers org') (before : org.Administered) :
    org'.Administered :=
  before.of_eq same.members same.spaces

variable {now : Int64}

theorem enqueueSpaceWideGrants_sameMembers :
    org.SameMembers (org.enqueueSpaceWideGrants spaceId accountId now) := by
  refine foldl_rel (fun org vault => ?_) _ _
  unfold enqueueMissing
  split
  · exact refl_of _ _
  split <;> exact ⟨rfl, rfl⟩

theorem enqueue_sameMembers (org : Org) (action : PendingAction) :
    org.SameMembers (org.enqueue action) :=
  ⟨rfl, rfl⟩

variable {isOwner : Bool} {external : Option (Bytes × Bytes)}

theorem Enrols.sameMembers (enrols : Enrols e isOwner external org org') :
    org.SameMembers org' := by
  rw [← enrols.rest]
  exact ⟨rfl, rfl⟩

theorem Administered.join (before : org.Administered) (ran : org.joinTx token e now = .ok org') :
    org'.Administered := by
  obtain ⟨_, _, enrolled, joined, redeem, enrols, join, rfl⟩ := joinTx_eq_ok ran
  obtain ⟨-, rfl⟩ := redeem_eq_ok redeem
  have start : enrolled.Administered := enrols.sameMembers.administered (before.of_eq rfl rfl)
  have members : joined.Administered :=
    foldlM_invariant (fun _ _ _ _ holds added => holds.addEdge added) start join
  refine SameMembers.administered (trans_of SameMembers (foldl_rel enqueue_sameMembers _ _)
    (foldl_rel (fun o space => ?_) _ _)) members
  exact foldl_rel (fun o _ => enqueue_sameMembers o _) _ _

/-! ## The claim owner -/

/-- The account that claimed the instance is an active owner. -/
def Owned (org : Org) : Prop :=
  ∀ id : Bytes, org.claimOwner = some id →
    ∃ account, org.accounts[id]? = some account ∧ account.isOwner = true ∧ account.active = true

theorem Owned.of_same (before : org.Owned) (same : org.SameIdentities org') : org'.Owned := by
  unfold Owned
  rw [same.accounts, same.claimOwner]
  exact before

/-- A change of an account other than the owner's, or one that takes nothing from it. -/
theorem Owned.setAccount (before : org.Owned) {set : AccountRow → AccountRow}
    (keeps : org.claimOwner = some accountId → ∀ row, row.isOwner = true → row.active = true →
      (set row).isOwner = true ∧ (set row).active = true) :
    { org with accounts := org.accounts.updateWhere (fun k _ => k = accountId) set }.Owned := by
  intro id isOwner
  obtain ⟨account, found, owner, active⟩ := before id isOwner
  by_cases same : id = accountId
  · obtain rfl := same
    refine ⟨set account, ?_, keeps isOwner account owner active⟩
    simp [found]
  · exact ⟨account, by simp [found, same], owner, active⟩

theorem Enrols.owned (enrols : Enrols e isOwner external org org') (before : org.Owned) :
    org'.Owned := by
  intro id isOwner
  rw [← enrols.rest] at isOwner
  obtain ⟨account, found, holds⟩ := before id isOwner
  obtain ⟨-, accounts⟩ | ⟨-, absent, -, accounts⟩ := enrols.account
  · exact ⟨account, by rw [accounts, found], holds⟩
  · exact ⟨account, accounts ▸ insert_of_free absent found, holds⟩

end Org

/-- A membership removed without counting admins leaves another admin. -/
def KeepsAnAdmin (org : Org) : OrgStatement → Prop
  | .removeMember spaceId accountId => spaceId ∈ org.spaces → ∃ entry ∈ org.members.toList,
      entry.1.1 = spaceId ∧ entry.1.2 ≠ accountId ∧ entry.2.role = .admin
  | .oidc _ _ e desired => ∀ spaceId ∈ org.spaces, ∃ entry ∈ org.members.toList,
      entry.1.1 = spaceId ∧ entry.2.role = .admin ∧
        (entry.1.2 ≠ e.accountId ∨ entry.2.source = .manual ∨
          spaceId ∈ desired.map Prod.fst ∧ ∀ d ∈ desired, d.1 = spaceId → d.2 = .admin)
  | _ => True

instance (org : Org) (q : OrgStatement) : Decidable (KeepsAnAdmin org q) := by
  rcases q with ⟨⟩ <;> unfold KeepsAnAdmin <;> infer_instance

variable {org : Org} {q : OrgStatement}

theorem exec_administered (before : org.Administered) (fine : KeepsAnAdmin org q) :
    (OrgStatement.exec q org).2.Administered := by
  obtain ⟨_, isAfter, effect⟩ := q.exec_effect org
  rw [isAfter]
  cases effect with
  | createSpace ran => exact before.createSpace ran
  | addMember edge =>
    exact enqueueSpaceWideGrants_sameMembers.administered (before.addEdge edge)
  | @removeAdmin _ accountId more =>
    exact before.removeMember fun _ => exists_other_admin more
  | removeMember =>
    refine before.removeMember fun listed => ?_
    obtain ⟨⟨⟨_, other⟩, row⟩, mem, rfl, differ, admin⟩ := fine listed
    have found := mem_toList_iff_getElem?_eq_some.mp mem
    exact ⟨other, differ, memberRole_eq_some.mpr ⟨row, found, admin⟩⟩
  | @setRole _ _ _ _ _ updated update =>
    have after : updated.Administered := by
      obtain rfl | changed := update
      · exact before
      · exact before.updatedRole changed
    split
    · exact enqueueSpaceWideGrants_sameMembers.administered after
    · exact after
  | claim enrols created =>
    exact (enrols.sameMembers.administered (before.of_eq rfl rfl)).createSpace created
  | join ran => exact before.join ran
  | oidc ran =>
    refine before.oidc ran fun spaceId listed => ?_
    obtain ⟨⟨⟨_, account⟩, row⟩, mem, rfl, admin, kept⟩ := fine spaceId listed
    exact ⟨account, row, mem_toList_iff_getElem?_eq_some.mp mem, admin, kept⟩
  | _ => exact before.of_eq rfl rfl

theorem exec_owned (before : org.Owned) (safe : Safe org q) :
    (OrgStatement.exec q org).2.Owned := by
  by_cases quiet : q.WritesIdentities
  case neg => exact before.of_same (exec_same quiet)
  obtain ⟨_, isAfter, effect⟩ := q.exec_effect org
  rw [isAfter]
  cases effect with
  | @setStatus _ active =>
    refine before.setAccount fun isOwner row owner _ => ⟨owner, ?_⟩
    cases active with
    | true => rfl
    | false => exact absurd isOwner (safe rfl).2
  | @setOwner _ isOwner =>
    refine before.setAccount fun isClaimOwner row _ active => ⟨?_, active⟩
    cases isOwner with
    | true => rfl
    | false => exact absurd isClaimOwner (safe rfl).2
  | @claim e _ _ _ enrols created =>
    have same := createSpace_same created
    intro id isOwner
    rw [same.claimOwner, ← enrols.rest] at isOwner
    cases isOwner
    obtain ⟨old, -⟩ | ⟨-, -, -, accounts⟩ := enrols.account
    · exact nomatch old.symm.trans safe
    refine ⟨{ keys := e.keys, isOwner := true, active := true, external := none }, ?_, rfl, rfl⟩
    rw [same.accounts, accounts]
    exact getElem?_insert_self
  | join ran =>
    obtain ⟨_, _, enrolled, _, redeem, enrols, join, rfl⟩ := joinTx_eq_ok ran
    obtain ⟨-, rfl⟩ := redeem_eq_ok redeem
    exact (enrols.owned before).of_same (joinTx_same join)
  | oidc ran =>
    obtain ⟨_, _, enrols, map, rfl⟩ := oidcTx_eq_ok ran
    exact (enrols.owned before).of_same (oidcTx_same map)
  | nothing | createDevice | createSession => exact before
  | _ => exact absurd quiet id

/-- The claim owner is an active owner, and every space has an admin if uncounted removals leave
one. -/
theorem spaces_keep_admins {allowed : Org → OrgStatement → Prop} {org : Org}
    {running : List (Process OrgStatement OrgStatement.Res (Except AppError Unit))}
    (reached : Org.Reaches allowed {} org running) :
    ((∀ org q, allowed org q → KeepsAnAdmin org q) → ∀ spaceId ∈ org.spaces, org.HasAdmin spaceId) ∧
      org.Owned := by
  constructor
  · intro fine
    have holds : org.Administered := by
      refine reached.keeps (I := Administered) ⟨?_, ?_⟩ fun _ _ before now _ =>
        exec_administered before (fine _ _ now)
      · simp
      · simp
    exact holds.admins
  · refine reached.keeps (I := Owned) ?_ fun _ _ before _ safe => exec_owned before safe
    intro _ isOwner
    exact nomatch isOwner

namespace Sample

/-- A group whose members are admins of the first space. -/
def adminGroup : OrgHandler.GroupMapping := ⟨[9], [3], .admin⟩

/-- The owner claims the instance. -/
def claimedOrg : Org := Org.served {} (.claim (keysOf 7) [1] [2] [3])

/-- A subject of the identity provider signs in as an admin of the first space. -/
def joinedByGroup : Org := claimedOrg.served (signIn [adminGroup] (keysOf 8) 1 [[9]])

/-- The owner leaves the space to them. -/
def ownerLeft : Org := joinedByGroup.served (.membersRemove [1] [3] [1])

/-- They sign in again after they left the group. -/
def leftGroup : Org := ownerLeft.served (signIn [adminGroup] (keysOf 8) 2 [])

end Sample

open UniSsh.Server.Sample

/-- The only admin signs in without the group, and the space has none. -/
theorem last_admin_leaves_group :
    ∃ org running, Org.Reaches (fun _ _ => True) {} org running ∧
      ([3] : Bytes) ∈ org.spaces ∧ ¬ org.HasAdmin [3] := by
  have start : Org.Reaches (fun _ _ => True) {} {} [] := .init
  obtain ⟨_, claimed⟩ := start.serve (.claim (keysOf 7) [1] [2] [3]) (by decide)
  obtain ⟨_, joined⟩ := claimed.serve (signIn [adminGroup] (keysOf 8) 1 [[9]])
    (by decide)
  obtain ⟨_, left⟩ := joined.serve (.membersRemove [1] [3] [1]) (by decide)
  obtain ⟨_, ended⟩ := left.serve (signIn [adminGroup] (keysOf 8) 2 [])
    (by decide)
  have nobody : leftGroup.members.toList = [] := by decide
  refine ⟨leftGroup, _, ended, by decide, fun ⟨account, isAdmin⟩ => ?_⟩
  obtain ⟨_, found, -⟩ := memberRole_eq_some.mp isAdmin
  have listed := mem_toList_iff_getElem?_eq_some.mpr found
  rw [nobody] at listed
  exact nomatch listed

/-- The owner leaves the space while an admin of the group is left. -/
theorem spaces_keep_admins_owner_left :
    ∃ org running, Org.Reaches KeepsAnAdmin {} org running ∧ org.members.toList.length = 1 ∧
      ([3] : Bytes) ∈ org.spaces ∧ org.HasAdmin [3] ∧ org.Owned := by
  have start : Org.Reaches KeepsAnAdmin {} {} [] := .init
  obtain ⟨_, claimed⟩ := start.serve (.claim (keysOf 7) [1] [2] [3]) (by decide)
  obtain ⟨_, joined⟩ := claimed.serve (signIn [adminGroup] (keysOf 8) 1 [[9]])
    (by decide)
  obtain ⟨_, left⟩ := joined.serve (.membersRemove [1] [3] [1]) (by decide)
  have listed : ([3] : Bytes) ∈ ownerLeft.spaces := by decide
  obtain ⟨admins, owned⟩ := spaces_keep_admins left
  exact ⟨ownerLeft, _, left, rfl, listed, admins (fun _ _ fine => fine) [3] listed, owned⟩

end UniSsh.Server
