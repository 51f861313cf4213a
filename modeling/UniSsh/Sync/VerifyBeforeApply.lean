import UniSsh.Sync.AntiRollback

/-!
# Verify before apply

Every row a pull changes is an object the transport handed out that passed the checks of its kind
in the storage it was stored into.
-/

namespace UniSsh

open Table

open Storage

variable {P : Primitives} {ctx : SyncContext} {s s' : Storage}

/-! ## What is compared and what was checked -/

/-- A vault record without its local routing label. -/
def VaultRecord.content (v : VaultRecord) : VaultRecord := { v with syncTenant := [] }

/-- An item record without the timestamps its storage stamps on it. -/
def ItemRecord.content (i : ItemRecord) : ItemRecord := { i with createdAt := 0, updatedAt := 0 }

def Storage.vaultContent (s : Storage) (vaultId : Bytes) : Option VaultRecord :=
  (s.getVault vaultId).map VaultRecord.content

def Storage.itemContent (s : Storage) (vaultId itemId : Bytes) : Option ItemRecord :=
  (s.getItem vaultId itemId).map ItemRecord.content

/-- Who may author a record of a vault at an epoch. -/
inductive AuthorEntitled (P : Primitives) (s : Storage) (vaultId authorPubkey : Bytes)
    (keyEpoch : UInt64) (anchor : Bytes) : Prop where
  | owner (noFloor : s.getVaultEpochFloor vaultId = none)
      (noManifest : ∀ epoch, ¬ s.HasManifest vaultId epoch)
      (noPin : s.getVaultTrustAnchor vaultId = none) (same : authorPubkey = anchor)
  | writer (members : VerifiedMembers)
      (governed : s.getVaultEpochFloor vaultId ≠ none ∨ (∃ epoch, s.HasManifest vaultId epoch) ∨
        s.getVaultTrustAnchor vaultId ≠ none)
      (chain : verifyChainToEpoch P s vaultId keyEpoch anchor = .ok members)
      (atEpoch : members.keyEpoch = keyEpoch)
      (role : members.roleOf authorPubkey = some .editor ∨
        members.roleOf authorPubkey = some .admin)

theorem vaultIsMembershipMode_eq_false :
    vaultIsMembershipMode s vaultId = false ↔
      s.getVaultEpochFloor vaultId = none ∧ (∀ epoch, ¬ s.HasManifest vaultId epoch) ∧
        s.getVaultTrustAnchor vaultId = none := by
  rw [← latestMembershipEpoch_eq_none]
  simp [vaultIsMembershipMode, and_assoc]

theorem AuthorEntitled.of_verified
    (accepted : verifyRecordAuthority P s vaultId authorPubkey keyEpoch anchor = .ok ()) :
    AuthorEntitled P s vaultId authorPubkey keyEpoch anchor := by
  rcases verifyRecordAuthority_eq_ok.mp accepted with ⟨mode, same⟩ | ⟨mode, -, members, chain, writes⟩
  · obtain ⟨noFloor, noManifest, noPin⟩ := vaultIsMembershipMode_eq_false.mp mode
    exact .owner noFloor noManifest noPin same
  · have governed : ¬ (s.getVaultEpochFloor vaultId = none ∧
        (∀ epoch, ¬ s.HasManifest vaultId epoch) ∧ s.getVaultTrustAnchor vaultId = none) := by
      intro ungoverned
      rw [vaultIsMembershipMode_eq_false.mpr ungoverned] at mode
      cases mode
    refine .writer members ?_ chain (verifyChainToEpoch_keyEpoch chain) ?_
    · by_cases floor : s.getVaultEpochFloor vaultId = none
      · by_cases pin : s.getVaultTrustAnchor vaultId = none
        · right
          left
          by_contra noManifest
          exact governed ⟨floor, fun epoch has => noManifest ⟨epoch, has⟩, pin⟩
        · exact .inr (.inr pin)
      · exact .inl floor
    · simpa [VerifiedMembers.canWrite] using writes

/-- An admin of its epoch signed the grant, for a member with the role it states. -/
structure GrantAdmitted (P : Primitives) (ctx : SyncContext) (s : Storage) (g : MembershipGrant)
    (members : VerifiedMembers) : Prop where
  aboveFloor : epochFloor s g.vaultId ≤ g.keyEpoch
  chain : verifyChainToEpoch P s g.vaultId g.keyEpoch (vaultAnchor s g.vaultId ctx) = .ok members
  atEpoch : members.keyEpoch = g.keyEpoch
  signed : verifySigned P g.authorPubkey (grantAad g.vaultId g.memberPubkey g.keyEpoch)
    (grantSignedContent g.role g.notAfter g.wrappedVk) g.signature = .ok ()
  byAdmin : members.isAdmin g.authorPubkey = true
  sameRole : members.roleOf g.memberPubkey = some g.role

theorem verifyGrant_eq_ok :
    verifyGrant P g vaultId members = .ok () ↔ g.vaultId = vaultId ∧ g.keyEpoch = members.keyEpoch ∧
        verifySigned P g.authorPubkey (grantAad vaultId g.memberPubkey g.keyEpoch)
          (grantSignedContent g.role g.notAfter g.wrappedVk) g.signature = .ok () ∧
        members.isAdmin g.authorPubkey = true ∧ members.roleOf g.memberPubkey = some g.role := by
  unfold verifyGrant
  by_cases sameVault : g.vaultId = vaultId
  · by_cases sameEpoch : g.keyEpoch = members.keyEpoch
    · rw [if_neg (not_not.mpr sameVault), if_neg (not_not.mpr sameEpoch), bind_eq_ok]
      constructor
      · rintro ⟨_, signed, checked⟩
        split at checked
        · next admin =>
          split at checked
          · cases checked
          · next found =>
            split at checked
            · next same => exact ⟨sameVault, sameEpoch, signed, admin, same ▸ found⟩
            · cases checked
        · cases checked
      · rintro ⟨-, -, signed, admin, found⟩
        refine ⟨(), signed, ?_⟩
        simp [admin, found]
    · simp [sameVault, sameEpoch]
  · simp [sameVault]

/-! ## What one object may write, table by table -/

theorem adoptPulledBinding_vaultContent (s : Storage) (vaultId tenant key : Bytes) :
    (s.adoptPulledBinding vaultId tenant).vaultContent key = s.vaultContent key := by
  unfold Storage.vaultContent Storage.getVault
  rw [adoptPulledBinding_vaults]
  cases s.vaults[key]? with
  | none => rfl
  | some =>
    simp only [map_some]
    split <;> rfl

variable {obj : SyncObject} {result : Except SyncError Outcome}

section

variable (handled : Handled P ctx s obj result s')
include handled

theorem Handled.vaultContent (key : Bytes) :
    s'.vaultContent key = s.vaultContent key ∨ result = .ok .applied ∧
      ∃ v, obj = .vault v ∧ v.vaultId = key ∧ VaultAdmitted P ctx s v ∧
        s'.vaultContent key = some v.content := by
  have frame := handled.frame
  cases handled with
  | kept => exact .inl rfl
  | relabelled v => exact .inl (adoptPulledBinding_vaultContent s v.vaultId ctx.tenant key)
  | vault v _ admitted put =>
    obtain ⟨_, _, sameVersion, sameEpoch, -, rfl⟩ := putVault_eq_ok.mp put
    by_cases same : v.vaultId = key
    · refine .inr ⟨rfl, v, rfl, same, admitted, ?_⟩
      subst same
      simp only [Storage.vaultContent, Storage.getVault, getElem?_insert, if_true,
        map_some, mapVaultRow, Storage.upsertVaultRow, VaultRecord.content, sameVersion, sameEpoch]
    · left
      rw [← adoptPulledBinding_vaultContent s v.vaultId ctx.tenant key]
      simp only [Storage.vaultContent, Storage.getVault, getElem?_insert, if_neg same]
  | _ =>
    left
    unfold Storage.vaultContent Storage.getVault
    rw [frame.vaults (by simp)]

theorem Handled.itemContent (vaultId itemId : Bytes) :
    s'.itemContent vaultId itemId = s.itemContent vaultId itemId ∨ result = .ok .applied ∧
      ∃ i, obj = .item i ∧ (i.vaultId, i.itemId) = (vaultId, itemId) ∧ ItemAdmitted P ctx s i ∧
        s'.itemContent vaultId itemId = some i.content := by
  have frame := handled.frame
  cases handled with
  | kept => exact .inl rfl
  | item i _ admitted put =>
    obtain ⟨_, _, sameVersion, sameEpoch, -, rfl⟩ := putItem_eq_ok.mp put
    by_cases same : (i.vaultId, i.itemId) = (vaultId, itemId)
    · refine .inr ⟨rfl, i, rfl, same, admitted, ?_⟩
      obtain ⟨rfl, rfl⟩ := Prod.mk.inj same
      simp only [Storage.itemContent, Storage.getItem, getElem?_insert, if_true,
        map_some, mapItemRow, Storage.upsertItemRow, ItemRecord.content, sameVersion, sameEpoch]
    · left
      simp only [Storage.itemContent, Storage.getItem, getElem?_insert, if_neg same]
  | _ =>
    left
    unfold Storage.itemContent Storage.getItem
    rw [frame.items (by simp)]

theorem Handled.manifestAt (key : Bytes × SqlInt) :
    s'.membershipManifests[key]? = s.membershipManifests[key]? ∨ result = .ok .applied ∧
      ∃ m members, obj = .membershipManifest m ∧ (m.vaultId, m.keyEpoch) = (key.1, key.2.toU64) ∧
        s'.membershipManifests[key]?.map (mapManifestRow key) = some m ∧
        epochFloor s m.vaultId ≤ m.keyEpoch ∧
        verifyChainToEpoch P s' m.vaultId m.keyEpoch (vaultAnchor s m.vaultId ctx) =
          .ok members := by
  have frame := handled.frame
  cases handled with
  | kept => exact .inl rfl
  | manifest m _ _ members aboveFloor _ stored chain raised =>
    obtain ⟨epoch, sameEpoch, rfl⟩ := putMembershipManifest_eq_ok.mp stored
    obtain ⟨n, -, rfl⟩ := setVaultEpochFloor_eq_ok.mp raised
    by_cases same : (m.vaultId, epoch) = key
    · subst same
      refine .inr ⟨rfl, m, members, rfl, by rw [sameEpoch], ?_, aboveFloor, chain⟩
      simp only [getElem?_insert, if_true, map_some, mapManifestRow, Storage.manifestRow, sameEpoch]
    · left
      simp only [getElem?_insert, if_neg same]
  | floorArmed _ _ _ _ _ _ _ _ raised =>
    obtain ⟨_, _, rfl⟩ := setVaultEpochFloor_eq_ok.mp raised
    exact .inl rfl
  | _ =>
    left
    rw [frame.manifests (by simp)]

theorem Handled.grantAt (key : Bytes × Bytes × SqlInt) :
    s'.membershipGrants[key]? = s.membershipGrants[key]? ∨ result = .ok .applied ∧
      ∃ g members, obj = .membershipGrant g ∧
        (g.vaultId, g.memberPubkey, g.keyEpoch) = (key.1, key.2.1, key.2.2.toU64) ∧
        s'.membershipGrants[key]?.map (mapGrantRow key) = some g ∧
        GrantAdmitted P ctx s g members := by
  have frame := handled.frame
  cases handled with
  | kept => exact .inl rfl
  | grant g _ members aboveFloor chain verified put =>
    obtain ⟨epoch, sameEpoch, rfl⟩ := putMembershipGrant_eq_ok.mp put
    by_cases same : (g.vaultId, g.memberPubkey, epoch) = key
    · subst same
      obtain ⟨-, atEpoch, signed, byAdmin, sameRole⟩ := verifyGrant_eq_ok.mp verified
      refine .inr ⟨rfl, g, members, rfl, by rw [sameEpoch], ?_,
        ⟨aboveFloor, chain, atEpoch.symm, signed, byAdmin, sameRole⟩⟩
      simp only [getElem?_insert, if_true, map_some, mapGrantRow, Storage.grantRow, sameEpoch]
    · left
      simp only [getElem?_insert, if_neg same]
  | _ =>
    left
    rw [frame.grants (by simp)]

end

/-! ## Whole pulls -/

/-- On the way from `s` to `s'`, `obj` was taken from `objects`, `checked` and applied. -/
def AppliedDuring (P : Primitives) (ctx : SyncContext) (s : Storage)
    (objects : List (UInt64 × SyncObject)) (s' : Storage) (obj : SyncObject)
    (checked : Storage → Storage → Prop) : Prop :=
  ∃ seq before after mid mid', (seq, obj) ∈ objects ∧ PullTrace P ctx s before mid ∧
    Processes P ctx mid obj (.ok .applied) mid' ∧ PullTrace P ctx mid' after s' ∧
    checked mid mid'

/-- Everything new in `s'` came from `objects` and was verified where it was stored. -/
structure VerifiedBeforeApplied (P : Primitives) (ctx : SyncContext) (s : Storage)
    (objects : List (UInt64 × SyncObject)) (s' : Storage) : Prop where
  vaults : ∀ vaultId, s'.vaultContent vaultId = s.vaultContent vaultId ∨
    ∃ v : VaultRecord, v.vaultId = vaultId ∧ s'.vaultContent vaultId = some v.content ∧
      AppliedDuring P ctx s objects s' (.vault v) fun mid _ =>
        VaultAdmitted P ctx mid v ∧ AuthorEntitled P mid v.vaultId v.authorPubkey v.keyEpoch
          (vaultAnchor mid v.vaultId ctx)
  items : ∀ vaultId itemId, s'.itemContent vaultId itemId = s.itemContent vaultId itemId ∨
    ∃ i : ItemRecord, (i.vaultId, i.itemId) = (vaultId, itemId) ∧
      s'.itemContent vaultId itemId = some i.content ∧
      AppliedDuring P ctx s objects s' (.item i) fun mid _ =>
        ItemAdmitted P ctx mid i ∧ AuthorEntitled P mid i.vaultId i.authorPubkey i.keyEpoch
          (vaultAnchor mid i.vaultId ctx)
  manifests : ∀ key : Bytes × SqlInt, s'.membershipManifests[key]? = s.membershipManifests[key]? ∨
    ∃ m : MembershipManifest, (m.vaultId, m.keyEpoch) = (key.1, key.2.toU64) ∧
      s'.membershipManifests[key]?.map (mapManifestRow key) = some m ∧
      AppliedDuring P ctx s objects s' (.membershipManifest m) fun mid mid' =>
        epochFloor mid m.vaultId ≤ m.keyEpoch ∧
        ∃ members, verifyChainToEpoch P mid' m.vaultId m.keyEpoch
          (vaultAnchor mid m.vaultId ctx) = .ok members
  grants : ∀ key : Bytes × Bytes × SqlInt, s'.membershipGrants[key]? = s.membershipGrants[key]? ∨
    ∃ g : MembershipGrant, (g.vaultId, g.memberPubkey, g.keyEpoch) =
        (key.1, key.2.1, key.2.2.toU64) ∧
      s'.membershipGrants[key]?.map (mapGrantRow key) = some g ∧
      AppliedDuring P ctx s objects s' (.membershipGrant g) fun mid _ =>
        ∃ members, GrantAdmitted P ctx mid g members

theorem PullTrace.verifiedBeforeApplied (processed : ProcessedFrom objects events)
    (trace : PullTrace P ctx s events s') : VerifiedBeforeApplied P ctx s objects s' where
  vaults vaultId := by
    rcases trace.last_write (fun handled => handled.vaultContent vaultId) (fun _ _ => rfl) with
      kept | ⟨⟨seq, _⟩, before, after, mid, mid', member, lead, step, tail, wrote, left⟩
    · exact .inl kept
    · obtain ⟨v, rfl, sameId, admitted, written⟩ := wrote
      exact .inr ⟨v, sameId, left.trans written, seq, before, after, mid, mid',
        processed _ _ member, lead, step, tail, admitted, .of_verified admitted.authorized⟩
  items vaultId itemId := by
    rcases trace.last_write (fun handled => handled.itemContent vaultId itemId) (fun _ _ => rfl) with
      kept | ⟨⟨seq, _⟩, before, after, mid, mid', member, lead, step, tail, wrote, left⟩
    · exact .inl kept
    · obtain ⟨i, rfl, sameId, admitted, written⟩ := wrote
      exact .inr ⟨i, sameId, left.trans written, seq, before, after, mid, mid',
        processed _ _ member, lead, step, tail, admitted, .of_verified admitted.authorized⟩
  manifests key := by
    rcases trace.last_write (fun handled => handled.manifestAt key) (fun _ _ => rfl) with
      kept | ⟨⟨seq, _⟩, before, after, mid, mid', member, lead, step, tail, wrote, left⟩
    · exact .inl kept
    · obtain ⟨m, members, rfl, sameKey, written, aboveFloor, chain⟩ := wrote
      exact .inr ⟨m, sameKey, by rw [left, written], seq, before, after, mid, mid',
        processed _ _ member, lead, step, tail, aboveFloor, members, chain⟩
  grants key := by
    rcases trace.last_write (fun handled => handled.grantAt key) (fun _ _ => rfl) with
      kept | ⟨⟨seq, _⟩, before, after, mid, mid', member, lead, step, tail, wrote, left⟩
    · exact .inl kept
    · obtain ⟨g, members, rfl, sameKey, written, admitted⟩ := wrote
      exact .inr ⟨g, sameKey, by rw [left, written], seq, before, after, mid, mid',
        processed _ _ member, lead, step, tail, members, admitted⟩

/-! ## Objects that fail a check -/

/-- The checks of an object's kind, in the storage it meets. -/
def PassesChecks (P : Primitives) (ctx : SyncContext) (s : Storage) : SyncObject → Prop
  | .vault v => VaultAdmitted P ctx s v
  | .item i => ItemAdmitted P ctx s i
  | .membershipManifest m =>
    epochFloor s m.vaultId ≤ m.keyEpoch ∧
      ∃ stored members, (s.getMembershipManifest m.vaultId m.keyEpoch = .ok none ∧
          s.putMembershipManifest m = .ok stored ∨
        stored = s ∧ ∃ present, s.getMembershipManifest m.vaultId m.keyEpoch =
          .ok (some present) ∧ manifestContentEq present m = true) ∧
        verifyChainToEpoch P stored m.vaultId m.keyEpoch (vaultAnchor s m.vaultId ctx) =
          .ok members
  | .membershipGrant g => ∃ members, GrantAdmitted P ctx s g members
  | .audit a => a.authorPubkey = ctx.genesisOwner ∧
      verifySigned P a.authorPubkey (auditAad a.vaultId) a.entryBlob a.signature = .ok ()
  | .keyset _ => False
  | .accountState a => a.authorPubkey = ctx.genesisOwner ∧
      verifyAccountState P a.authorPubkey a.version a.payload a.signature = .ok ()

/-- Only an object that passes its checks, and is not reported as rejected, changes anything. -/
theorem Handled.eq_or_passes (handled : Handled P ctx s obj result s') :
    s' = s ∨ PassesChecks P ctx s obj ∧ ∀ vaultId reason, result ≠ .ok (.rejected vaultId reason) := by
  cases handled with
  | kept => exact .inl rfl
  | relabelled _ _ admitted _ notRejected => exact .inr ⟨admitted, notRejected⟩
  | vault _ _ admitted => exact .inr ⟨admitted, by simp⟩
  | item _ _ admitted => exact .inr ⟨admitted, by simp⟩
  | manifest _ mid _ members aboveFloor absent stored chain =>
    exact .inr ⟨⟨aboveFloor, mid, members, .inl ⟨absent, stored⟩, chain⟩, by simp⟩
  | floorArmed _ stored _ members above present content chain =>
    exact .inr ⟨⟨UInt64.le_of_lt above, s, members, .inr ⟨rfl, stored, present, content⟩, chain⟩,
      by simp⟩
  | grant _ _ members aboveFloor chain verified =>
    obtain ⟨-, atEpoch, signed, byAdmin, sameRole⟩ := verifyGrant_eq_ok.mp verified
    exact .inr ⟨⟨members, aboveFloor, chain, atEpoch.symm, signed, byAdmin, sameRole⟩, by simp⟩
  | audit _ own signed => exact .inr ⟨⟨own, signed⟩, by simp⟩
  | accountState _ _ own signed => exact .inr ⟨⟨own, signed⟩, by simp⟩

/-- A pull stores nothing unverified, and a rejected object leaves the storage as it met it. -/
theorem pull_verifies_before_apply (P : Primitives) (call : PullCall) (s : Storage) :
    VerifiedBeforeApplied P call.context s (call.objects P s) (call.run P s) ∧
      ∀ mid obj result mid', Processes P call.context mid obj result mid' →
        (¬ PassesChecks P call.context mid obj ∨
          ∃ vaultId reason, result = .ok (.rejected vaultId reason)) → mid' = mid := by
  obtain ⟨_, processed, trace⟩ := call.run_trace P s
  refine ⟨trace.verifiedBeforeApplied processed, ?_⟩
  intro _ _ _ _ ran failed
  rcases ran.handled.eq_or_passes with same | ⟨passes, notRejected⟩
  · exact same
  · rcases failed with fails | ⟨vaultId, reason, rejected⟩
    · exact (fails passes).elim
    · exact (notRejected vaultId reason rejected).elim

end UniSsh
