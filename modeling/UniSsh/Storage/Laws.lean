import UniSsh.Base.Effect
import UniSsh.Storage.Store

/-!
# What the storage functions do

When each write succeeds and which row it leaves, as an update of one table. The later modules
never unfold a storage function.
-/

namespace UniSsh

open List

instance instLawfulOrderMaxU64 : Std.LawfulOrderMax UInt64 where
  max_eq_or a b := by
    change (if a ≤ b then b else a) = a ∨ (if a ≤ b then b else a) = b
    split <;> simp
  max_le_iff a b c := by
    change (if a ≤ b then b else a) ≤ c ↔ a ≤ c ∧ b ≤ c
    split <;> grind

namespace Storage

variable {s s' : Storage}

theorem checkedPair_eq_ok {next : SqlInt → SqlInt → Except StorageError Storage} :
    (do let version ← checkedVersion a; let keyEpoch ← checkedVersion b; next version keyEpoch) =
        .ok s' ↔ ∃ version keyEpoch, version.toU64 = a ∧ keyEpoch.toU64 = b ∧
          next version keyEpoch = .ok s' := by
  simp [bind_eq_ok, checkedVersion_eq_ok]

/-- A vault put succeeds when the numbers fit and the version grows. -/
theorem putVault_eq_ok :
    s.putVault v = .ok s' ↔
      ∃ version keyEpoch, version.toU64 = v.version ∧ keyEpoch.toU64 = v.keyEpoch ∧
        (∀ row, s.vaults[v.vaultId]? = some row → row.version.toU64 < v.version) ∧
        s' = { s with
          vaults := s.vaults.insert v.vaultId
            (upsertVaultRow v version keyEpoch s.vaults[v.vaultId]?) } := by
  unfold putVault
  rw [checkedPair_eq_ok]
  constructor
  · rintro ⟨version, keyEpoch, sameVersion, sameEpoch, put⟩
    split at put
    · next upserted =>
      obtain ⟨newer, rfl⟩ := Table.upsertNewer_eq_ok.mp upserted
      exact ⟨version, keyEpoch, sameVersion, sameEpoch, newer, (Except.ok.inj put).symm⟩
    · cases put
  · rintro ⟨version, keyEpoch, sameVersion, sameEpoch, newer, rfl⟩
    refine ⟨version, keyEpoch, sameVersion, sameEpoch, ?_⟩
    rw [Table.upsertNewer_eq_ok.mpr ⟨newer, rfl⟩]

/-- An item put succeeds when the numbers fit and the version grows. -/
theorem putItem_eq_ok :
    s.putItem it = .ok s' ↔
      ∃ version keyEpoch, version.toU64 = it.version ∧ keyEpoch.toU64 = it.keyEpoch ∧
        (∀ row, s.items[(it.vaultId, it.itemId)]? = some row → row.version.toU64 < it.version) ∧
        s' = { s with
          items := s.items.insert (it.vaultId, it.itemId)
            (upsertItemRow it version keyEpoch s.now s.items[(it.vaultId, it.itemId)]?) } := by
  unfold putItem
  rw [checkedPair_eq_ok]
  constructor
  · rintro ⟨version, keyEpoch, sameVersion, sameEpoch, put⟩
    split at put
    · next upserted =>
      obtain ⟨newer, rfl⟩ := Table.upsertNewer_eq_ok.mp upserted
      exact ⟨version, keyEpoch, sameVersion, sameEpoch, newer, (Except.ok.inj put).symm⟩
    · cases put
  · rintro ⟨version, keyEpoch, sameVersion, sameEpoch, newer, rfl⟩
    refine ⟨version, keyEpoch, sameVersion, sameEpoch, ?_⟩
    rw [Table.upsertNewer_eq_ok.mpr ⟨newer, rfl⟩]

/-- The row a manifest put leaves. -/
def manifestRow (m : MembershipManifest) (old : Option ManifestRow) : ManifestRow where
  manifestBlob := m.manifestBlob
  signature := m.signature
  authorPubkey := m.authorPubkey
  dirty := (old.map ManifestRow.dirty).getD false

/-- The row a grant put leaves. -/
def grantRow (g : MembershipGrant) (old : Option GrantRow) : GrantRow where
  role := g.role
  notAfter := g.notAfter
  wrappedVk := g.wrappedVk
  signature := g.signature
  authorPubkey := g.authorPubkey
  dirty := (old.map GrantRow.dirty).getD false

/-- Writes that only check one number: what `checkedVersion` followed by an update does. -/
theorem checkedWrite_eq_ok {f : SqlInt → Storage} :
    (do let n ← checkedVersion v; Except.ok (f n)) = (.ok s' : Except StorageError Storage) ↔
      ∃ n, n.toU64 = v ∧ s' = f n := by
  rw [bind_eq_ok]
  constructor
  · rintro ⟨n, checked, built⟩
    exact ⟨n, checkedVersion_eq_ok.mp checked, (Except.ok.inj built).symm⟩
  · rintro ⟨n, same, rfl⟩
    exact ⟨n, checkedVersion_eq_ok.mpr same, rfl⟩

theorem putMembershipManifest_eq_ok :
    s.putMembershipManifest m = .ok s' ↔ ∃ epoch : SqlInt, epoch.toU64 = m.keyEpoch ∧ s' = { s with
          membershipManifests := s.membershipManifests.insert (m.vaultId, epoch)
            (manifestRow m s.membershipManifests[(m.vaultId, epoch)]?) } :=
  checkedWrite_eq_ok

theorem putMembershipGrant_eq_ok :
    s.putMembershipGrant g = .ok s' ↔ ∃ epoch : SqlInt, epoch.toU64 = g.keyEpoch ∧ s' = { s with
          membershipGrants := s.membershipGrants.insert (g.vaultId, g.memberPubkey, epoch)
            (grantRow g s.membershipGrants[(g.vaultId, g.memberPubkey, epoch)]?) } :=
  checkedWrite_eq_ok

theorem setSyncCursor_eq_ok :
    s.setSyncCursor key v = .ok s' ↔
      ∃ n : SqlInt, n.toU64 = v ∧ s' = { s with syncState := s.syncState.insert key n } :=
  checkedWrite_eq_ok

variable {vaultId : Bytes} {epoch : UInt64}

theorem setVaultEpochFloor_eq_ok :
    s.setVaultEpochFloor vaultId epoch = .ok s' ↔ ∃ n : SqlInt, n.toU64 = epoch ∧
        s' = { s with vaultEpochFloor := s.vaultEpochFloor.insert vaultId n } :=
  checkedWrite_eq_ok

theorem setAccountState_eq_ok :
    s.setAccountState authorPubkey version payload signature = .ok s' ↔
      ∃ n : SqlInt, n.toU64 = version ∧ s' = { s with
          accountState := s.accountState.insert authorPubkey
            { version := n, payload, signature, updatedAt := s.now } } :=
  checkedWrite_eq_ok

/-- Reading the manifest of an epoch fails when the epoch is out of range only. -/
theorem getMembershipManifest_eq_ok :
    s.getMembershipManifest vaultId keyEpoch = .ok found ↔
      ∃ epoch : SqlInt, epoch.toU64 = keyEpoch ∧
        found = s.membershipManifests[(vaultId, epoch)]?.map (mapManifestRow (vaultId, epoch)) := by
  unfold getMembershipManifest
  rw [bind_eq_ok]
  constructor
  · rintro ⟨epoch, checked, read⟩
    exact ⟨epoch, checkedVersion_eq_ok.mp checked, (Except.ok.inj read).symm⟩
  · rintro ⟨epoch, same, rfl⟩
    exact ⟨epoch, checkedVersion_eq_ok.mpr same, rfl⟩

theorem mem_listItemsIncludingTombstones :
    record ∈ s.listItemsIncludingTombstones vaultId ↔
      ∃ itemId row, s.items[(vaultId, itemId)]? = some row ∧
        record = mapItemRow (vaultId, itemId) row := by
  simp only [listItemsIncludingTombstones, mem_map, mem_filter, decide_eq_true_eq]
  constructor
  · rintro ⟨⟨⟨_, itemId⟩, row⟩, ⟨listed, rfl⟩, rfl⟩
    exact ⟨itemId, row, mem_toList_iff_getElem?_eq_some.mp listed, rfl⟩
  · rintro ⟨itemId, row, found, rfl⟩
    exact ⟨((vaultId, itemId), row), ⟨mem_toList_iff_getElem?_eq_some.mpr found, rfl⟩, rfl⟩

/-- A healed binding is visible in the label of an unbound cloud vault and nowhere else. -/
theorem adoptPulledBinding_vaults (s : Storage) (vaultId tenant key : Bytes) :
    (s.adoptPulledBinding vaultId tenant).vaults[key]? = s.vaults[key]?.map fun row =>
        if key = vaultId ∧ row.syncTarget = .cloud ∧ row.syncTenant = [] then
          { row with syncTenant := tenant }
        else row := by
  simp [adoptPulledBinding]

theorem adoptPulledBinding_eq_self
    (bound : ∀ row, s.vaults[vaultId]? = some row → row.syncTenant = [] → tenant = []) :
    s.adoptPulledBinding vaultId tenant = s := by
  have table : (s.adoptPulledBinding vaultId tenant).vaults = s.vaults := by
    apply Std.ExtTreeMap.ext_getElem?
    intro key
    rw [adoptPulledBinding_vaults]
    cases found : s.vaults[key]? with
    | none => rfl
    | some row =>
      by_cases heals : key = vaultId ∧ row.syncTarget = .cloud ∧ row.syncTenant = []
      · obtain ⟨rfl, -, unbound⟩ := heals
        have noTenant := bound row found unbound
        cases row
        simp_all
      · simp [heals]
  change { s with vaults := (s.adoptPulledBinding vaultId tenant).vaults } = s
  rw [table]

/-- The stored epochs of a vault's manifests. -/
def HasManifest (s : Storage) (vaultId : Bytes) (epoch : UInt64) : Prop :=
  ∃ n : SqlInt, n.toU64 = epoch ∧ ∃ row, s.membershipManifests[(vaultId, n)]? = some row

private theorem mem_manifestEpochs :
    epoch ∈ ((s.membershipManifests.toList.filter fun entry => entry.1.1 = vaultId).map
      fun entry => entry.1.2.toU64) ↔ s.HasManifest vaultId epoch := by
  simp only [mem_map, mem_filter, decide_eq_true_eq, Prod.exists]
  constructor
  · rintro ⟨_, n, row, ⟨listed, rfl⟩, rfl⟩
    exact ⟨n, rfl, row, mem_toList_iff_getElem?_eq_some.mp listed⟩
  · rintro ⟨n, rfl, row, found⟩
    exact ⟨vaultId, n, row, ⟨mem_toList_iff_getElem?_eq_some.mpr found, rfl⟩, rfl⟩

theorem latestMembershipEpoch_eq_some :
    s.latestMembershipEpoch vaultId = some epoch ↔
      s.HasManifest vaultId epoch ∧ ∀ other, s.HasManifest vaultId other → other ≤ epoch := by
  unfold latestMembershipEpoch
  rw [max?_eq_some_iff]
  simp only [mem_manifestEpochs]

theorem latestMembershipEpoch_eq_none :
    s.latestMembershipEpoch vaultId = none ↔ ∀ epoch, ¬ s.HasManifest vaultId epoch := by
  unfold latestMembershipEpoch
  rw [max?_eq_none_iff, eq_nil_iff_forall_not_mem]
  simp only [mem_manifestEpochs]

end Storage

end UniSsh
