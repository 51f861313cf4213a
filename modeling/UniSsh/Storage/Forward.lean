import UniSsh.Storage.Laws
import Mathlib.Order.Defs.Unbundled

/-!
# Storages that only move forward

`Ahead floors s s'` says that nothing of `s` is missing or older in `s'`. The writes of the
storage move it forward, so that every operation built from them does.
-/

namespace UniSsh

open Storage

/-! ## Rows -/

def VaultRow.Ahead (row row' : VaultRow) : Prop :=
  row.version.toU64 ≤ row'.version.toU64 ∧ (row.syncTenant ≠ [] → row'.syncTenant ≠ [])

def ItemRow.Ahead (row row' : ItemRow) : Prop := row.version.toU64 ≤ row'.version.toU64

/-- The order account states are merged by: versions, then signatures. -/
def AccountStateRow.Ahead (row row' : AccountStateRow) : Prop :=
  row.version.toU64 < row'.version.toU64 ∨
    row.version.toU64 = row'.version.toU64 ∧ row.signature ≤ row'.signature

instance : Std.Refl VaultRow.Ahead := ⟨fun _ => ⟨UInt64.le_refl _, id⟩⟩
instance : Std.Refl ItemRow.Ahead := ⟨fun _ => UInt64.le_refl _⟩
instance : Std.Refl AccountStateRow.Ahead := ⟨fun _ => .inr ⟨rfl, List.le_refl _⟩⟩

instance : IsTrans VaultRow VaultRow.Ahead where
  trans _ _ _ first second := ⟨UInt64.le_trans first.1 second.1, second.2 ∘ first.2⟩

instance : IsTrans ItemRow ItemRow.Ahead where
  trans _ _ _ first second := UInt64.le_trans first second

instance : IsTrans AccountStateRow AccountStateRow.Ahead where
  trans a b c first second := by
    rcases first with newer | ⟨version, larger⟩
    · rcases second with newer' | ⟨version', -⟩
      · exact .inl (UInt64.lt_trans newer newer')
      · exact .inl (version' ▸ newer)
    · rcases second with newer' | ⟨version', larger'⟩
      · exact .inl (version ▸ newer')
      · exact .inr ⟨version.trans version', List.le_trans larger larger'⟩

/-- A manifest is replaced by a manifest. -/
def ManifestRow.Kept (_ _ : ManifestRow) : Prop := True

instance : Std.Refl ManifestRow.Kept := ⟨fun _ => trivial⟩
instance : IsTrans ManifestRow ManifestRow.Kept := ⟨fun _ _ _ _ _ => trivial⟩

def SqlInt.NotBelow (n n' : SqlInt) : Prop := n.toU64 ≤ n'.toU64

instance : Std.Refl SqlInt.NotBelow := ⟨fun _ => UInt64.le_refl _⟩
instance : IsTrans SqlInt SqlInt.NotBelow where
  trans _ _ _ first second := UInt64.le_trans first second

variable {v : UInt64}

/-- Adding one moves a number forward below the last one. -/
theorem lt_add_one_of_ne_max (notLast : v ≠ 0xFFFFFFFFFFFFFFFF) : v < v + 1 := by
  rw [UInt64.lt_iff_toNat_lt, toNat_add_one_of_ne_max notLast]
  exact Nat.lt_succ_self _

theorem SqlInt.ne_max (n : SqlInt) : n.toU64 ≠ 0xFFFFFFFFFFFFFFFF := by
  intro last
  have inRange := n.inRange
  rw [last] at inRange
  revert inRange
  decide

/-! ## Storages -/

abbrev Floors := Table Bytes SqlInt

/-- Nothing of `s` is missing or older in `s'`, the floors being related by `floors`. -/
structure Ahead (floors : Floors → Floors → Prop) (s s' : Storage) : Prop where
  vaults : Table.Grows VaultRow.Ahead s.vaults s'.vaults
  items : Table.Grows ItemRow.Ahead s.items s'.items
  manifests : Table.Grows ManifestRow.Kept s.membershipManifests s'.membershipManifests
  accountStates : Table.Grows AccountStateRow.Ahead s.accountState s'.accountState
  floors : floors s.vaultEpochFloor s'.vaultEpochFloor

section Ahead

variable {floors : Floors → Floors → Prop} {s s' : Storage}

instance [Std.Refl floors] : Std.Refl (Ahead floors) :=
  ⟨fun _ => ⟨.refl _, .refl _, .refl _, .refl _, refl _⟩⟩

instance [IsTrans Floors floors] : IsTrans Storage (Ahead floors) where
  trans _ _ _ first second :=
    { vaults := first.vaults.trans second.vaults
      items := first.items.trans second.items
      manifests := first.manifests.trans second.manifests
      accountStates := first.accountStates.trans second.accountStates
      floors := IsTrans.trans _ _ _ first.floors second.floors }

theorem Ahead.mono {other : Floors → Floors → Prop} (ahead : Ahead floors s s')
    (implies : floors s.vaultEpochFloor s'.vaultEpochFloor →
      other s.vaultEpochFloor s'.vaultEpochFloor) : Ahead other s s' :=
  { ahead with floors := implies ahead.floors }

end Ahead

/-- Nothing is missing or older, and the floors are the same. -/
abbrev Advances : Storage → Storage → Prop := Ahead Eq

instance : Std.Refl (@Eq Floors) := ⟨fun _ => rfl⟩
instance : IsTrans Floors Eq := ⟨fun _ _ _ => Eq.trans⟩

/-- Nothing is missing or older, the floors included. -/
abbrev Forward : Storage → Storage → Prop := Ahead (Table.Grows SqlInt.NotBelow)

instance : Std.Refl (Table.Grows (K := Bytes) SqlInt.NotBelow) := ⟨fun t => .refl t⟩
instance : IsTrans Floors (Table.Grows SqlInt.NotBelow) := ⟨fun _ _ _ => Table.Grows.trans⟩

variable {s s' : Storage}

theorem Advances.forward (advances : Advances s s') : Forward s s' :=
  advances.mono fun same => same ▸ .refl _

/-- The floors are the same, but for one vault whose floor may be set to an epoch. -/
def FloorSet (vaultId : Bytes) (epoch : UInt64) (t t' : Floors) : Prop :=
  ∀ v : Bytes, t'[v]? = t[v]? ∨ (v = vaultId ∧ ∃ n : SqlInt, n.toU64 = epoch ∧ t'[v]? = some n)

instance (vaultId : Bytes) (epoch : UInt64) : Std.Refl (FloorSet vaultId epoch) :=
  ⟨fun _ _ => .inl rfl⟩

instance (vaultId : Bytes) (epoch : UInt64) : IsTrans Floors (FloorSet vaultId epoch) where
  trans first mid last before after v := by
    rcases after v with same | set
    · rcases before v with same' | ⟨isVault, n, value, found⟩
      · exact .inl (same.trans same')
      · exact .inr ⟨isVault, n, value, same.trans found⟩
    · exact .inr set

theorem Advances.floorSet (advances : Advances s s') (vaultId : Bytes) (epoch : UInt64) :
    Ahead (FloorSet vaultId epoch) s s' :=
  advances.mono fun same => same ▸ refl _

variable {vaultId : Bytes} {epoch : UInt64}

theorem Ahead.forward_of_le (ahead : Ahead (FloorSet vaultId epoch) s s')
    (above : (s.getVaultEpochFloor vaultId).getD 0 ≤ epoch) : Forward s s' := by
  apply ahead.mono
  intro set v n found
  rcases set v with same | ⟨rfl, n', rfl, found'⟩
  · exact ⟨n, same.trans found, UInt64.le_refl _⟩
  · refine ⟨n', found', ?_⟩
    unfold Storage.getVaultEpochFloor at above
    rw [found] at above
    exact above

section Writes

variable {s s' : Storage}

/-- A change of other tables. -/
theorem Advances.of_tables (vaults : s'.vaults = s.vaults) (items : s'.items = s.items)
    (manifests : s'.membershipManifests = s.membershipManifests)
    (accountStates : s'.accountState = s.accountState)
    (floors : s'.vaultEpochFloor = s.vaultEpochFloor) : Advances s s' := by
  refine ⟨?_, ?_, ?_, ?_, floors.symm⟩
  · rw [vaults]
    exact .refl _
  · rw [items]
    exact .refl _
  · rw [manifests]
    exact .refl _
  · rw [accountStates]
    exact .refl _

theorem Advances.of_vaults {vaults : Table Bytes VaultRow}
    (grows : Table.Grows VaultRow.Ahead s.vaults vaults) : Advances s { s with vaults } :=
  ⟨grows, .refl _, .refl _, .refl _, rfl⟩

theorem Advances.of_items {items : Table (Bytes × Bytes) ItemRow}
    (grows : Table.Grows ItemRow.Ahead s.items items) : Advances s { s with items } :=
  ⟨.refl _, grows, .refl _, .refl _, rfl⟩

theorem putVault_advances {v : VaultRecord} (put : s.putVault v = .ok s') : Advances s s' := by
  obtain ⟨_, _, same, -, newer, rfl⟩ := putVault_eq_ok.mp put
  apply Advances.of_vaults
  apply Table.Grows.insert
  intro old found
  constructor
  · rw [← same] at newer
    exact UInt64.le_of_lt (newer old found)
  · intro bound
    rw [found]
    change (if v.syncTenant = [] then old.syncTenant else v.syncTenant) ≠ []
    split
    · exact bound
    · next label => exact label

theorem putItem_advances (put : s.putItem it = .ok s') : Advances s s' := by
  obtain ⟨_, _, same, -, newer, rfl⟩ := putItem_eq_ok.mp put
  apply Advances.of_items
  apply Table.Grows.insert
  intro old found
  rw [← same] at newer
  exact UInt64.le_of_lt (newer old found)

theorem putMembershipManifest_advances (put : s.putMembershipManifest m = .ok s') :
    Advances s s' := by
  obtain ⟨_, -, rfl⟩ := putMembershipManifest_eq_ok.mp put
  refine ⟨.refl _, .refl _, ?_, .refl _, rfl⟩
  apply Table.Grows.insert
  exact fun _ _ => trivial

theorem putMembershipGrant_advances (put : s.putMembershipGrant g = .ok s') : Advances s s' := by
  obtain ⟨_, -, rfl⟩ := putMembershipGrant_eq_ok.mp put
  exact .of_tables rfl rfl rfl rfl rfl

theorem setVaultEpochFloor_floorSet (set : s.setVaultEpochFloor vaultId epoch = .ok s') :
    Ahead (FloorSet vaultId epoch) s s' := by
  obtain ⟨n, same, rfl⟩ := setVaultEpochFloor_eq_ok.mp set
  refine ⟨.refl _, .refl _, .refl _, .refl _, ?_⟩
  intro v
  rw [Table.getElem?_insert]
  by_cases isVault : vaultId = v
  · right
    exact ⟨isVault.symm, n, same, if_pos isVault⟩
  · left
    exact if_neg isVault

theorem markItemDirty_advances (s : Storage) (vaultId itemId : Bytes) :
    Advances s (s.markItemDirty vaultId itemId) := by
  apply Advances.of_items
  apply Table.Grows.updateWhere
  exact fun _ _ _ => UInt64.le_refl _

variable {keyEpoch : UInt64} {record : ItemRecord}

theorem markMembershipDirty_advances (marked : s.markMembershipDirty vaultId keyEpoch = .ok s') :
    Advances s s' := by
  obtain ⟨_, -, rfl⟩ := checkedWrite_eq_ok.mp marked
  refine ⟨.refl _, .refl _, ?_, .refl _, rfl⟩
  apply Table.Grows.updateWhere
  exact fun _ _ _ => trivial

theorem markVaultAndContentsDirty_advances (s : Storage) (vaultId : Bytes) :
    Advances s (s.markVaultAndContentsDirty vaultId) := by
  refine ⟨?_, ?_, ?_, .refl _, rfl⟩
  · apply Table.Grows.updateWhere
    exact fun _ _ _ => ⟨UInt64.le_refl _, id⟩
  · apply Table.Grows.updateWhere
    exact fun _ _ _ => UInt64.le_refl _
  · apply Table.Grows.updateWhere
    exact fun _ _ _ => trivial

/-- Once the binding is written, the rest of the write moves forward. -/
theorem setVaultTenant_bound (s : Storage) (vaultId tenant : Bytes) :
    Advances { s with
      vaults := s.vaults.updateWhere (fun k row => k = vaultId ∧ row.syncTarget = .cloud)
        fun row => { row with syncTenant := tenant } } (s.setVaultTenant vaultId tenant) := by
  unfold Storage.setVaultTenant
  split
  · split
    · exact markVaultAndContentsDirty_advances _ vaultId
    · exact Std.Refl.refl _
  · exact Std.Refl.refl _

/-- Binding a vault to a server moves forward; unbinding it does not. -/
theorem setVaultTenant_advances (named : tenant ≠ []) :
    Advances s (s.setVaultTenant vaultId tenant) := by
  refine IsTrans.trans _ _ _ ?_ (setVaultTenant_bound s vaultId tenant)
  apply Advances.of_vaults
  apply Table.Grows.updateWhere
  exact fun _ _ _ => ⟨UInt64.le_refl _, fun _ => named⟩

theorem adoptPulledBinding_advances (s : Storage) (vaultId tenant : Bytes) :
    Advances s (s.adoptPulledBinding vaultId tenant) := by
  apply Advances.of_vaults
  apply Table.Grows.updateWhere
  intro _ _ unbound
  simp only [decide_eq_true_eq] at unbound
  exact ⟨UInt64.le_refl _, fun bound => (bound unbound.2.2).elim⟩

theorem bindUnboundCloudVaults_advances (s : Storage) (tenant : Bytes) :
    Advances s (s.bindUnboundCloudVaults tenant) := by
  refine ⟨?_, ?_, ?_, .refl _, rfl⟩
  · apply Table.Grows.updateWhere
    intro _ _ unbound
    simp only [decide_eq_true_eq] at unbound
    exact ⟨UInt64.le_refl _, fun bound => (bound unbound.2).elim⟩
  · apply Table.Grows.updateWhere
    exact fun _ _ _ => UInt64.le_refl _
  · apply Table.Grows.updateWhere
    exact fun _ _ _ => trivial

theorem setSyncCursor_advances (set : s.setSyncCursor key v = .ok s') :
    Advances s s' := by
  obtain ⟨n, -, rfl⟩ := setSyncCursor_eq_ok.mp set
  exact .of_tables rfl rfl rfl rfl rfl

/-- Replacing an account state by one that is not older moves forward. -/
theorem setAccountState_advances (newer : ∀ stored, s.getAccountState authorPubkey = some stored →
      stored.version < version ∨ stored.version = version ∧ stored.signature ≤ signature)
    (set : s.setAccountState authorPubkey version payload signature = .ok s') : Advances s s' := by
  obtain ⟨n, rfl, rfl⟩ := setAccountState_eq_ok.mp set
  refine ⟨.refl _, .refl _, .refl _, ?_, rfl⟩
  apply Table.Grows.insert
  intro old found
  apply newer (mapAccountStateRow authorPubkey old)
  simp only [Storage.getAccountState, found, map_some]

theorem clearItemHistory_advances (s : Storage) (vaultId itemId : Bytes) :
    Advances s (s.clearItemHistory vaultId itemId) :=
  .of_tables rfl rfl rfl rfl rfl

theorem putItemAndClearHistory_advances (put : s.putItemAndClearHistory record = .ok s') :
    Advances s s' := by
  obtain ⟨_, stored, rest⟩ := bind_eq_ok.mp put
  cases rest
  exact IsTrans.trans _ _ _ (putItem_advances stored) (clearItemHistory_advances _ _ _)

theorem insertHistory_advances (s : Storage) (r : ItemRecord) : Advances s (s.insertHistory r) := by
  unfold Storage.insertHistory
  split
  · exact refl s
  · exact .of_tables rfl rfl rfl rfl rfl

theorem archiveAndPut_advances (put : s.archiveAndPut record retain = .ok s') :
    Advances s s' := by
  obtain ⟨_, stored, rest⟩ := bind_eq_ok.mp put
  cases rest
  refine IsTrans.trans _ _ _ ?_ (IsTrans.trans _ _ _ (putItem_advances stored)
    (Advances.of_tables rfl rfl rfl rfl rfl))
  split
  · split
    · exact refl s
    · exact insertHistory_advances s _
  · exact refl s

end Writes

end UniSsh
