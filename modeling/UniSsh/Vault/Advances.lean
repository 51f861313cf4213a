import UniSsh.Storage.Forward
import UniSsh.Vault.Operations

/-!
# Vault operations move the storage forward

Every operation, returned or failed, leaves a storage in which nothing is missing or older; only
membership changes raise the epoch floor.
-/

namespace UniSsh

variable {P : Primitives}
  {R : Storage → Storage → Prop} {f : Storage → Except StorageError Storage} {s s' : Storage}

theorem vaultWrite_preserves [Std.Refl R] (writes : ∀ s s', f s = .ok s' → R s s') :
    Preserves R (vaultWrite f) :=
  Preserves.write fun s s' wrote => writes s s' (mapError_eq_ok.mp wrote)

theorem vaultWrite_run_ok (wrote : (vaultWrite f).run s = .ok () s') : f s = .ok s' :=
  mapError_eq_ok.mp (writeM_run_ok wrote)

theorem compute_preserves [Std.Refl R] {α : Type} {x : Except VaultError α} :
    Preserves R (compute x) :=
  Preserves.read _

/-- What is computed in front of a computation is known in it. -/
theorem compute_bind_preserves [Std.Refl R] {α β : Type}
    {x : Except VaultError α} {g : α → VaultM β} (rest : ∀ a, x = .ok a → Preserves R (g a)) :
    Preserves R (compute x >>= g) :=
  fun s => Preserves.read_bind fun a computed => rest a computed s

/-! ## Whole operations

An operation keeps every relation that its writes keep. -/

/-- The relation holds across the writes of vault records and of memberships. -/
structure RecordWrites (R : Storage → Storage → Prop) : Prop where
  putVault : ∀ {s s' record}, s.putVault record = .ok s' → R s s'
  markVaultDirty : ∀ s vaultId, R s (s.markVaultDirty vaultId)
  clearItemHistory : ∀ s vaultId itemId, R s (s.clearItemHistory vaultId itemId)
  putMembershipManifest : ∀ {s s' m}, s.putMembershipManifest m = .ok s' → R s s'
  putMembershipGrant : ∀ {s s' g}, s.putMembershipGrant g = .ok s' → R s s'
  markMembershipDirty : ∀ {s s' vaultId epoch}, s.markMembershipDirty vaultId epoch = .ok s' → R s s'

variable {vault : Vault} {keyset adminKeyset : UnlockedKeyset} {vaultId name oldId newId itemId : Bytes}
  {content : Bytes} {itemType : UInt32} {draws : Draws} {keyEpoch epoch : UInt64}
  {verified : VerifiedMembers} {members remaining : List Member} {grants : List Recipient}
  {x25519ByEd : List (Bytes × Bytes)} {records : List ItemRecord}

section RecordWrites

variable {R R' : Storage → Storage → Prop}

theorem RecordWrites.mono (writes : RecordWrites R) (weaker : ∀ {s s'}, R s s' → R' s s') :
    RecordWrites R' where
  putVault put := weaker (writes.putVault put)
  markVaultDirty s vaultId := weaker (writes.markVaultDirty s vaultId)
  clearItemHistory s vaultId itemId := weaker (writes.clearItemHistory s vaultId itemId)
  putMembershipManifest put := weaker (writes.putMembershipManifest put)
  putMembershipGrant put := weaker (writes.putMembershipGrant put)
  markMembershipDirty marked := weaker (writes.markMembershipDirty marked)

variable [Std.Refl R] [IsTrans Storage R]

theorem reissue_preserves {epoch : VaultRecord → UInt64} {policy : VaultRecord → CachePolicy} :
    Preserves R (vault.reissue P name tombstone epoch policy draws) := by
  refine .bind compute_preserves fun version => ?_
  refine .bind compute_preserves fun nameBlob => ?_
  refine .bind (.read _) fun cur => ?_
  refine .bind compute_preserves fun wrappedVk => ?_
  exact compute_preserves

variable (writes : RecordWrites R)
include writes

theorem storeRecord_preserves {α : Type} {record : VaultRecord} {next : VaultM α}
    (rest : Preserves R next) :
    Preserves R (do
      vaultWrite fun s => s.putVault record
      modify fun s => s.markVaultDirty vaultId
      next) := by
  refine .bind (vaultWrite_preserves fun _ _ => writes.putVault) fun _ => ?_
  exact .bind (.modify fun s => writes.markVaultDirty s vaultId) fun _ => rest

theorem createWithTarget_preserves {syncTarget : SyncTarget} :
    Preserves R (createWithTarget P keyset vaultId name syncTarget draws) := by
  refine .bind compute_preserves fun nameBlob => ?_
  refine .bind compute_preserves fun wrappedVk => ?_
  refine .bind compute_preserves fun record => ?_
  refine storeRecord_preserves writes ?_
  exact .pure _

theorem setName_preserves : Preserves R (vault.setName P name draws) := by
  refine .bind compute_preserves fun _ => ?_
  refine .bind reissue_preserves fun record => ?_
  refine storeRecord_preserves writes ?_
  exact .pure _

theorem setCachePolicy_preserves {policy : CachePolicy} :
    Preserves R (vault.setCachePolicy P policy draws) := by
  refine .bind compute_preserves fun _ => ?_
  refine .bind reissue_preserves fun record => ?_
  refine storeRecord_preserves writes ?_
  exact .pure _

theorem delete_preserves : Preserves R (vault.delete P draws) := by
  refine .bind compute_preserves fun _ => ?_
  refine .bind reissue_preserves fun record => ?_
  apply Preserves.transaction
  refine storeRecord_preserves writes ?_
  refine .bind Preserves.get fun s => ?_
  apply Preserves.forM
  intro r _
  exact .modify fun s => writes.clearItemHistory s _ _

theorem putGrants_preserves {grants : List MembershipGrant} :
    Preserves R (grants.forM fun g => vaultWrite fun s => s.putMembershipGrant g) :=
  Preserves.forM fun _ _ => vaultWrite_preserves fun _ _ => writes.putMembershipGrant

theorem addMember_preserves :
    Preserves R
      (addMember P adminKeyset vaultId keyEpoch prev genesisOwner members grants vk draws) := by
  refine .bind compute_preserves fun manifest => ?_
  refine .bind compute_preserves fun verified => ?_
  refine .bind compute_preserves fun built => ?_
  refine .bind (.transaction ?_) fun _ => Preserves.pure _
  refine .bind (vaultWrite_preserves fun _ _ => writes.putMembershipManifest) fun _ => ?_
  refine .bind (putGrants_preserves writes) fun _ => ?_
  exact vaultWrite_preserves fun _ _ => writes.markMembershipDirty

theorem reanchorRecord_preserves (items : Preserves R (vault.putReanchored records)) :
    Preserves R (vault.reanchorRecord P verified keyEpoch records draws) := by
  apply Preserves.ite
  · refine .bind (.read _) fun vrec => ?_
    refine .bind compute_preserves fun version => ?_
    refine .bind compute_preserves fun nameBlob => ?_
    refine .bind compute_preserves fun wrappedVk => ?_
    refine .bind compute_preserves fun newVrec => ?_
    refine storeRecord_preserves writes ?_
    exact items
  · exact .pure _

end RecordWrites

/-- The relation holds across the writes of items. -/
structure ItemWrites (R : Storage → Storage → Prop) : Prop where
  putItem : ∀ {s s' it}, it.tombstone = false → s.putItem it = .ok s' → R s s'
  archiveAndPut : ∀ {s s' it retain}, it.tombstone = false → s.archiveAndPut it retain = .ok s' →
    R s s'
  putItemAndClearHistory : ∀ {s s' it}, s.putItemAndClearHistory it = .ok s' → R s s'
  markItemDirty : ∀ s vaultId itemId, R s (s.markItemDirty vaultId itemId)

section ItemWrites

theorem sealItem_live (sealed : vault.sealItem P itemId itemType content version draws = .ok record)
    :
    record.tombstone = false := by
  obtain ⟨_, -, sealed⟩ := bind_eq_ok.mp sealed
  obtain ⟨_, -, sealed⟩ := bind_eq_ok.mp sealed
  obtain ⟨_, -, sealed⟩ := bind_eq_ok.mp sealed
  cases sealed
  rfl

variable [Std.Refl R] [IsTrans Storage R] (writes : ItemWrites R)
include writes

theorem putItem_preserves : Preserves R (vault.putItem P itemId itemType content draws) := by
  refine .bind compute_preserves fun _ => ?_
  refine .bind (.read _) fun version => ?_
  refine compute_bind_preserves fun record sealed => ?_
  refine .bind (vaultWrite_preserves fun _ _ => writes.putItem (sealItem_live sealed)) fun _ => ?_
  refine .bind (.modify fun s => writes.markItemDirty s _ _) fun _ => ?_
  exact .pure _

theorem putItemKeepHistory_preserves :
    Preserves R (vault.putItemKeepHistory P itemId itemType content draws) := by
  refine .bind compute_preserves fun _ => ?_
  refine .bind (.read _) fun version => ?_
  refine compute_bind_preserves fun record sealed => ?_
  refine .bind (vaultWrite_preserves fun _ _ => writes.archiveAndPut (sealItem_live sealed))
    fun _ => ?_
  refine .bind (.modify fun s => writes.markItemDirty s _ _) fun _ => ?_
  exact .pure _

theorem deleteItem_preserves : Preserves R (vault.deleteItem P itemId) := by
  refine .bind compute_preserves fun _ => ?_
  refine .bind (.read _) fun existing => ?_
  refine .bind compute_preserves fun version => ?_
  refine .bind compute_preserves fun record => ?_
  refine .bind (vaultWrite_preserves fun _ _ => writes.putItemAndClearHistory) fun _ => ?_
  exact .modify fun s => writes.markItemDirty s _ _

end ItemWrites

/-! ## Operations that leave the floors alone -/

theorem recordWrites_advances : RecordWrites Advances where
  putVault := putVault_advances
  markVaultDirty _ _ := .of_vaults (.updateWhere (fun _ _ _ => ⟨UInt64.le_refl _, id⟩) _)
  clearItemHistory := clearItemHistory_advances
  putMembershipManifest := putMembershipManifest_advances
  putMembershipGrant := putMembershipGrant_advances
  markMembershipDirty := markMembershipDirty_advances

theorem itemWrites_advances : ItemWrites Advances where
  putItem _ := putItem_advances
  archiveAndPut _ := archiveAndPut_advances
  putItemAndClearHistory := putItemAndClearHistory_advances
  markItemDirty := markItemDirty_advances

theorem renameItem_advances : Preserves Advances (vault.renameItem P oldId newId draws) := by
  apply Preserves.ite
  · exact .pure _
  · refine .bind compute_preserves fun _ => ?_
    refine .bind (.read _) fun _ => ?_
    refine .bind (.read _) fun item => ?_
    apply Preserves.transaction
    refine .bind (putItem_preserves itemWrites_advances) fun _ => ?_
    refine .bind compute_preserves fun version => ?_
    refine .bind compute_preserves fun tomb => ?_
    refine .bind (vaultWrite_preserves fun _ _ => putItem_advances) fun _ => ?_
    refine .bind (.modify fun s => markItemDirty_advances s _ _) fun _ => ?_
    exact .modify fun s => clearItemHistory_advances s _ _

theorem putReanchored_advances : Preserves Advances (vault.putReanchored records) := by
  apply Preserves.forM
  intro _ _
  refine .bind (vaultWrite_preserves fun _ _ => putItem_advances) fun _ => ?_
  exact .modify fun s => markItemDirty_advances s _ _

/-! ## Membership changes -/

theorem recordWrites_floorSet : RecordWrites (Ahead (FloorSet vaultId epoch)) :=
  recordWrites_advances.mono fun moved => moved.floorSet vaultId epoch

theorem putReanchored_floorSet :
    Preserves (Ahead (FloorSet vaultId epoch)) (vault.putReanchored records) :=
  putReanchored_advances.mono fun _ _ moved => moved.floorSet vaultId epoch

theorem requireAboveFloor_le (above : vault.requireAboveFloor s epoch = .ok ()) :
    (s.getVaultEpochFloor vault.vaultId).getD 0 ≤ epoch := by
  unfold Vault.requireAboveFloor at above
  split at above
  · cases above
  · next notBelow => exact UInt64.le_of_lt (UInt64.not_le.mp notBelow)

theorem establishOrExtendMembership_forward :
    Preserves Forward
      (vault.establishOrExtendMembership P adminKeyset members x25519ByEd draws) := by
  intro s
  refine Preserves.read_bind fun issued _ => ?_
  obtain ⟨keyEpoch, _⟩ := issued
  refine Preserves.read_bind fun _ above => ?_
  refine Ahead.forward_of_le ?_ (requireAboveFloor_le above)
  refine (?_ : Preserves (Ahead (FloorSet vault.vaultId keyEpoch)) _) s
  refine .bind (.read _) fun reanchored => ?_
  refine .bind ?_ fun _ => Preserves.pure _
  apply Preserves.transaction
  have writes := @recordWrites_floorSet vault.vaultId keyEpoch
  refine .bind (addMember_preserves writes) fun verified => ?_
  refine .bind (reanchorRecord_preserves writes putReanchored_floorSet) fun _ => ?_
  exact vaultWrite_preserves fun _ _ => setVaultEpochFloor_floorSet

theorem rotateVk_forward :
    Preserves Forward (vault.rotateVk P adminKeyset remaining grants draws) := by
  intro s
  refine Preserves.read_bind fun rotation prepared => ?_
  obtain ⟨_, _, _, made⟩ := prepareRotation_eq_ok prepared
  refine Ahead.forward_of_le ?_ (requireAboveFloor_le made.aboveFloor)
  refine (?_ : Preserves (Ahead (FloorSet vault.vaultId rotation.epoch)) _) s
  refine .bind ?_ fun _ => Preserves.pure _
  apply Preserves.transaction
  have writes := @recordWrites_floorSet vault.vaultId rotation.epoch
  refine .bind (vaultWrite_preserves fun _ _ => writes.putMembershipManifest) fun _ => ?_
  refine .bind (putGrants_preserves writes) fun _ => ?_
  refine .bind putReanchored_floorSet fun _ => ?_
  refine .bind (vaultWrite_preserves fun _ _ => writes.putVault) fun _ => ?_
  refine .bind (vaultWrite_preserves fun _ _ => setVaultEpochFloor_floorSet) fun _ => ?_
  refine .bind (.modify fun s => writes.markVaultDirty s _) fun _ => ?_
  exact vaultWrite_preserves fun _ _ => writes.markMembershipDirty

/-! ## Everything a device does to its storage besides syncing -/

/-- A local operation, on any handle and with any arguments. -/
inductive LocalOperation where
  | create (keyset : UnlockedKeyset) (vaultId name : Bytes) (syncTarget : SyncTarget)
      (draws : Draws)
  | setName (vault : Vault) (newName : Bytes) (draws : Draws)
  | setCachePolicy (vault : Vault) (policy : CachePolicy) (draws : Draws)
  | delete (vault : Vault) (draws : Draws)
  | putItem (vault : Vault) (itemId : Bytes) (itemType : UInt32) (content : Bytes) (draws : Draws)
  | putItemKeepHistory (vault : Vault) (itemId : Bytes) (itemType : UInt32) (content : Bytes)
      (draws : Draws)
  | deleteItem (vault : Vault) (itemId : Bytes)
  | renameItem (vault : Vault) (oldId newId : Bytes) (draws : Draws)
  | establish (vault : Vault) (adminKeyset : UnlockedKeyset) (members : List Member)
      (x25519ByEd : List (Bytes × Bytes)) (draws : Draws)
  | rotate (vault : Vault) (adminKeyset : UnlockedKeyset) (remaining : List Member)
      (grants : List Recipient) (draws : Draws)
  | bindVault (vaultId tenant : Bytes)
  | bindUnbound (tenant : Bytes)
  | unbindVault (vaultId : Bytes)
  | clearBinding (tenant : Bytes)
  | purge (vaultId : Bytes) (dropTrustAnchor : Bool)
  | discardUnpushedItem (vaultId itemId : Bytes) (version : UInt64) (authorPubkey : Bytes)
  | removeGrant (vaultId memberPubkey : Bytes) (keyEpoch : UInt64)
  | writeAccountState (authorPubkey payload signature : Bytes)
  | appendAudit (entryBlob signature authorPubkey : Bytes)
  | setMeta (key value : Bytes)
  | setSyncCursor (key : Bytes) (v : UInt64)
  | setTrustAnchor (vaultId genesisOwnerPubkey : Bytes)
  | setClock (now : Int64)

/-- A write that fails leaves the storage as it was. -/
def orUnchanged {ε : Type} (s : Storage) : Except ε Storage → Storage
  | .ok s' => s'
  | .error _ => s

/-- The account's own state, at the version after the stored one. -/
def writeAccountState (s : Storage) (authorPubkey payload signature : Bytes) :
    Except StorageError Storage :=
  let cur := ((s.getAccountState authorPubkey).map AccountStateRecord.version).getD 0
  -- At the last version the next one is that version again, which is out of range.
  let newVersion := if cur = 0xFFFFFFFFFFFFFFFF then cur else cur + 1
  s.setAccountState authorPubkey newVersion payload signature

namespace LocalOperation

/-- The storage an operation leaves, returned or failed. -/
def run (P : Primitives) (s : Storage) : LocalOperation → Storage
  | .create keyset vaultId name syncTarget draws =>
    finalState ((createWithTarget P keyset vaultId name syncTarget draws).run s)
  | .setName vault newName draws => finalState ((vault.setName P newName draws).run s)
  | .setCachePolicy vault policy draws => finalState ((vault.setCachePolicy P policy draws).run s)
  | .delete vault draws => finalState ((vault.delete P draws).run s)
  | .putItem vault itemId itemType content draws =>
    finalState ((vault.putItem P itemId itemType content draws).run s)
  | .putItemKeepHistory vault itemId itemType content draws =>
    finalState ((vault.putItemKeepHistory P itemId itemType content draws).run s)
  | .deleteItem vault itemId => finalState ((vault.deleteItem P itemId).run s)
  | .renameItem vault oldId newId draws =>
    finalState ((vault.renameItem P oldId newId draws).run s)
  | .establish vault adminKeyset members x25519ByEd draws =>
    finalState
      ((vault.establishOrExtendMembership P adminKeyset members x25519ByEd draws).run s)
  | .rotate vault adminKeyset remaining grants draws =>
    finalState ((vault.rotateVk P adminKeyset remaining grants draws).run s)
  | .bindVault vaultId tenant => s.setVaultTenant vaultId tenant
  | .bindUnbound tenant => s.bindUnboundCloudVaults tenant
  | .unbindVault vaultId => s.unbindVault vaultId
  | .clearBinding tenant => s.clearBindingForTenant tenant
  | .purge vaultId dropTrustAnchor => s.purge vaultId dropTrustAnchor
  | .discardUnpushedItem vaultId itemId version authorPubkey =>
    orUnchanged s (s.discardUnpushedItem vaultId itemId version authorPubkey)
  | .removeGrant vaultId memberPubkey keyEpoch =>
    orUnchanged s (s.removeMembershipGrant vaultId memberPubkey keyEpoch)
  | .writeAccountState authorPubkey payload signature =>
    orUnchanged s (UniSsh.writeAccountState s authorPubkey payload signature)
  | .appendAudit entryBlob signature authorPubkey => s.appendAudit entryBlob signature authorPubkey
  | .setMeta key value => s.setMeta key value
  | .setSyncCursor key v => orUnchanged s (s.setSyncCursor key v)
  | .setTrustAnchor vaultId genesisOwnerPubkey => s.setVaultTrustAnchor vaultId genesisOwnerPubkey
  | .setClock now => { s with now }

/-- The operations that take back neither a row nor a binding. -/
def TakesNothingBack : LocalOperation → Prop
  | .bindVault _ tenant => tenant ≠ []
  | .unbindVault _ | .clearBinding _ | .purge _ _ | .discardUnpushedItem _ _ _ _ => False
  | _ => True

theorem orUnchanged_forward {ε : Type} {x : Except ε Storage}
    (advances : ∀ s', x = .ok s' → Advances s s') : Forward s (orUnchanged s x) := by
  cases x with
  | error => exact Std.Refl.refl s
  | ok s' => exact (advances s' rfl).forward

theorem writeAccountState_advances {authorPubkey payload signature : Bytes}
    (wrote : UniSsh.writeAccountState s authorPubkey payload signature = .ok s') :
    Advances s s' := by
  refine setAccountState_advances ?_ wrote
  intro stored found
  obtain ⟨row, -, rfl⟩ := map_eq_some_iff.mp found
  rw [found, map_some, Option.getD_some]
  -- A stored version is never the last one.
  have notLast : (mapAccountStateRow authorPubkey row).version ≠ 0xFFFFFFFFFFFFFFFF :=
    row.version.ne_max
  rw [if_neg notLast]
  left
  exact lt_add_one_of_ne_max notLast

theorem run_forward (P : Primitives) (s : Storage) {op : LocalOperation}
    (keeps : op.TakesNothingBack) : Forward s (op.run P s) := by
  cases op with
  | create => exact (createWithTarget_preserves recordWrites_advances s).forward
  | setName => exact (setName_preserves recordWrites_advances s).forward
  | setCachePolicy => exact (setCachePolicy_preserves recordWrites_advances s).forward
  | delete => exact (delete_preserves recordWrites_advances s).forward
  | putItem => exact (putItem_preserves itemWrites_advances s).forward
  | putItemKeepHistory => exact (putItemKeepHistory_preserves itemWrites_advances s).forward
  | deleteItem => exact (deleteItem_preserves itemWrites_advances s).forward
  | renameItem => exact (renameItem_advances s).forward
  | establish => exact establishOrExtendMembership_forward s
  | rotate => exact rotateVk_forward s
  | bindVault vaultId => exact (setVaultTenant_advances keeps).forward
  | bindUnbound tenant => exact (bindUnboundCloudVaults_advances s tenant).forward
  | unbindVault | clearBinding | purge | discardUnpushedItem => exact keeps.elim
  | removeGrant =>
    refine orUnchanged_forward fun _ removed => ?_
    obtain ⟨_, -, rfl⟩ := Storage.checkedWrite_eq_ok.mp removed
    exact .of_tables rfl rfl rfl rfl rfl
  | writeAccountState =>
    exact orUnchanged_forward fun _ => writeAccountState_advances
  | setSyncCursor => exact orUnchanged_forward fun _ => setSyncCursor_advances
  | appendAudit | setMeta | setTrustAnchor | setClock =>
    apply Advances.forward
    exact .of_tables rfl rfl rfl rfl rfl

end LocalOperation

end UniSsh
