import UniSsh.Vault.History
import UniSsh.Vault.OwnerEdits

/-!
# A vault in its owner's hands

Every row of a vault only its owner worked on is signed by the owner at the vault's epoch
(`OwnVault`), so their authority follows from the chain at that epoch.
-/

namespace UniSsh

open Storage

variable {P : Primitives} {s s' : Storage} {own vaultId : Bytes} {epoch : UInt64}

/-! ## What an edit leaves in the tables -/

/-- A row written by the owner at an epoch, over an older one if there was one. -/
def ItemRow.EditedAs (P : Primitives) (own : Bytes) (epoch : UInt64) (key : Bytes × Bytes)
    (row : ItemRow) (old : Option ItemRow) : Prop :=
  row.dirty = true ∧ (mapItemRow key row).OwnedBy P own epoch ∧
    ∀ before, old = some before → before.version.toU64 < row.version.toU64

def VaultRow.EditedAs (P : Primitives) (own vaultId : Bytes) (epoch : UInt64)
    (row old : VaultRow) : Prop :=
  row.dirty = true ∧ (mapVaultRow vaultId row).OwnedBy P own epoch ∧
    old.version.toU64 < row.version.toU64 ∧ row.syncTarget = old.syncTarget ∧
    row.syncTenant = old.syncTenant

theorem insertHistory_eq :
    s.insertHistory r = { s with itemHistory := (s.insertHistory r).itemHistory } ∧
      ∀ h ∈ (s.insertHistory r).itemHistory, h ∈ s.itemHistory ∨ h = r := by
  unfold Storage.insertHistory
  split
  · exact ⟨rfl, fun h old => .inl old⟩
  · exact ⟨rfl, fun h archived => (List.mem_append.mp archived).imp_right List.mem_singleton.mp⟩

variable {r : ItemRecord}

/-- A write does not look at the history. -/
theorem putItem_of_history
    (put : ({ s with itemHistory := history } : Storage).putItem r = .ok stored) :
    ∃ t, s.putItem r = .ok t ∧ stored = { t with itemHistory := history } := by
  obtain ⟨version, keyEpoch, sameVersion, sameEpoch, newer, rfl⟩ := putItem_eq_ok.mp put
  exact ⟨_, putItem_eq_ok.mpr ⟨version, keyEpoch, sameVersion, sameEpoch, newer, rfl⟩, rfl⟩

/-- Archiving and writing: the row as by a plain write, and at most the old row in the history. -/
theorem archiveAndPut_eq_ok (put : s.archiveAndPut r retain = .ok s') :
    ∃ stored, s.putItem r = .ok stored ∧ s' = { stored with itemHistory := s'.itemHistory } ∧
      ∀ h ∈ s'.itemHistory, h ∈ s.itemHistory ∨ s.getItem r.vaultId r.itemId = some h := by
  obtain ⟨archived, isStorage, history, ran⟩ : ∃ archived : Storage,
      archived = { s with itemHistory := archived.itemHistory } ∧
      (∀ h ∈ archived.itemHistory, h ∈ s.itemHistory ∨ s.getItem r.vaultId r.itemId = some h) ∧
      (do
        let t ← archived.putItem r
        .ok (t.trimHistory r.vaultId r.itemId retain)) = .ok s' := by
    unfold Storage.archiveAndPut at put
    split at put
    · next found =>
      split at put
      · exact ⟨s, rfl, fun h old => .inl old, put⟩
      · obtain ⟨isStorage, history⟩ := insertHistory_eq
        refine ⟨_, isStorage, fun h archived => (history h archived).imp_right ?_, put⟩
        rintro rfl
        exact found
    · exact ⟨s, rfl, fun h old => .inl old, put⟩
  obtain ⟨_, wrote, trimmed⟩ := bind_eq_ok.mp ran
  rw [isStorage] at wrote
  obtain ⟨stored, plain, rfl⟩ := putItem_of_history wrote
  cases trimmed
  exact ⟨stored, plain, rfl, fun h kept =>
    history h (trimHistory_leavesItems.history kept)⟩

theorem putItem_editedAs (owned : r.OwnedBy P own epoch) (put : s.putItem r = .ok mid)
    {key : Bytes × Bytes} :
    (mid.markItemDirty r.vaultId r.itemId).items[key]? = s.items[key]? ∨
      key.1 = r.vaultId ∧ ∃ row, (mid.markItemDirty r.vaultId r.itemId).items[key]? = some row ∧
        row.EditedAs P own epoch key s.items[key]? := by
  obtain ⟨-, ⟨row, written, dirty, _, _, isRow⟩, newer, others⟩ := putItem_marked put
  by_cases other : key = (r.vaultId, r.itemId)
  · subst other
    have version : row.version.toU64 = r.version := congrArg ItemRecord.version isRow
    refine .inr ⟨rfl, row, written, dirty, ?_, fun before present => ?_⟩
    · rw [isRow]
      exact owned.stamp _ _
    · rw [version]
      exact newer before present
  · exact .inl (others key other)

namespace OwnerEdit

variable (edit : OwnerEdit P own vaultId epoch s s')
include edit

/-- An edit touches rows and archived versions only. -/
theorem frame :
    s' = { s with vaults := s'.vaults, items := s'.items, itemHistory := s'.itemHistory } := by
  cases edit with
  | record _ _ _ _ _ _ _ put =>
    obtain ⟨_, _, -, -, -, rfl⟩ := putVault_eq_ok.mp put
    rfl
  | item _ _ _ put =>
    obtain ⟨_, _, -, -, -, rfl⟩ := putItem_eq_ok.mp put
    rfl
  | archived _ _ _ put =>
    obtain ⟨_, put, isStored, -⟩ := archiveAndPut_eq_ok put
    obtain ⟨_, _, -, -, -, rfl⟩ := putItem_eq_ok.mp put
    rw [isStored]
    rfl
  | cleared => rfl

theorem vaults (key : Bytes) :
    s'.vaults[key]? = s.vaults[key]? ∨
      key = vaultId ∧ ∃ old row, s.vaults[key]? = some old ∧ s'.vaults[key]? = some row ∧
        row.EditedAs P own key epoch old := by
  cases edit with
  | record _ r found ofVault owned target tenant put =>
    subst ofVault
    obtain ⟨-, ⟨row, written, dirty, isRow⟩, newer, others⟩ := putVault_marked found tenant put
    by_cases other : key = r.vaultId
    · subst other
      obtain ⟨old, present, rfl⟩ := map_eq_some_iff.mp found
      rw [← isRow] at owned newer target tenant
      exact .inr ⟨rfl, old, row, present, written, dirty, owned, newer, target, tenant⟩
    · exact .inl (others key other)
  | item _ _ _ put =>
    obtain ⟨_, _, -, -, -, rfl⟩ := putItem_eq_ok.mp put
    exact .inl rfl
  | archived _ _ _ put =>
    obtain ⟨_, put, isStored, -⟩ := archiveAndPut_eq_ok put
    obtain ⟨_, _, -, -, -, rfl⟩ := putItem_eq_ok.mp put
    rw [isStored]
    exact .inl rfl
  | cleared => exact .inl rfl

theorem items (key : Bytes × Bytes) :
    s'.items[key]? = s.items[key]? ∨ key.1 = vaultId ∧ ∃ row, s'.items[key]? = some row ∧
        row.EditedAs P own epoch key s.items[key]? := by
  cases edit with
  | record _ _ _ _ _ _ _ put =>
    obtain ⟨_, _, -, -, -, rfl⟩ := putVault_eq_ok.mp put
    exact .inl rfl
  | item _ ofVault owned put =>
    subst ofVault
    exact putItem_editedAs owned put
  | archived _ ofVault owned put =>
    subst ofVault
    obtain ⟨_, put, isStored, -⟩ := archiveAndPut_eq_ok put
    rw [isStored]
    exact putItem_editedAs owned put
  | cleared => exact .inl rfl

theorem history (archived : h ∈ s'.itemHistory) :
    h ∈ s.itemHistory ∨ ∃ itemId, s.getItem vaultId itemId = some h := by
  cases edit with
  | record _ _ _ _ _ _ _ put =>
    obtain ⟨_, _, -, -, -, rfl⟩ := putVault_eq_ok.mp put
    exact .inl archived
  | item _ _ _ put =>
    obtain ⟨_, _, -, -, -, rfl⟩ := putItem_eq_ok.mp put
    exact .inl archived
  | archived r ofVault _ put =>
    obtain ⟨_, -, -, history⟩ := archiveAndPut_eq_ok put
    refine (history h archived).imp_right fun found => ⟨r.itemId, ?_⟩
    rw [← ofVault]
    exact found
  | cleared => exact .inl (List.mem_of_mem_filter archived)

end OwnerEdit

/-! ## Vaults of one owner -/

/-- The epoch the owner writes at: 0, or the latest, which is the floor and lets them write. -/
inductive OwnEpoch (P : Primitives) (own vaultId : Bytes) (s : Storage) : UInt64 → Prop where
  | alone (noManifest : s.latestMembershipEpoch vaultId = none)
      (noFloor : s.getVaultEpochFloor vaultId = none) : OwnEpoch P own vaultId s 0
  | shared {epoch : UInt64} {members : VerifiedMembers}
      (latest : s.latestMembershipEpoch vaultId = some epoch)
      (floor : s.getVaultEpochFloor vaultId = some epoch)
      (chain : verifyChainToEpoch P s vaultId epoch own = .ok members)
      (writes : members.canWrite own = true) : OwnEpoch P own vaultId s epoch

/-- A vault all of whose rows are the owner's, at the vault's epoch. -/
structure OwnVault (P : Primitives) (own vaultId : Bytes) (epoch : UInt64) (s : Storage) :
    Prop where
  unpinned : s.getVaultTrustAnchor vaultId = none
  atEpoch : OwnEpoch P own vaultId s epoch
  record : ∃ r, s.getVault vaultId = some r ∧ r.OwnedBy P own epoch
  items : ∀ itemId r, s.getItem vaultId itemId = some r → r.OwnedBy P own epoch

theorem OwnEpoch.authority (atEpoch : OwnEpoch P own vaultId s epoch)
    (unpinned : s.getVaultTrustAnchor vaultId = none) :
    verifyRecordAuthority P s vaultId own epoch own = .ok () := by
  rw [verifyRecordAuthority_eq_ok]
  cases atEpoch with
  | alone noManifest noFloor =>
    exact .inl ⟨by simp [vaultIsMembershipMode, noManifest, noFloor, unpinned], rfl⟩
  | shared latest floor chain writes =>
    refine .inr ⟨by simp [vaultIsMembershipMode, latest], ?_, _, chain, writes⟩
    simp only [recordEpochFloor, latest, floor, Option.getD_some, Std.max_self]
    exact UInt64.le_refl _

theorem OwnEpoch.congr (atEpoch : OwnEpoch P own vaultId s epoch)
    (manifests : s'.membershipManifests = s.membershipManifests)
    (floors : s'.vaultEpochFloor = s.vaultEpochFloor) : OwnEpoch P own vaultId s' epoch := by
  have sameLatest : s'.latestMembershipEpoch vaultId = s.latestMembershipEpoch vaultId := by
    unfold Storage.latestMembershipEpoch
    rw [manifests]
  have sameFloor : s'.getVaultEpochFloor vaultId = s.getVaultEpochFloor vaultId := by
    unfold Storage.getVaultEpochFloor
    rw [floors]
  cases atEpoch with
  | alone noManifest noFloor => exact .alone (sameLatest.trans noManifest) (sameFloor.trans noFloor)
  | shared latest floor chain writes =>
    refine .shared (sameLatest.trans latest) (sameFloor.trans floor) ?_ writes
    rw [← chain]
    refine verifyChainToEpoch_congr fun epoch _ _ => ?_
    rw [getMembershipManifest, getMembershipManifest, manifests]

theorem OwnVault.edit (isOwn : OwnVault P own vaultId epoch s)
    (edit : OwnerEdit P own vaultId epoch s s') : OwnVault P own vaultId epoch s' := by
  have frame := edit.frame
  refine ⟨?_, ?_, ?_, ?_⟩
  · rw [frame]
    exact isOwn.unpinned
  · exact isOwn.atEpoch.congr (by rw [frame]) (by rw [frame])
  · obtain ⟨r, found, owned⟩ := isOwn.record
    rcases edit.vaults vaultId with same | ⟨-, _, row, -, written, -, owned', -⟩
    · exact ⟨r, by rw [Storage.getVault, same]; exact found, owned⟩
    · exact ⟨_, by rw [Storage.getVault, written]; rfl, owned'⟩
  · intro itemId r found
    rcases edit.items (vaultId, itemId) with same | ⟨-, _, written, -, owned, -⟩
    · rw [Storage.getItem, same] at found
      exact isOwn.items itemId r found
    · rw [Storage.getItem, written] at found
      cases found
      exact owned

theorem OwnVault.edits (isOwn : OwnVault P own vaultId epoch s)
    (edits : OwnerEdits P own vaultId epoch s s') : OwnVault P own vaultId epoch s' := by
  induction edits with
  | refl => exact isOwn
  | tail _ edit ih => exact ih.edit edit

section Manifest

variable {n : SqlInt} {m : MembershipManifest}
  (rows : ∀ key, s'.membershipManifests[key]? =
    if key = (vaultId, n) then
      some { manifestBlob := m.manifestBlob, signature := m.signature,
             authorPubkey := m.authorPubkey, dirty := true }
    else s.membershipManifests[key]?)
include rows

theorem hasManifest_stored :
    s'.HasManifest vaultId e ↔ e = n.toU64 ∨ s.HasManifest vaultId e := by
  constructor
  · rintro ⟨k, rfl, row, found⟩
    rw [rows] at found
    split at found
    · next isNew => exact .inl (congrArg (SqlInt.toU64 ∘ Prod.snd) isNew)
    · exact .inr ⟨k, rfl, row, found⟩
  · rintro (rfl | ⟨k, rfl, row, found⟩)
    · exact ⟨n, rfl, _, (rows _).trans (if_pos rfl)⟩
    · by_cases isNew : (vaultId, k) = (vaultId, n)
      · exact ⟨k, rfl, _, (rows _).trans (if_pos isNew)⟩
      · exact ⟨k, rfl, row, ((rows _).trans (if_neg isNew)).trans found⟩

theorem getMembershipManifest_others (other : e ≠ n.toU64) :
    s'.getMembershipManifest vaultId e = s.getMembershipManifest vaultId e := by
  unfold Storage.getMembershipManifest
  cases checked : checkedVersion e with
  | error => rfl
  | ok k =>
    have isEpoch := checkedVersion_eq_ok.mp checked
    have isOther : (vaultId, k) ≠ (vaultId, n) := by
      intro same
      cases same
      exact other isEpoch.symm
    simp only [ok_bind, rows, if_neg isOther]

end Manifest

variable {prev : Option VerifiedMembers}

theorem Succeeds.above (succeeds : Succeeds P own vaultId s epoch prev)
    (has : s.HasManifest vaultId e) : e < epoch := by
  cases succeeds with
  | first alone => exact (latestMembershipEpoch_eq_none.mp alone e has).elim
  | next isLatest _ notLast =>
    have le := (latestMembershipEpoch_eq_some.mp isLatest).2 e has
    exact UInt64.lt_of_le_of_lt le (lt_add_one_of_ne_max notLast)

theorem Succeeds.chain (succeeds : Succeeds P own vaultId s epoch prev)
    (same : ∀ e, e ≠ epoch → s'.getMembershipManifest vaultId e = s.getMembershipManifest vaultId e)
    (stored : s'.getMembershipManifest vaultId epoch = .ok (some m))
    (verifies : verifyManifest P m vaultId prev own = .ok members) :
    verifyChainToEpoch P s' vaultId epoch own = .ok members := by
  cases succeeds with
  | first =>
    exact verifyChainToEpoch_eq_ok.mpr
      ⟨by decide, walk_succ (walk.eq_1 _) (chainLink_of_stored stored verifies)⟩
  | @next latest set isLatest chain notLast =>
    have succ : (latest + 1).toNat = latest.toNat + 1 := toNat_add_one_of_ne_max notLast
    have before : verifyChainToEpoch P s' vaultId latest own = .ok set := by
      rw [← chain]
      refine verifyChainToEpoch_congr fun e _ within => same e ?_
      rintro rfl
      exact UInt64.lt_irrefl _ (UInt64.lt_of_lt_of_le (lt_add_one_of_ne_max notLast) within)
    refine verifyChainToEpoch_eq_ok.mpr ⟨fun zero => ?_, ?_⟩
    · rw [zero] at succ
      exact Nat.succ_ne_zero _ succ.symm
    · rw [succ]
      refine walk_succ (verifyChainToEpoch_eq_ok.mp before).2 (chainLink_of_stored ?_ verifies)
      rw [← succ, UInt64.ofNat_toNat]
      exact stored

/-- The new manifest is the latest and continues the chain. -/
theorem Reanchored.atEpoch (reanchored : Reanchored P own vaultId epoch s s') :
    OwnEpoch P own vaultId s' epoch := by
  obtain ⟨_, _, m, n, succeeds, rfl, names, verifies, writes, rows, floors⟩ :=
    reanchored.manifest
  have stored : s'.getMembershipManifest vaultId n.toU64 = .ok (some m) := by
    refine getMembershipManifest_eq_ok.mpr ⟨n, rfl, ?_⟩
    rw [rows, if_pos rfl, ← (verifyManifest_eq_ok verifies).1]
    simp only [map_some, mapManifestRow, ← names]
  have floor : s'.getVaultEpochFloor vaultId = some n.toU64 := by
    rw [Storage.getVaultEpochFloor, floors, Table.getElem?_insert, if_pos rfl]
    rfl
  have latest : s'.latestMembershipEpoch vaultId = some n.toU64 := by
    refine latestMembershipEpoch_eq_some.mpr
      ⟨(hasManifest_stored rows).mpr (.inl rfl), fun e has => ?_⟩
    rcases (hasManifest_stored rows).mp has with rfl | old
    · exact UInt64.le_refl _
    · exact UInt64.le_of_lt (succeeds.above old)
  have chain := succeeds.chain (fun _ other => getMembershipManifest_others rows other) stored
    verifies
  exact .shared latest floor chain writes

theorem OwnVault.reanchored (isOwn : OwnVault P own vaultId before s)
    (reanchored : Reanchored P own vaultId epoch s s') : OwnVault P own vaultId epoch s' := by
  have frame := reanchored.frame
  refine ⟨?_, reanchored.atEpoch, ?_, ?_⟩
  · rw [frame]
    exact isOwn.unpinned
  · obtain ⟨_, r, row, -, -, owned, -, -, -, written, -, isRow⟩ := reanchored.record
    exact ⟨r, by rw [Storage.getVault, written]; exact congrArg some isRow, owned⟩
  · intro itemId r found
    obtain ⟨_, written, rfl⟩ := map_eq_some_iff.mp found
    have reissued := reanchored.items itemId
    rw [written] at reissued
    generalize s.items[(vaultId, itemId)]? = old at reissued
    cases reissued with
    | some reissued => exact reissued.2.2.2

/-! ## Operations on the opened vault -/

/-- A handle with which the owner works on a vault at an epoch. -/
structure Vault.Handles (P : Primitives) (keyset : UnlockedKeyset) (vaultId : Bytes)
    (epoch : UInt64) (vault : Vault) : Prop where
  ofAccount : vault.keyset = keyset
  ofVault : vault.vaultId = vaultId
  atEpoch : vault.keyEpoch = epoch
  genesisOwner : vault.genesisOwner = keyset.verifying P

/-- An operation of the owner. After a membership change the vault is opened again, at `now`. -/
inductive OwnerOperation where
  | putItem (itemId : Bytes) (itemType : UInt32) (content : Bytes) (draws : Draws)
  | putItemKeepHistory (itemId : Bytes) (itemType : UInt32) (content : Bytes) (draws : Draws)
  | deleteItem (itemId : Bytes)
  | renameItem (oldId newId : Bytes) (draws : Draws)
  | setName (newName : Bytes) (draws : Draws)
  | setCachePolicy (policy : CachePolicy) (draws : Draws)
  | establish (adminKeyset : UnlockedKeyset) (members : List Member)
      (x25519ByEd : List (Bytes × Bytes)) (draws : Draws) (now : Int64)
  | rotate (adminKeyset : UnlockedKeyset) (remaining : List Member) (grants : List Recipient)
      (draws : Draws) (now : Int64)

namespace OwnerOperation

/-- Runs the operation and returns the handle to go on with. -/
def run (P : Primitives) (vault : Vault) : OwnerOperation → VaultM Vault
  | .putItem itemId itemType content draws => do
    let _ ← vault.putItem P itemId itemType content draws
    pure vault
  | .putItemKeepHistory itemId itemType content draws => do
    let _ ← vault.putItemKeepHistory P itemId itemType content draws
    pure vault
  | .deleteItem itemId => do
    vault.deleteItem P itemId
    pure vault
  | .renameItem oldId newId draws => do
    vault.renameItem P oldId newId draws
    pure vault
  | .setName newName draws => vault.setName P newName draws
  | .setCachePolicy policy draws => vault.setCachePolicy P policy draws
  | .establish adminKeyset members x25519ByEd draws now => do
    let _ ← vault.establishOrExtendMembership P adminKeyset members x25519ByEd draws
    readM fun s => openVault P s vault.keyset vault.vaultId now
  | .rotate adminKeyset remaining grants draws now => do
    let _ ← vault.rotateVk P adminKeyset remaining grants draws
    readM fun s => openVault P s vault.keyset vault.vaultId now

/-- The member set a membership change issues. -/
def newMembers : OwnerOperation → Option (List Member)
  | .establish _ members _ _ _ => some members
  | .rotate _ remaining _ _ _ => some remaining
  | _ => none

/-- A membership change leaves the owner an admin. -/
def KeepsOwner (own : Bytes) (op : OwnerOperation) : Prop :=
  ∀ members, op.newMembers = some members → { ed25519Pub := own, role := .admin } ∈ members

end OwnerOperation

/-- No table has a row of the vault. -/
structure Storage.HoldsNothing (s : Storage) (vaultId : Bytes) : Prop where
  record : s.vaults[vaultId]? = none
  items : ∀ itemId : Bytes, s.items[(vaultId, itemId)]? = none
  history : ∀ h ∈ s.itemHistory, h.vaultId ≠ vaultId
  manifests : ∀ n : SqlInt, s.membershipManifests[(vaultId, n)]? = none
  floor : s.vaultEpochFloor[vaultId]? = none
  anchor : s.vaultTrustAnchor[vaultId]? = none

variable {keyset : UnlockedKeyset}
  {name : Bytes} {syncTarget : SyncTarget} {draws : Draws} {vault : Vault}

/-- A new vault is a marked record at epoch 0. -/
theorem createWithTarget_run_ok
    (ran : (createWithTarget P keyset vaultId name syncTarget draws).run s = .ok vault s') :
    vault.Handles P keyset vaultId 0 ∧ ∃ row : VaultRow, row.dirty = true ∧
      row.syncTarget = syncTarget ∧ (mapVaultRow vaultId row).OwnedBy P (keyset.verifying P) 0 ∧
      s'.vaults[vaultId]? = some row ∧ (∀ key, key ≠ vaultId → s'.vaults[key]? = s.vaults[key]?) ∧
      s' = { s with vaults := s'.vaults } := by
  obtain ⟨_, -, ran⟩ := read_bind_ok ran
  obtain ⟨_, -, ran⟩ := read_bind_ok ran
  obtain ⟨r, built, ran⟩ := read_bind_ok ran
  obtain ⟨_, _, wrote, ran⟩ := bind_run_ok ran
  cases ran
  obtain ⟨rfl, -, target, -, owned⟩ := buildVaultRecordEpoch_owned built
  obtain ⟨version, keyEpoch, sameVersion, sameEpoch, -, rfl⟩ :=
    putVault_eq_ok.mp (vaultWrite_run_ok wrote)
  have written := Table.getElem?_insert_updateWhere s.vaults r.vaultId
    (Storage.upsertVaultRow r version keyEpoch s.vaults[r.vaultId]?)
    fun row => { row with dirty := true }
  refine ⟨⟨rfl, rfl, rfl, rfl⟩, _, ?_, ?_, ?_, (written _).trans (if_pos rfl),
    fun key other => (written key).trans (if_neg other), rfl⟩
  · rfl
  · exact target
  · exact ⟨by simpa [mapVaultRow, Storage.upsertVaultRow, sameVersion] using owned.signed,
      owned.author, sameEpoch.trans owned.epoch⟩

/-- A vault is its creator's. -/
theorem OwnVault.created (fresh : s.HoldsNothing vaultId)
    (ran : (createWithTarget P keyset vaultId name syncTarget draws).run s = .ok vault s') :
    OwnVault P (keyset.verifying P) vaultId 0 s' := by
  obtain ⟨-, row, -, -, owned, written, -, frame⟩ := createWithTarget_run_ok ran
  refine ⟨?_, .alone ?_ ?_, ⟨_, by rw [Storage.getVault, written]; rfl, owned⟩, ?_⟩
  · rw [frame, Storage.getVaultTrustAnchor, fresh.anchor]
    rfl
  · rw [frame]
    refine latestMembershipEpoch_eq_none.mpr ?_
    rintro _ ⟨n, -, _, found⟩
    cases (fresh.manifests n).symm.trans found
  · rw [frame, Storage.getVaultEpochFloor, fresh.floor]
    rfl
  · intro _ r found
    rw [frame, Storage.getItem, fresh.items] at found
    cases found

theorem OwnVault.opened {now : Int64} (isOwn : OwnVault P (keyset.verifying P) vaultId epoch s)
    (opens : openVault P s keyset vaultId now = .ok vault) :
    vault.Handles P keyset vaultId epoch := by
  obtain ⟨r, found, owned⟩ := isOwn.record
  obtain ⟨_, -, isRow⟩ := map_eq_some_iff.mp found
  have ofVault : r.vaultId = vaultId := by rw [← isRow]; rfl
  simp only [openVault, found, ofVault, isOwn.unpinned] at opens
  split at opens
  · cases opens
  obtain ⟨_, -, opens⟩ := bind_eq_ok.mp opens
  obtain ⟨⟨_, _⟩, -, opens⟩ := bind_eq_ok.mp opens
  obtain ⟨_, -, opens⟩ := bind_eq_ok.mp opens
  cases opens
  refine ⟨rfl, rfl, ?_, rfl⟩
  rw [owned.epoch]
  cases isOwn.atEpoch with
  | alone noManifest => rw [noManifest]
  | shared latest => rw [latest]; exact Std.max_self

theorem OwnerOperation.run_ok {op : OwnerOperation}
    (isOwn : OwnVault P (keyset.verifying P) vaultId epoch s)
    (handles : vault.Handles P keyset vaultId epoch)
    (keepsOwner : op.KeepsOwner (keyset.verifying P)) (ran : (op.run P vault).run s = .ok vault' s')
    :
    (op.newMembers = none ∧ OwnerEdits P (keyset.verifying P) vaultId epoch s s' ∧
      vault'.Handles P keyset vaultId epoch) ∨
    (op.newMembers.isSome ∧ ∃ next, Reanchored P (keyset.verifying P) vaultId next s s' ∧
      vault'.Handles P keyset vaultId next) := by
  obtain ⟨rfl, rfl, rfl, isOwner⟩ := handles
  have current : AtHandle vault s := by
    obtain ⟨r, found, owned⟩ := isOwn.record
    intro _ isCur
    cases found.symm.trans isCur
    exact owned.epoch
  cases op with
  | putItem =>
    obtain ⟨_, mid, ran, last⟩ := bind_run_ok ran
    cases last
    exact .inl ⟨rfl, putItem_edits ran, rfl, rfl, rfl, isOwner⟩
  | putItemKeepHistory =>
    obtain ⟨_, mid, ran, last⟩ := bind_run_ok ran
    cases last
    exact .inl ⟨rfl, putItemKeepHistory_edits ran, rfl, rfl, rfl, isOwner⟩
  | deleteItem =>
    obtain ⟨_, mid, ran, last⟩ := bind_run_ok ran
    cases last
    exact .inl ⟨rfl, deleteItem_edits ran, rfl, rfl, rfl, isOwner⟩
  | renameItem =>
    obtain ⟨_, mid, ran, last⟩ := bind_run_ok ran
    cases last
    exact .inl ⟨rfl, renameItem_edits ran, rfl, rfl, rfl, isOwner⟩
  | setName =>
    obtain ⟨_, -, ran⟩ := read_bind_ok ran
    obtain ⟨edits, r, rfl⟩ := reissued_edits ran fun cur found => by
      rw [current cur found, Std.max_self]
    exact .inl ⟨rfl, edits, rfl, rfl, rfl, isOwner⟩
  | setCachePolicy =>
    obtain ⟨_, -, ran⟩ := read_bind_ok ran
    obtain ⟨edits, r, rfl⟩ := reissued_edits ran current
    exact .inl ⟨rfl, edits, rfl, rfl, rfl, isOwner⟩
  | establish _ members =>
    obtain ⟨_, mid, ran, opens⟩ := bind_run_ok ran
    obtain ⟨reanchored, -⟩ := (establish_reanchors ran).resolve_right fun other =>
      other.2 (keepsOwner members rfl)
    obtain ⟨opens, rfl⟩ := readM_run_ok opens
    exact .inr ⟨rfl, _, reanchored, (isOwn.reanchored reanchored).opened opens⟩
  | rotate =>
    obtain ⟨_, _, ran, opens⟩ := bind_run_ok ran
    obtain ⟨next, reanchored, -⟩ := rotate_reanchors ran
    obtain ⟨opens, rfl⟩ := readM_run_ok opens
    exact .inr ⟨rfl, next, reanchored, (isOwn.reanchored reanchored).opened opens⟩

end UniSsh
