import UniSsh.Vault.Advances
import UniSsh.Vault.Payload

/-!
# What an owner's operation writes

A successful operation is a few writes of signed records (`OwnerEdit`); a membership change also
issues a manifest and re-signs every row (`Reanchored`). Each operation is inverted once.
-/

namespace UniSsh

open Storage List

variable {P : Primitives} {s s' : Storage}

/-! ## Records of the owner -/

/-- A record with the owner's valid signature, stamped with an epoch. -/
structure VaultRecord.OwnedBy (P : Primitives) (own : Bytes) (epoch : UInt64) (r : VaultRecord) :
    Prop where
  signed : verifySigned P r.authorPubkey (vaultRecordAad r.vaultId r.version)
    (vaultSignedContent r.wrappedVk r.nameBlob) r.signature = .ok ()
  author : r.authorPubkey = own
  epoch : r.keyEpoch = epoch

structure ItemRecord.OwnedBy (P : Primitives) (own : Bytes) (epoch : UInt64) (r : ItemRecord) :
    Prop where
  signed : verifySigned P r.authorPubkey (itemAad r.vaultId r.itemId r.version) r.contentBlob
    r.signature = .ok ()
  author : r.authorPubkey = own
  epoch : r.keyEpoch = epoch

variable {own : Bytes} {epoch : UInt64} {r : ItemRecord}

/-- Timestamps are not part of what is signed. -/
theorem ItemRecord.OwnedBy.stamp (owned : r.OwnedBy P own epoch) (createdAt updatedAt : Int64) :
    ItemRecord.OwnedBy P own epoch { r with createdAt, updatedAt } :=
  ⟨owned.signed, owned.author, owned.epoch⟩

/-- One write of an owner's operation on a vault at an epoch. -/
inductive OwnerEdit (P : Primitives) (own vaultId : Bytes) (epoch : UInt64) :
    Storage → Storage → Prop where
  | record {s mid : Storage} (cur r : VaultRecord) (found : s.getVault vaultId = some cur)
      (ofVault : r.vaultId = vaultId) (owned : r.OwnedBy P own epoch)
      (target : r.syncTarget = cur.syncTarget) (tenant : r.syncTenant = cur.syncTenant)
      (put : s.putVault r = .ok mid) :
      OwnerEdit P own vaultId epoch s (mid.markVaultDirty vaultId)
  | item {s mid : Storage} (r : ItemRecord) (ofVault : r.vaultId = vaultId)
      (owned : r.OwnedBy P own epoch) (put : s.putItem r = .ok mid) :
      OwnerEdit P own vaultId epoch s (mid.markItemDirty vaultId r.itemId)
  /-- The live version is archived before it is replaced. -/
  | archived {s mid : Storage} (r : ItemRecord) (ofVault : r.vaultId = vaultId)
      (owned : r.OwnedBy P own epoch) (put : s.archiveAndPut r historyRetain = .ok mid) :
      OwnerEdit P own vaultId epoch s (mid.markItemDirty vaultId r.itemId)
  | cleared {s : Storage} (itemId : Bytes) :
      OwnerEdit P own vaultId epoch s (s.clearItemHistory vaultId itemId)

def OwnerEdits (P : Primitives) (own vaultId : Bytes) (epoch : UInt64) : Storage → Storage → Prop :=
  Relation.ReflTransGen (OwnerEdit P own vaultId epoch)

/-! ## Building records -/

section Build

variable {vault : Vault} {version : UInt64}
  {itemId : Bytes} {itemType : UInt32} {tombstone : Bool} {keyEpoch : UInt64}

theorem signedItem_owned
    (signed : vault.signedItem P itemId itemType contentBlob wrappedItemKey version tombstone
      keyEpoch = .ok r) :
    r.vaultId = vault.vaultId ∧ r.itemId = itemId ∧ r.version = version ∧
      r.tombstone = tombstone ∧ r.OwnedBy P (vault.keyset.verifying P) keyEpoch := by
  obtain ⟨_, made, built⟩ := bind_eq_ok.mp signed
  cases built
  exact ⟨rfl, rfl, rfl, rfl, verifySigned_signContent P made, rfl, rfl⟩

theorem sealItem_owned (sealed : vault.sealItem P itemId itemType content version draws = .ok r) :
    r.vaultId = vault.vaultId ∧ r.itemId = itemId ∧ r.version = version ∧
      r.tombstone = false ∧ r.OwnedBy P (vault.keyset.verifying P) vault.keyEpoch := by
  obtain ⟨_, -, sealed⟩ := bind_eq_ok.mp sealed
  obtain ⟨_, -, sealed⟩ := bind_eq_ok.mp sealed
  exact signedItem_owned sealed

theorem buildVaultRecordEpoch_owned {keyset : UnlockedKeyset} {r : VaultRecord}
    (built : buildVaultRecordEpoch P keyset vaultId nameBlob wrappedVk version tombstone keyEpoch
      syncTarget cachePolicy syncTenant = .ok r) :
    r.vaultId = vaultId ∧ r.version = version ∧ r.syncTarget = syncTarget ∧
      r.syncTenant = syncTenant ∧ r.OwnedBy P (keyset.verifying P) keyEpoch := by
  obtain ⟨_, made, built⟩ := bind_eq_ok.mp built
  cases built
  exact ⟨rfl, rfl, rfl, rfl, verifySigned_signContent P made, rfl, rfl⟩

end Build

/-! ## Item operations -/

section Items

variable {vault : Vault} {itemId : Bytes} {draws : Draws}
  {itemType : UInt32} {content : Bytes} {version : UInt64}

theorem putItem_edits (ran : (vault.putItem P itemId itemType content draws).run s =
      .ok version s') :
    OwnerEdits P (vault.keyset.verifying P) vault.vaultId vault.keyEpoch s s' := by
  obtain ⟨_, -, ran⟩ := read_bind_ok ran
  obtain ⟨_, -, ran⟩ := read_bind_ok ran
  obtain ⟨r, sealed, ran⟩ := read_bind_ok ran
  obtain ⟨_, _, wrote, ran⟩ := bind_run_ok ran
  obtain ⟨ofVault, isItem, -, -, owned⟩ := sealItem_owned sealed
  cases ran
  rw [← isItem]
  exact .single (.item r ofVault owned (vaultWrite_run_ok wrote))

theorem putItemKeepHistory_edits
    (ran : (vault.putItemKeepHistory P itemId itemType content draws).run s = .ok version s') :
    OwnerEdits P (vault.keyset.verifying P) vault.vaultId vault.keyEpoch s s' := by
  obtain ⟨_, -, ran⟩ := read_bind_ok ran
  obtain ⟨_, -, ran⟩ := read_bind_ok ran
  obtain ⟨r, sealed, ran⟩ := read_bind_ok ran
  obtain ⟨_, _, wrote, ran⟩ := bind_run_ok ran
  obtain ⟨ofVault, -, -, -, owned⟩ := sealItem_owned sealed
  cases ran
  exact .single (.archived r ofVault owned (vaultWrite_run_ok wrote))

theorem deleteItem_edits (ran : (vault.deleteItem P itemId).run s = .ok () s') :
    OwnerEdits P (vault.keyset.verifying P) vault.vaultId vault.keyEpoch s s' := by
  obtain ⟨_, -, ran⟩ := read_bind_ok ran
  obtain ⟨_, -, ran⟩ := read_bind_ok ran
  obtain ⟨_, -, ran⟩ := read_bind_ok ran
  obtain ⟨r, made, ran⟩ := read_bind_ok ran
  obtain ⟨_, _, wrote, ran⟩ := bind_run_ok ran
  obtain ⟨ofVault, isItem, -, -, owned⟩ := signedItem_owned made
  obtain ⟨stored, put, cleared⟩ := bind_eq_ok.mp (vaultWrite_run_ok wrote)
  cases cleared
  cases ran
  have buried : OwnerEdit P (vault.keyset.verifying P) vault.vaultId vault.keyEpoch s
      (stored.markItemDirty vault.vaultId itemId) := by
    rw [← isItem]
    exact .item r ofVault owned put
  rw [ofVault, isItem]
  -- Marking the row and clearing its history do not meet.
  exact (Relation.ReflTransGen.single buried).tail (.cleared itemId)

theorem renameItem_edits (ran : (vault.renameItem P oldId newId draws).run s = .ok () s') :
    OwnerEdits P (vault.keyset.verifying P) vault.vaultId vault.keyEpoch s s' := by
  unfold Vault.renameItem at ran
  split at ran
  · cases ran
    exact .refl
  obtain ⟨_, -, ran⟩ := read_bind_ok ran
  obtain ⟨_, -, ran⟩ := read_bind_ok ran
  obtain ⟨_, -, ran⟩ := read_bind_ok ran
  obtain ⟨_, moved, put, ran⟩ := bind_run_ok (transaction_run_ok ran)
  obtain ⟨_, -, ran⟩ := read_bind_ok ran
  obtain ⟨tomb, made, ran⟩ := read_bind_ok ran
  obtain ⟨_, stored, wrote, ran⟩ := bind_run_ok ran
  obtain ⟨ofVault, isItem, -, -, owned⟩ := signedItem_owned made
  cases ran
  have buried : OwnerEdit P (vault.keyset.verifying P) vault.vaultId vault.keyEpoch moved
      (stored.markItemDirty vault.vaultId oldId) := by
    rw [← isItem]
    exact .item tomb ofVault owned (vaultWrite_run_ok wrote)
  exact ((putItem_edits put).tail buried).tail (.cleared oldId)

end Items

/-! ## Record operations -/

section Records

variable {vault : Vault} {draws : Draws} {name : Bytes} {policy : VaultRecord → CachePolicy}

/-- The stored record is at the handle's epoch. -/
def AtHandle (vault : Vault) (s : Storage) : Prop :=
  ∀ cur, s.getVault vault.vaultId = some cur → cur.keyEpoch = vault.keyEpoch

variable {vault' : Vault}

theorem reissued_edits {epoch : VaultRecord → UInt64} {next : VaultRecord → Vault} (ran : (do
      let r ← vault.reissue P name false epoch policy draws
      vaultWrite fun s => s.putVault r
      modify fun s => s.markVaultDirty vault.vaultId
      pure (next r) : VaultM Vault).run s = .ok vault' s')
    (stamped : ∀ cur, s.getVault vault.vaultId = some cur → epoch cur = vault.keyEpoch) :
    OwnerEdits P (vault.keyset.verifying P) vault.vaultId vault.keyEpoch s s' ∧
      ∃ r, vault' = next r := by
  obtain ⟨r, _, issued, ran⟩ := bind_run_ok ran
  obtain ⟨_, -, issued⟩ := read_bind_ok issued
  obtain ⟨_, -, issued⟩ := read_bind_ok issued
  obtain ⟨cur, found, issued⟩ := read_bind_ok issued
  obtain ⟨_, -, issued⟩ := read_bind_ok issued
  obtain ⟨built, same⟩ := readM_run_ok issued
  obtain ⟨ofVault, -, target, tenant, owned⟩ := buildVaultRecordEpoch_owned built
  obtain ⟨_, _, wrote, ran⟩ := bind_run_ok ran
  cases ran
  have put := vaultWrite_run_ok wrote
  rw [same] at put
  have found := okOr_eq_ok.mp found
  rw [stamped cur found] at owned
  exact ⟨.single (.record cur r found ofVault owned target tenant put), r, rfl⟩

end Records

/-! ## Rows left by the writes -/

/-- The row holds the record and is marked for the next push. -/
def ItemRow.Holds (key : Bytes × Bytes) (r : ItemRecord) (row : ItemRow) : Prop :=
  row.dirty = true ∧ ∃ createdAt updatedAt, mapItemRow key row = { r with createdAt, updatedAt }

variable {mid : Storage}

theorem putItem_marked (put : s.putItem r = .ok mid) :
    mid.markItemDirty r.vaultId r.itemId =
        { s with items := (mid.markItemDirty r.vaultId r.itemId).items } ∧
      (∃ row, (mid.markItemDirty r.vaultId r.itemId).items[(r.vaultId, r.itemId)]? = some row ∧
        row.Holds (r.vaultId, r.itemId) r) ∧
      (∀ row, s.items[(r.vaultId, r.itemId)]? = some row → row.version.toU64 < r.version) ∧
      ∀ key, key ≠ (r.vaultId, r.itemId) →
        (mid.markItemDirty r.vaultId r.itemId).items[key]? = s.items[key]? := by
  obtain ⟨version, keyEpoch, sameVersion, sameEpoch, newer, rfl⟩ := putItem_eq_ok.mp put
  have written := Table.getElem?_insert_updateWhere s.items (r.vaultId, r.itemId)
    (Storage.upsertItemRow r version keyEpoch s.now s.items[(r.vaultId, r.itemId)]?)
    fun row => { row with dirty := true }
  refine ⟨rfl, ⟨_, (written _).trans (if_pos rfl), rfl, ?_⟩, newer,
    fun key other => (written key).trans (if_neg other)⟩
  refine ⟨(s.items[(r.vaultId, r.itemId)]?.map ItemRow.createdAt).getD s.now, s.now, ?_⟩
  simp only [mapItemRow, Storage.upsertItemRow, sameVersion, sameEpoch]

variable {r cur : VaultRecord}

theorem putVault_marked (found : s.getVault r.vaultId = some cur)
    (tenant : r.syncTenant = cur.syncTenant) (put : s.putVault r = .ok mid) :
    mid.markVaultDirty r.vaultId = { s with vaults := (mid.markVaultDirty r.vaultId).vaults } ∧
      (∃ row, (mid.markVaultDirty r.vaultId).vaults[r.vaultId]? = some row ∧ row.dirty = true ∧
        mapVaultRow r.vaultId row = r) ∧
      cur.version < r.version ∧
      ∀ vaultId, vaultId ≠ r.vaultId →
        (mid.markVaultDirty r.vaultId).vaults[vaultId]? = s.vaults[vaultId]? := by
  obtain ⟨version, keyEpoch, sameVersion, sameEpoch, newer, rfl⟩ := putVault_eq_ok.mp put
  obtain ⟨row, stored, rfl⟩ := map_eq_some_iff.mp found
  have written := Table.getElem?_insert_updateWhere s.vaults r.vaultId
    (Storage.upsertVaultRow r version keyEpoch s.vaults[r.vaultId]?)
    fun row => { row with dirty := true }
  refine ⟨rfl, ⟨_, (written _).trans (if_pos rfl), rfl, ?_⟩, newer row stored,
    fun vaultId other => (written vaultId).trans (if_neg other)⟩
  have sameTenant : (if r.syncTenant = [] then row.syncTenant else r.syncTenant) =
      r.syncTenant := by
    rw [tenant]
    exact ite_self _
  simp only [mapVaultRow, Storage.upsertVaultRow, stored, sameVersion, sameEpoch, sameTenant]

/-! ## Membership changes -/

/-- The epoch after the latest one, and the verified set it must follow. -/
inductive Succeeds (P : Primitives) (own vaultId : Bytes) (s : Storage) :
    UInt64 → Option VerifiedMembers → Prop where
  | first (alone : s.latestMembershipEpoch vaultId = none) : Succeeds P own vaultId s 1 none
  | next {latest : UInt64} {prev : VerifiedMembers}
      (isLatest : s.latestMembershipEpoch vaultId = some latest)
      (chain : verifyChainToEpoch P s vaultId latest own = .ok prev)
      (notLast : latest ≠ 0xFFFFFFFFFFFFFFFF) :
      Succeeds P own vaultId s (latest + 1) (some prev)

/-- The same deletion or live item, in a newer version of the owner at an epoch. -/
def ItemRow.ReissuedAs (P : Primitives) (own : Bytes) (epoch : UInt64) (key : Bytes × Bytes)
    (row row' : ItemRow) : Prop :=
  row.version.toU64 < row'.version.toU64 ∧ row'.tombstone = row.tombstone ∧ row'.dirty = true ∧
    (mapItemRow key row').OwnedBy P own epoch

/-- The next manifest lets the owner write, its epoch is the floor, and all rows are re-signed at
it. -/
structure Reanchored (P : Primitives) (own vaultId : Bytes) (epoch : UInt64) (s s' : Storage) :
    Prop where
  manifest : ∃ prev members
    m n, Succeeds P own vaultId s epoch prev ∧
    n.toU64 = epoch ∧ m.keyEpoch = epoch ∧ verifyManifest P m vaultId prev own = .ok members ∧
    members.canWrite own = true ∧
    (∀ key, s'.membershipManifests[key]? =
      if key = (vaultId, n) then
        some { manifestBlob := m.manifestBlob, signature := m.signature,
               authorPubkey := m.authorPubkey, dirty := true }
      else s.membershipManifests[key]?) ∧
    s'.vaultEpochFloor = s.vaultEpochFloor.insert vaultId n
  record : ∃ cur r row, s.getVault vaultId = some cur ∧ r.vaultId = vaultId ∧
    r.OwnedBy P own epoch ∧ r.syncTarget = cur.syncTarget ∧ r.syncTenant = cur.syncTenant ∧
    cur.version < r.version ∧ s'.vaults[vaultId]? = some row ∧ row.dirty = true ∧
    mapVaultRow vaultId row = r
  otherVaults : ∀ other, other ≠ vaultId → s'.vaults[other]? = s.vaults[other]?
  items : ∀ itemId, Option.Rel (ItemRow.ReissuedAs P own epoch (vaultId, itemId))
    s.items[(vaultId, itemId)]? s'.items[(vaultId, itemId)]?
  otherItems : ∀ key : Bytes × Bytes, key.1 ≠ vaultId → s'.items[key]? = s.items[key]?
  frame : s' = { s with
    vaults := s'.vaults
    items := s'.items
    membershipManifests := s'.membershipManifests
    membershipGrants := s'.membershipGrants
    vaultEpochFloor := s'.vaultEpochFloor }

section Membership

variable {vault : Vault}
  {result : PUnit} {t : Storage} {keyEpoch : UInt64} {adminKeyset : UnlockedKeyset}
  {members : List Member}

theorem putGrants_run_ok {grants : List MembershipGrant}
    (ran : (grants.forM fun g => vaultWrite fun s => s.putMembershipGrant g).run s =
      .ok result s') : ∃ membershipGrants, s' = { s with membershipGrants } := by
  induction grants generalizing s with
  | nil =>
    cases ran
    exact ⟨_, rfl⟩
  | cons _ _ ih =>
    obtain ⟨_, _, wrote, ran⟩ := bind_run_ok ran
    obtain ⟨_, -, rfl⟩ := putMembershipGrant_eq_ok.mp (vaultWrite_run_ok wrote)
    obtain ⟨membershipGrants, rfl⟩ := ih ran
    exact ⟨membershipGrants, rfl⟩

theorem putReanchored_run_ok (ofVault : ∀ r ∈ records, r.vaultId = vault.vaultId)
    (ran : (vault.putReanchored records).run s = .ok result s') :
    ∃ items, s' = { s with items } ∧ ∀ key,
      (items[key]? = s.items[key]? ∧ ∀ r ∈ records, (r.vaultId, r.itemId) ≠ key) ∨
      ∃ r ∈ records, (r.vaultId, r.itemId) = key ∧
        (∀ row, s.items[key]? = some row → row.version.toU64 < r.version) ∧
        ∃ row, items[key]? = some row ∧ row.Holds key r := by
  induction records generalizing s with
  | nil =>
    cases ran
    exact ⟨_, rfl, fun key => .inl ⟨rfl, nofun⟩⟩
  | cons r _ ih =>
    obtain ⟨_, mid, wrote, ran⟩ := bind_run_ok ran
    obtain ⟨_, stored, put, marked⟩ := bind_run_ok wrote
    obtain rfl : stored.markItemDirty r.vaultId r.itemId = mid := by
      cases marked
      rw [ofVault r mem_cons_self]
    obtain ⟨frame, ⟨row, present, holds⟩, newer, others⟩ := putItem_marked (vaultWrite_run_ok put)
    obtain ⟨items, rfl, rows⟩ := ih (fun r' member => ofVault r' (mem_cons_of_mem _ member)) ran
    refine ⟨items, by rw [frame], fun key => ?_⟩
    by_cases own : key = (r.vaultId, r.itemId)
    · subst own
      right
      rcases rows (r.vaultId, r.itemId) with ⟨same, -⟩ | ⟨r', inRest, isKey, later, written⟩
      · exact ⟨r, mem_cons_self, rfl, newer, row, same.trans present, holds⟩
      · refine ⟨r', mem_cons_of_mem _ inRest, isKey, fun old found => ?_, written⟩
        -- The first write lies between.
        have between := later row present
        obtain ⟨-, _, _, isRow⟩ := holds
        have version : row.version.toU64 = r.version := congrArg ItemRecord.version isRow
        rw [version] at between
        exact UInt64.lt_trans (newer old found) between
    · rcases rows key with ⟨same, absent⟩ | ⟨r', inRest, isKey, later, written⟩
      · refine .inl ⟨same.trans (others key own), fun r' member => ?_⟩
        rcases mem_cons.mp member with rfl | inRest
        · exact Ne.symm own
        · exact absent r' inRest
      · refine .inr ⟨r', mem_cons_of_mem _ inRest, isKey, fun old found => ?_, written⟩
        exact later old ((others key own).trans found)

variable {draws : Draws} {vaultId : Bytes}

theorem putReanchored_reissues
    (reissued : vault.reanchorItems P s targetVk epoch draws = .ok issued)
    (ran : (vault.putReanchored issued).run t = .ok result s') (same : t.items = s.items) :
    ∃ items, s' = { t with items } ∧
      (∀ itemId, Option.Rel (ItemRow.ReissuedAs P (vault.keyset.verifying P) epoch
        (vault.vaultId, itemId)) s.items[(vault.vaultId, itemId)]?
          items[(vault.vaultId, itemId)]?) ∧
      (∀ key : Bytes × Bytes, key.1 ≠ vault.vaultId → items[key]? = s.items[key]?) ∧
      ∀ (itemId : Bytes) row, items[(vault.vaultId, itemId)]? = some row →
        ∃ r ∈ issued, row.Holds (vault.vaultId, itemId) r := by
  obtain ⟨back, forth⟩ := reanchorItems_eq_ok reissued
  -- What is issued has the ids and the life of a row.
  have source : ∀ r ∈ issued, ∃ itemId row, s.items[(vault.vaultId, itemId)]? = some row ∧
      (r.vaultId, r.itemId) = (vault.vaultId, itemId) ∧ r.tombstone = row.tombstone ∧
      r.OwnedBy P (vault.keyset.verifying P) epoch := by
    intro r member
    obtain ⟨_, listed, _, _, made⟩ := back r member
    obtain ⟨itemId, row, found, rfl⟩ := mem_listItemsIncludingTombstones.mp listed
    obtain ⟨_, _, _, -, signed⟩ := reanchorItem_signed made
    obtain ⟨ofVault, isItem, -, tombstone, owned⟩ := signedItem_owned signed
    exact ⟨itemId, row, found, Prod.ext ofVault isItem, tombstone, owned⟩
  have ofVault : ∀ r ∈ issued, r.vaultId = vault.vaultId := by
    intro r member
    obtain ⟨_, _, -, isKey, -⟩ := source r member
    exact congrArg Prod.fst isKey
  obtain ⟨items, left, rows⟩ := putReanchored_run_ok ofVault ran
  rw [same] at rows
  -- No row is left out.
  have reissues : ∀ itemId row, s.items[(vault.vaultId, itemId)]? = some row →
      ¬ ∀ r ∈ issued, (r.vaultId, r.itemId) ≠ (vault.vaultId, itemId) := by
    intro itemId row found absent
    obtain ⟨updated, member, _, _, made⟩ := forth _
      (mem_listItemsIncludingTombstones.mpr ⟨itemId, row, found, rfl⟩)
    obtain ⟨_, _, _, -, signed⟩ := reanchorItem_signed made
    obtain ⟨sameVault, isItem, -⟩ := signedItem_owned signed
    exact absent updated member (Prod.ext sameVault isItem)
  refine ⟨items, left, fun itemId => ?_, fun key other => ?_, fun itemId row' found' => ?_⟩
  · rcases rows (vault.vaultId, itemId) with ⟨unchanged, absent⟩ | ⟨r, member, isKey, newer, row', found', holds⟩
    · cases found : s.items[(vault.vaultId, itemId)]? with
      | none =>
        rw [unchanged, found]
        exact .none
      | some row => exact (reissues itemId row found absent).elim
    · obtain ⟨itemId', row, found, isKey', tombstone, owned⟩ := source r member
      obtain rfl : itemId' = itemId := congrArg Prod.snd (isKey'.symm.trans isKey)
      obtain ⟨dirty, createdAt, updatedAt, isRow⟩ := holds
      rw [found, found']
      have version : row'.version.toU64 = r.version := congrArg ItemRecord.version isRow
      have sameLife : row'.tombstone = r.tombstone := congrArg ItemRecord.tombstone isRow
      refine .some ⟨version ▸ newer row found, sameLife.trans tombstone, dirty, ?_⟩
      rw [isRow]
      exact owned.stamp createdAt updatedAt
  · rcases rows key with ⟨unchanged, -⟩ | ⟨r, member, isKey, -⟩
    · exact unchanged
    · exact (other (by rw [← isKey, ofVault r member])).elim
  · rcases rows (vault.vaultId, itemId) with ⟨unchanged, absent⟩ | ⟨r, member, -, -, _, found, holds⟩
    · exact (reissues itemId row' (unchanged.symm.trans found') absent).elim
    · cases found.symm.trans found'
      exact ⟨r, member, holds⟩

variable {m : MembershipManifest}

theorem buildManifest_names (built : buildManifest P adminKeyset vaultId keyEpoch members = .ok m) :
    m.vaultId = vaultId ∧ m.keyEpoch = keyEpoch := by
  obtain ⟨_, -, built⟩ := bind_eq_ok.mp built
  obtain ⟨_, -, built⟩ := bind_eq_ok.mp built
  cases built
  exact ⟨rfl, rfl⟩

/-- The manifests after one is stored and marked. -/
def withManifest (t : Table (Bytes × SqlInt) ManifestRow) (vaultId : Bytes) (n : SqlInt)
    (m : MembershipManifest) : Table (Bytes × SqlInt) ManifestRow :=
  Table.updateWhere (t.insert (vaultId, n) (Storage.manifestRow m t[(vaultId, n)]?))
    (fun key _ => key = (vaultId, n)) fun row => { row with dirty := true }

variable {prev : Option VerifiedMembers} {grants : List Recipient} {stored : Storage}

theorem addMember_run_ok
    (ran : (addMember P adminKeyset vaultId keyEpoch prev genesisOwner members grants vk draws).run
      s = .ok verified s') :
    ∃ m n membershipGrants, buildManifest P adminKeyset vaultId keyEpoch members = .ok m ∧
      verifyManifest P m vaultId prev genesisOwner = .ok verified ∧ n.toU64 = keyEpoch ∧
      s' = { s with
        membershipManifests := withManifest s.membershipManifests vaultId n m
        membershipGrants } := by
  obtain ⟨m, built, ran⟩ := read_bind_ok ran
  obtain ⟨_, verifies, ran⟩ := read_bind_ok ran
  obtain ⟨_, -, ran⟩ := read_bind_ok ran
  obtain ⟨_, _, ranAll, ran⟩ := bind_run_ok ran
  cases ran
  obtain ⟨_, _, put, ranAll⟩ := bind_run_ok (transaction_run_ok ranAll)
  obtain ⟨_, _, granted, ranAll⟩ := bind_run_ok ranAll
  obtain ⟨n, isEpoch, rfl⟩ := putMembershipManifest_eq_ok.mp (vaultWrite_run_ok put)
  obtain ⟨_, rfl⟩ := putGrants_run_ok granted
  obtain ⟨n', isEpoch', marked⟩ := bind_eq_ok.mp (vaultWrite_run_ok ranAll)
  cases marked
  obtain ⟨rfl, sameEpoch⟩ := buildManifest_names built
  obtain rfl : n' = n := SqlInt.ext
    ((checkedVersion_eq_ok.mp isEpoch').trans (isEpoch.trans sameEpoch).symm)
  exact ⟨m, n', _, built, verifies, isEpoch.trans sameEpoch, rfl⟩

theorem succession_succeeds (issued : vault.succession P s own = .ok (epoch, prev)) :
    Succeeds P own vault.vaultId s epoch prev := by
  unfold Vault.succession at issued
  split at issued
  · next isLatest =>
    obtain ⟨_, chain, issued⟩ := bind_eq_ok.mp issued
    obtain ⟨next, isNext, issued⟩ := bind_eq_ok.mp issued
    cases issued
    unfold nextEpoch at isNext
    split at isNext
    · cases isNext
    · next notLast =>
      cases isNext
      exact .next isLatest chain notLast
  · next alone =>
    cases issued
    exact .first alone

theorem Reanchored.of_writes {members : VerifiedMembers}
    (succeeds : Succeeds P own vaultId s epoch prev) (isEpoch : n.toU64 = epoch)
    (names : m.keyEpoch = epoch) (verifies : verifyManifest P m vaultId prev own = .ok members)
    (writes : members.canWrite own = true) (found : s.getVault vaultId = some cur)
    (ofVault : r.vaultId = vaultId) (owned : r.OwnedBy P own epoch)
    (target : r.syncTarget = cur.syncTarget) (tenant : r.syncTenant = cur.syncTenant)
    (put : t.putVault r = .ok stored) (sameVaults : t.vaults = s.vaults)
    (reissued : ∀ itemId, Option.Rel (ItemRow.ReissuedAs P own epoch (vaultId, itemId))
      s.items[(vaultId, itemId)]? s'.items[(vaultId, itemId)]?)
    (others : ∀ key : Bytes × Bytes, key.1 ≠ vaultId → s'.items[key]? = s.items[key]?)
    (vaults : s'.vaults = (stored.markVaultDirty vaultId).vaults)
    (manifests : s'.membershipManifests = withManifest s.membershipManifests vaultId n m)
    (floors : s'.vaultEpochFloor = s.vaultEpochFloor.insert vaultId n) (frame : s' = { s with
      vaults := s'.vaults
      items := s'.items
      membershipManifests := s'.membershipManifests
      membershipGrants := s'.membershipGrants
      vaultEpochFloor := s'.vaultEpochFloor }) :
    Reanchored P own vaultId epoch s s' := by
  subst ofVault
  have inBefore : t.getVault r.vaultId = some cur := by
    unfold Storage.getVault
    rw [sameVaults]
    exact found
  obtain ⟨-, ⟨row, written, dirty, isRow⟩, newer, otherVaults⟩ :=
    putVault_marked inBefore tenant put
  rw [← vaults] at written otherVaults
  rw [sameVaults] at otherVaults
  exact {
    manifest := ⟨prev, members, m, n, succeeds, isEpoch, names, verifies, writes,
      fun key => manifests ▸ Table.getElem?_insert_updateWhere _ _ _ _ key, floors⟩
    record := ⟨cur, r, row, found, rfl, owned, target, tenant, newer, written, dirty, isRow⟩
    otherVaults
    items := reissued
    otherItems := others
    frame }

/-- The rows reissued under a vault key, and the record with this key sealed to the owner. -/
structure ReissuedUnder (P : Primitives) (vault : Vault) (vk : Bytes) (epoch : UInt64)
    (draws : Draws) (s s' : Storage) : Prop where
  rows : ∃ issued, vault.reanchorItems P s vk epoch draws = .ok issued ∧
    ∀ (itemId : Bytes) row, s'.items[(vault.vaultId, itemId)]? = some row →
      ∃ r ∈ issued, row.Holds (vault.vaultId, itemId) r
  record : ∃ r randomness, s'.getVault vault.vaultId = some r ∧ r.keyEpoch = epoch ∧
    sealOwnerVk P vault.keyset randomness vk vault.vaultId epoch = .ok r.wrappedVk

/-- The record a membership change leaves, sealed and named under a vault key. -/
structure VaultRecord.SealedFor (P : Primitives) (vault : Vault) (vk : Bytes) (epoch : UInt64)
    (r : VaultRecord) : Prop where
  ofVault : r.vaultId = vault.vaultId
  live : r.tombstone = false
  owned : r.OwnedBy P (vault.keyset.verifying P) epoch
  key : ∃ randomness, sealOwnerVk P vault.keyset randomness vk vault.vaultId epoch = .ok r.wrappedVk
  name : ∃ nonce, nonce.length = nonceLen ∧
    sealName P vk nonce vault.name vault.vaultId r.version = .ok r.nameBlob

theorem getVault_of_built
    (built : buildVaultRecordEpoch P vault.keyset vault.vaultId nameBlob wrappedVk version false
      keyEpoch cur.syncTarget cur.cachePolicy cur.syncTenant = .ok r)
    (found : t.getVault vault.vaultId = some cur) (put : t.putVault r = .ok stored) :
    (stored.markVaultDirty vault.vaultId).getVault vault.vaultId = some r ∧
      r.keyEpoch = keyEpoch ∧ r.wrappedVk = wrappedVk := by
  obtain ⟨ofVault, -, -, tenant, -⟩ := buildVaultRecordEpoch_owned built
  obtain ⟨-, ⟨_, written, -, isRow⟩, -⟩ := putVault_marked (ofVault ▸ found) tenant put
  rw [ofVault] at written isRow
  obtain ⟨_, -, built⟩ := bind_eq_ok.mp built
  cases built
  refine ⟨?_, rfl, rfl⟩
  rw [Storage.getVault, written]
  exact congrArg some isRow

variable {vault' : Vault}

/-- Extending the membership re-anchors the vault under the same key. -/
theorem establish_reanchors
    (ran : (vault.establishOrExtendMembership P adminKeyset members x25519ByEd draws).run s =
      .ok vault' s') :
    (Reanchored P (vault.keyset.verifying P) vault.vaultId vault'.keyEpoch s s' ∧
      ReissuedUnder P vault vault.vk vault'.keyEpoch draws s s' ∧
      (∃ r, s'.getVault vault.vaultId = some r ∧ ((∀ n, (draws n).length = nonceLen) →
        r.SealedFor P vault vault.vk vault'.keyEpoch)) ∧
      ∃ m, buildManifest P adminKeyset vault.vaultId vault'.keyEpoch members = .ok m ∧
        s'.getMembershipManifest vault.vaultId vault'.keyEpoch = .ok (some m)) ∨
    s'.items = s.items ∧ { ed25519Pub := vault.keyset.verifying P, role := .admin } ∉ members := by
  obtain ⟨⟨epoch, _⟩, issued, ran⟩ := read_bind_ok ran
  obtain ⟨_, _, ran⟩ := read_bind_ok ran
  obtain ⟨reanchored, reissued, ran⟩ := read_bind_ok ran
  obtain ⟨_, _, ranAll, ran⟩ := bind_run_ok ran
  cases ran
  obtain ⟨verified, _, added, ranAll⟩ := bind_run_ok (transaction_run_ok ranAll)
  obtain ⟨_, _, ranAnchor, ranAll⟩ := bind_run_ok ranAll
  obtain ⟨n', isEpoch', rfl⟩ := setVaultEpochFloor_eq_ok.mp (vaultWrite_run_ok ranAll)
  obtain ⟨m, n, _, built, verifies, isEpoch, rfl⟩ := addMember_run_ok added
  obtain rfl : n' = n := SqlInt.ext (isEpoch'.trans isEpoch.symm)
  unfold Vault.reanchorRecord at ranAnchor
  by_cases writes : verified.canWrite (vault.keyset.verifying P) = true
  case neg =>
    rw [if_neg writes] at ranAnchor
    cases ranAnchor
    exact .inr ⟨rfl, fun listed => writes (canWrite_of_listed built verifies listed)⟩
  rw [if_pos writes] at ranAnchor
  obtain ⟨_, found, ranAnchor⟩ := read_bind_ok ranAnchor
  obtain ⟨_, -, ranAnchor⟩ := read_bind_ok ranAnchor
  obtain ⟨_, named, ranAnchor⟩ := read_bind_ok ranAnchor
  obtain ⟨_, sealed, ranAnchor⟩ := read_bind_ok ranAnchor
  obtain ⟨r, builtRecord, ranAnchor⟩ := read_bind_ok ranAnchor
  obtain ⟨_, stored, put, ranAnchor⟩ := bind_run_ok ranAnchor
  obtain ⟨_, marked, mark, ranAnchor⟩ := bind_run_ok ranAnchor
  obtain rfl : stored.markVaultDirty vault.vaultId = marked := by
    cases mark
    rfl
  have put := vaultWrite_run_ok put
  obtain ⟨_, _, -, -, -, isStored⟩ := putVault_eq_ok.mp put
  obtain ⟨_, rfl, reissues, others, rows⟩ := putReanchored_reissues reissued ranAnchor
    (by rw [isStored]; rfl)
  obtain ⟨ofVault, -, target, tenant, owned⟩ := buildVaultRecordEpoch_owned builtRecord
  obtain ⟨inStore, atEpoch, isKey⟩ := getVault_of_built builtRecord (okOr_eq_ok.mp found) put
  refine .inl ⟨.of_writes (succession_succeeds issued) isEpoch (buildManifest_names built).2
    verifies writes (okOr_eq_ok.mp found) ofVault owned target tenant put rfl reissues others
    rfl ?_ ?_ ?_, ⟨⟨reanchored, reissued, rows⟩, r, _, inStore, atEpoch, isKey ▸ sealed⟩,
    ⟨r, inStore, fun nonces => ?_⟩, m, built, ?_⟩
  · rw [isStored]
    rfl
  · rw [isStored]
    rfl
  · rw [isStored]
    rfl
  · obtain ⟨_, -, builtRecord⟩ := bind_eq_ok.mp builtRecord
    cases builtRecord
    exact ⟨rfl, rfl, owned, ⟨_, sealed⟩, ⟨_, nonces _, named⟩⟩
  · obtain ⟨sameVault, sameEpoch⟩ := buildManifest_names built
    refine Storage.getMembershipManifest_eq_ok.mpr ⟨n', isEpoch, ?_⟩
    have row := Table.getElem?_insert_updateWhere s.membershipManifests (vault.vaultId, n')
      (Storage.manifestRow m s.membershipManifests[(vault.vaultId, n')]?)
      (fun row => { row with dirty := true }) (vault.vaultId, n')
    rw [if_pos rfl] at row
    rw [isStored]
    refine Eq.trans ?_ (congrArg (Option.map _) row).symm
    rw [← sameVault, Option.map_some, mapManifestRow, isEpoch, ← sameEpoch]
    rfl

theorem rotate_reanchors
    (ran : (vault.rotateVk P adminKeyset remaining grants draws).run s = .ok vault' s') :
    ∃ epoch, Reanchored P (vault.keyset.verifying P) vault.vaultId epoch s s' ∧
      ReissuedUnder P vault (draws 0) epoch (fun n => draws (n + grants.length + 2 + 1)) s s' := by
  obtain ⟨rotation, prepared, ran⟩ := read_bind_ok ran
  obtain ⟨_, after, ranAll, ran⟩ := bind_run_ok ran
  obtain rfl : after = s' := by
    cases ran
    rfl
  obtain ⟨_, _, put, ranAll⟩ := bind_run_ok (transaction_run_ok ranAll)
  obtain ⟨_, _, grant, ranAll⟩ := bind_run_ok ranAll
  obtain ⟨_, reissued, reissue, ranAll⟩ := bind_run_ok ranAll
  obtain ⟨_, stored, record, ranAll⟩ := bind_run_ok ranAll
  obtain ⟨_, floored, floor, ranAll⟩ := bind_run_ok ranAll
  obtain ⟨_, marked, mark, ranAll⟩ := bind_run_ok ranAll
  obtain ⟨n, isEpoch, isSet⟩ := putMembershipManifest_eq_ok.mp (vaultWrite_run_ok put)
  obtain ⟨_, isGranted⟩ := putGrants_run_ok grant
  have put := vaultWrite_run_ok record
  obtain ⟨_, _, -, -, -, isStored⟩ := putVault_eq_ok.mp put
  obtain ⟨n', isFloor, isFloored⟩ := setVaultEpochFloor_eq_ok.mp (vaultWrite_run_ok floor)
  have isMarked : marked = floored.markVaultDirty vault.vaultId := by
    cases mark
    rfl
  obtain ⟨n'', isEpoch'', last⟩ := bind_eq_ok.mp (vaultWrite_run_ok ranAll)
  have isLast := (Except.ok.inj last).symm
  obtain ⟨cur, prev, _, made⟩ := prepareRotation_eq_ok prepared
  obtain ⟨_, isLatest, chain, isNext⟩ := made.latest
  obtain ⟨_, _, _, sealed, builtRecord⟩ := made.record
  obtain ⟨sameVault, sameEpoch⟩ := buildManifest_names made.built
  have isEpoch := isEpoch.trans sameEpoch
  obtain rfl : n' = n := SqlInt.ext (isFloor.trans isEpoch.symm)
  obtain rfl : n'' = n' := SqlInt.ext ((checkedVersion_eq_ok.mp isEpoch'').trans isEpoch.symm)
  rw [sameVault] at isSet
  obtain ⟨items, isReissued, reissues, others, rows⟩ := putReanchored_reissues made.items reissue
    (by rw [isGranted, isSet])
  obtain ⟨ofVault, -, target, tenant, owned⟩ := buildVaultRecordEpoch_owned builtRecord
  have succeeds : Succeeds P (vault.keyset.verifying P) vault.vaultId s rotation.epoch (some prev) := by
    unfold nextEpoch at isNext
    split at isNext
    · cases isNext
    · next notLast =>
      rw [← Except.ok.inj isNext]
      exact .next isLatest chain notLast
  have sameVaults : reissued.vaults = s.vaults := by rw [isReissued, isGranted, isSet]
  have sameItems : after.items = items := by
    rw [isLast, isMarked, isFloored, isStored, isReissued]
    rfl
  rw [← sameItems] at reissues others rows
  have isVaults : after.vaults = (stored.markVaultDirty vault.vaultId).vaults := by
    rw [isLast, isMarked, isFloored]
    rfl
  have inBefore : reissued.getVault vault.vaultId = some cur := by
    rw [Storage.getVault, sameVaults]
    exact made.found
  obtain ⟨storedRecord, atEpoch, isKey⟩ := getVault_of_built builtRecord inBefore put
  replace storedRecord : after.getVault vault.vaultId = some rotation.record := by
    rw [Storage.getVault, isVaults]
    exact storedRecord
  refine ⟨rotation.epoch, .of_writes succeeds isEpoch sameEpoch made.verifies made.writes
    made.found ofVault owned target tenant put sameVaults reissues others isVaults ?_ ?_ ?_,
    ⟨_, made.items, rows⟩, _, _, storedRecord, atEpoch, isKey ▸ sealed⟩
  · rw [isLast, isMarked, isFloored, isStored, isReissued, isGranted, isSet]
    rfl
  · rw [isLast, isMarked, isFloored, isStored, isReissued, isGranted, isSet]
    rfl
  · rw [isLast, isMarked, isFloored, isStored, isReissued, isGranted, isSet]
    rfl

end Membership

end UniSsh
