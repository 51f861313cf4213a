import UniSsh.Vault.OwnVault

/-!
# When a rotation returns

A rotation returns exactly when every stored row can be reissued (`rotateVk_returns_iff`): signed
by an author who may write now and could then, and empty or readable.
-/

namespace UniSsh

open List

open Storage

variable {P : Primitives} {s s' : Storage} {vault : Vault} {members : VerifiedMembers}
  {record : ItemRecord}

/-! ## Rows that can be reissued -/

/-- A deleted row is empty, and a live one is readable under the vault key. -/
def ItemRecord.Intact (P : Primitives) (vk : Bytes) (r : ItemRecord) : Prop :=
  if r.tombstone then r.contentBlob = [] ∧ r.wrappedItemKey = []
  else ∃ itemKey content, unwrapKeyCompat P vk r.wrappedItemKey r.itemId = .ok itemKey ∧
    aeadDecryptCompat P itemKey r.contentBlob (itemAad r.vaultId r.itemId r.version) = .ok content

/-- The author may write now and could at the row's epoch. -/
structure ItemRecord.Authored (P : Primitives) (s : Storage) (own : Bytes)
    (members : VerifiedMembers) (r : ItemRecord) : Prop where
  writes : members.canWrite r.authorPubkey = true
  wrote : r.keyEpoch = 0 ∧ r.authorPubkey = own ∨
    ∃ historical, verifyChainToEpoch P s r.vaultId r.keyEpoch own = .ok historical ∧
      historical.canWrite r.authorPubkey = true

/-- A row a rotation can issue again, by the owner of the vault. -/
structure ItemRecord.Reissuable (P : Primitives) (s : Storage) (own vk : Bytes)
    (members : VerifiedMembers) (r : ItemRecord) : Prop where
  signed : verifySigned P r.authorPubkey (itemAad r.vaultId r.itemId r.version) r.contentBlob
    r.signature = .ok ()
  authored : r.Authored P s own members
  intact : r.Intact P vk
  room : r.version < i64Max

section Authority

variable (latest : s.latestMembershipEpoch vault.vaultId = some members.keyEpoch)
  (floor : (s.getVaultEpochFloor vault.vaultId).getD 0 ≤ members.keyEpoch)
include latest floor

theorem verifyReanchorAuthority_eq_ok (ofVault : record.vaultId = vault.vaultId) :
    vault.verifyReanchorAuthority P s record (some members) = .ok () ↔
      record.Authored P s vault.genesisOwner members := by
  have isFloor : max ((s.getVaultEpochFloor vault.vaultId).getD 0) members.keyEpoch =
      members.keyEpoch := (UInt64.max_def _ _).trans (if_pos floor)
  have recordFloor : recordEpochFloor s vault.vaultId = members.keyEpoch := by
    rw [recordEpochFloor, latest]
    exact isFloor
  have mode : vaultIsMembershipMode s vault.vaultId = true := by
    simp [vaultIsMembershipMode, latest]
  have authority : verifyRecordAuthority P s vault.vaultId record.authorPubkey record.keyEpoch
      vault.genesisOwner = .ok () ↔ members.keyEpoch ≤ record.keyEpoch ∧
        ∃ historical, verifyChainToEpoch P s vault.vaultId record.keyEpoch vault.genesisOwner =
          .ok historical ∧ historical.canWrite record.authorPubkey = true := by
    rw [verifyRecordAuthority_eq_ok, mode, recordFloor]
    simp
  unfold Vault.verifyReanchorAuthority
  by_cases writes : members.canWrite record.authorPubkey = true
  · rw [if_neg (by simp [writes])]
    by_cases first : record.keyEpoch = 0 ∧ record.authorPubkey = vault.genesisOwner
    · rw [if_pos first]
      exact ⟨fun _ => ⟨writes, .inl first⟩, fun _ => rfl⟩
    · rw [if_neg first]
      have iff : record.Authored P s vault.genesisOwner members ↔
          ∃ historical, verifyChainToEpoch P s vault.vaultId record.keyEpoch
            vault.genesisOwner = .ok historical ∧
            historical.canWrite record.authorPubkey = true := by
        rw [← ofVault]
        exact ⟨fun authored => authored.wrote.resolve_left first, fun wrote => ⟨writes, .inr wrote⟩⟩
      rw [iff]
      simp only [map_some, Option.getD_some, isFloor]
      by_cases above : members.keyEpoch ≤ record.keyEpoch
      · rw [if_pos above, authority]
        exact and_iff_right above
      · rw [if_neg above, bind_eq_ok]
        refine exists_congr fun historical => and_congr_right fun _ => ?_
        simp [writes]
  · rw [if_pos (by simp [writes])]
    exact ⟨fun impossible => (by cases impossible), fun authored => (writes authored.writes).elim⟩

end Authority

/-! ## Reissuing the rows -/

variable {version : UInt64}

theorem nextVersion_of_room (room : version < i64Max) :
    nextVersion version = .ok (version + 1) ∧ version < version + 1 ∧ version + 1 ≤ i64Max := by
  have notLast : version ≠ 0xFFFFFFFFFFFFFFFF := by
    rintro rfl
    exact absurd room (by decide)
  have succ := toNat_add_one_of_ne_max notLast
  refine ⟨if_neg notLast, lt_add_one_of_ne_max notLast, UInt64.le_iff_toNat_le.mpr ?_⟩
  rw [succ]
  exact UInt64.lt_iff_toNat_lt.mp room

variable {targetVk : Bytes} {epoch : UInt64} {current : Option VerifiedMembers}

variable {draws : Draws} {records : List ItemRecord} {keyEpoch : UInt64}

/-- What was reissued could be. -/
theorem reanchorItem_checked (ofVault : record.vaultId = vault.vaultId)
    (issued : vault.reanchorItem P s targetVk epoch current record draws = .ok updated) :
    verifySigned P record.authorPubkey (itemAad record.vaultId record.itemId record.version)
        record.contentBlob record.signature = .ok () ∧
      vault.verifyReanchorAuthority P s record current = .ok () ∧ record.Intact P vault.vk := by
  have passed := checkRecord_passed (P := P) record.authorPubkey
    (itemAad record.vaultId record.itemId record.version) record.contentBlob record.signature
    vault.genesisOwner
  unfold Vault.reanchorItem checkItemRecord at issued
  split at issued
  · cases issued
  · cases issued
  next notMalformed notInvalid =>
  split at issued
  · cases issued
  next shape =>
  obtain ⟨⟨⟩, authority, issued⟩ := bind_eq_ok.mp issued
  refine ⟨passed.mp ⟨notMalformed, notInvalid⟩, authority, ?_⟩
  unfold ItemRecord.Intact
  split
  · next deleted =>
    by_contra filled
    refine shape ⟨deleted, ?_⟩
    by_cases empty : record.contentBlob = []
    · exact .inr fun noKey => filled ⟨empty, noKey⟩
    · exact .inl empty
  · next live =>
    rw [if_neg live] at issued
    obtain ⟨itemKey, unwrapped, issued⟩ := bind_eq_ok.mp issued
    obtain ⟨content, decrypted, -⟩ := bind_eq_ok.mp issued
    rw [← ofVault] at decrypted
    exact ⟨itemKey, content, unwrapped, decrypted⟩

theorem reanchorItem_returns (encrypts : P.Encrypts) (ofVault : record.vaultId = vault.vaultId)
    (signed : verifySigned P record.authorPubkey
      (itemAad record.vaultId record.itemId record.version) record.contentBlob record.signature =
        .ok ()) (authority : vault.verifyReanchorAuthority P s record current = .ok ())
    (intact : record.Intact P vault.vk) (room : record.version < i64Max) :
    ∃ updated, vault.reanchorItem P s targetVk epoch current record draws = .ok updated ∧
      updated.vaultId = record.vaultId ∧ updated.itemId = record.itemId ∧
      updated.version = record.version + 1 ∧ updated.keyEpoch = epoch := by
  obtain ⟨next, -, -⟩ := nextVersion_of_room room
  obtain ⟨vaultFits, itemFits⟩ := verifySigned_fits P signed
  have fits : ∀ version, (itemAad vault.vaultId record.itemId version).Fits := by
    rw [← ofVault]
    exact fun _ => ⟨vaultFits, itemFits⟩
  have issues : ∃ updated, vault.reanchorItem P s targetVk epoch current record draws =
      .ok updated := by
    obtain ⟨notMalformed, notInvalid⟩ := (checkRecord_passed (P := P) _ _ _ _
      vault.genesisOwner).mpr signed
    unfold Vault.reanchorItem checkItemRecord
    split
    · next malformed => exact (notMalformed malformed).elim
    · next invalid => exact (notInvalid invalid).elim
    unfold ItemRecord.Intact at intact
    by_cases deleted : record.tombstone = true
    · rw [if_pos deleted] at intact
      obtain ⟨signature, made⟩ := signContent_returns P vault.keyset (fits (record.version + 1)) []
      simp [deleted, intact, authority, next, Vault.tombstoneRecord, Vault.signedItem, made]
    · rw [if_neg deleted] at intact
      obtain ⟨itemKey, content, unwrapped, decrypted⟩ := intact
      rw [ofVault] at decrypted
      obtain ⟨contentBlob, encrypted⟩ := aeadEncrypt_returns encrypts itemKey (draws 0) content
        (fits (record.version + 1))
      obtain ⟨_, wrote⟩ := sealXchacha_returns encrypts targetVk (draws 1) itemKey
        (keywrapDomain ++ record.itemId)
      obtain ⟨_, made⟩ := signContent_returns P vault.keyset (fits (record.version + 1))
        contentBlob
      simp [deleted, authority, Vault.rewrapItem, unwrapped, decrypted, next, encrypted, wrapKey,
        wrote, Vault.signedItem, made, Except.mapError]
  obtain ⟨updated, issued⟩ := issues
  obtain ⟨_, _, _, isNext, made⟩ := reanchorItem_signed issued
  obtain ⟨sameVault, isItem, isVersion, -, owned⟩ := signedItem_owned made
  cases next.symm.trans isNext
  exact ⟨updated, issued, sameVault.trans ofVault.symm, isItem, isVersion, owned.epoch⟩

theorem reanchorAll_returns {Q : ItemRecord → ItemRecord → Prop}
    (each : ∀ record ∈ records, ∀ draws, ∃ updated,
      vault.reanchorItem P s targetVk epoch current record draws = .ok updated ∧ Q record updated)
    (draws : Draws) :
    ∃ issued, vault.reanchorAll P s targetVk epoch current draws records = .ok issued ∧
      List.Forall₂ Q records issued := by
  induction records generalizing draws with
  | nil => exact ⟨[], rfl, .nil⟩
  | cons record _ ih =>
    obtain ⟨updated, reissued, post⟩ := each record mem_cons_self draws
    obtain ⟨others, issued, posts⟩ := ih (fun r member => each r (mem_cons_of_mem _ member))
      fun n => if record.tombstone then draws n else draws (n + 2)
    exact ⟨updated :: others,
      bind_eq_ok.mpr ⟨updated, reissued, bind_eq_ok.mpr ⟨others, issued, rfl⟩⟩, .cons post posts⟩

theorem buildGrants_returns (vaultFits : vaultId.length ≤ 65535) {remaining : List Member}
    (issuable : Issuable remaining)
    (keepsAdmin : { ed25519Pub := adminKeyset.verifying P, role := .admin } ∈ remaining)
    (vk : Bytes) {grants : List Recipient}
    (granted : ∀ r ∈ grants, { ed25519Pub := r.ed25519, role := r.role } ∈ remaining ∧
      P.isX25519Public r.x25519 = true ∧ P.SealsTo r.x25519) (draws : Draws) :
    ∃ built, buildGrants P adminKeyset vaultId keyEpoch vk
        { vaultId, keyEpoch, members := payloadOrder remaining } draws grants = .ok built ∧
      ∀ g ∈ built, g.keyEpoch = keyEpoch := by
  induction grants generalizing draws with
  | nil => exact ⟨[], rfl, nofun⟩
  | cons recipient _ ih =>
    obtain ⟨others, issued, atEpoch⟩ :=
      ih (fun r member => granted r (mem_cons_of_mem _ member)) fun n => draws (n + 1)
    obtain ⟨listed, isKey, seals⟩ := granted recipient mem_cons_self
    have memberFits : recipient.ed25519.length ≤ 65535 := issuable.keys _ listed
    obtain ⟨info, bound⟩ := vkWrapInfo_returns vaultFits memberFits keyEpoch
    obtain ⟨wrappedVk, sealed⟩ := sealKeyToPublic_returns seals (draws 0) vk info
    have aadFits : (grantAad vaultId recipient.ed25519 keyEpoch).Fits := ⟨vaultFits, memberFits⟩
    obtain ⟨signature, signed⟩ := signContent_returns P adminKeyset aadFits
      (grantSignedContent recipient.role 0 wrappedVk)
    obtain ⟨_, written⟩ := issuable.payload keyEpoch
    let issuedSet : VerifiedMembers := { vaultId, keyEpoch, members := payloadOrder remaining }
    have role : issuedSet.roleOf recipient.ed25519 = some recipient.role :=
      roleOf_payloadOrder written rfl listed
    have isAdmin : issuedSet.isAdmin (adminKeyset.verifying P) = true :=
      isAdmin_payloadOrder rfl keepsAdmin
    have built : buildGrant P adminKeyset vaultId recipient keyEpoch vk (draws 0) = .ok
        { vaultId, memberPubkey := recipient.ed25519, keyEpoch, role := recipient.role,
          notAfter := 0, wrappedVk, signature,
          authorPubkey := adminKeyset.verifying P } := by
      simp [buildGrant, x25519PublicFromBytes, isKey, bound, sealed, signed, Except.mapError]
    refine ⟨_ :: others, bind_eq_ok.mpr ⟨_, built, bind_eq_ok.mpr ⟨(), ?_,
      bind_eq_ok.mpr ⟨others, issued, rfl⟩⟩⟩, ?_⟩
    · simp only [verifyGrant, ne_eq, not_true, if_false]
      rw [verifySigned_signContent P signed, ok_bind, if_pos isAdmin, role]
      exact if_pos rfl
    · intro g member
      rcases mem_cons.mp member with rfl | later
      · rfl
      · exact atEpoch g later

/-! ## The rotation -/

/-- A member set that keeps the owner as an admin, and grants for members of it. -/
structure RotationTarget (P : Primitives) (own : Bytes) (remaining : List Member)
    (grants : List Recipient) : Prop where
  issuable : Issuable remaining
  keepsOwner : { ed25519Pub := own, role := .admin } ∈ remaining
  granted : ∀ r ∈ grants, { ed25519Pub := r.ed25519, role := r.role } ∈ remaining ∧
    P.isX25519Public r.x25519 = true ∧ P.SealsTo r.x25519

/-- A handle of the owner, who is an admin of the latest epoch. -/
structure Vault.AdminAt (P : Primitives) (s : Storage) (members : VerifiedMembers)
    (vault : Vault) : Prop where
  owner : vault.genesisOwner = vault.keyset.verifying P
  latest : s.latestMembershipEpoch vault.vaultId = some members.keyEpoch
  chain : verifyChainToEpoch P s vault.vaultId members.keyEpoch (vault.keyset.verifying P) =
    .ok members
  isAdmin : members.isAdmin (vault.keyset.verifying P) = true
  record : ∃ r, s.getVault vault.vaultId = some r

/-- The floor is not above the latest epoch, nothing overflows, and every row can be reissued. -/
structure Vault.Rotatable (P : Primitives) (s : Storage) (members : VerifiedMembers)
    (vault : Vault) : Prop where
  floor : (s.getVaultEpochFloor vault.vaultId).getD 0 ≤ members.keyEpoch
  epochRoom : members.keyEpoch < i64Max
  recordRoom : ∀ r, s.getVault vault.vaultId = some r → r.version < i64Max
  rows : ∀ itemId r, s.getItem vault.vaultId itemId = some r →
    r.Reissuable P s (vault.keyset.verifying P) vault.vk members

section Rotation

variable {remaining : List Member} {grants : List Recipient} {draws : Draws}

/-- Everything is at the next epoch, and record and items are newer than the stored ones. -/
structure Rotation.Writable (s : Storage) (vaultId : Bytes) (epoch : UInt64) (rotation : Rotation) :
    Prop where
  atEpoch : rotation.epoch = epoch
  manifest : rotation.manifest.keyEpoch = epoch
  grants : ∀ g ∈ rotation.grants, g.keyEpoch = epoch
  record : rotation.record.vaultId = vaultId ∧ rotation.record.keyEpoch = epoch ∧
    rotation.record.version ≤ i64Max ∧
    ∀ row, s.vaults[vaultId]? = some row → row.version.toU64 < rotation.record.version
  items : ∀ r ∈ rotation.items, r.vaultId = vaultId ∧ r.keyEpoch = epoch ∧ r.version ≤ i64Max ∧
    ∀ row, s.items[(r.vaultId, r.itemId)]? = some row → row.version.toU64 < r.version
  distinct : (rotation.items.map fun r => (r.vaultId, r.itemId)).Nodup

theorem vaultRecord_returns (encrypts : P.Encrypts)
    (sealsOwn : P.SealsTo (P.x25519Public vault.keyset.encryption))
    (vaultFits : vault.vaultId.length ≤ 65535) {cur : VaultRecord} :
    ∃ nameBlob wrappedVk r, sealName P vk nonce vault.name vault.vaultId version = .ok nameBlob ∧
      sealOwnerVk P vault.keyset randomness vk vault.vaultId keyEpoch = .ok wrappedVk ∧
      buildVaultRecordEpoch P vault.keyset vault.vaultId nameBlob wrappedVk version false keyEpoch
        cur.syncTarget cur.cachePolicy cur.syncTenant = .ok r := by
  have nameFits : (nameAad vault.vaultId version).Fits :=
    ⟨vaultFits, show (ascii "__vault_name__").length ≤ 65535 by decide⟩
  have recordFits : (vaultRecordAad vault.vaultId version).Fits :=
    ⟨vaultFits, show (ascii "__vault__").length ≤ 65535 by decide⟩
  have ownFits : (vault.keyset.verifying P).length ≤ 65535 := by
    rw [UnlockedKeyset.verifying, P.isVerifyingKey_length _ (P.verifyingKey_valid _)]
    decide
  obtain ⟨nameBlob, encrypted⟩ := aeadEncrypt_returns encrypts vk nonce vault.name nameFits
  obtain ⟨info, bound⟩ := vkWrapInfo_returns vaultFits ownFits keyEpoch
  obtain ⟨wrappedVk, sealed⟩ := sealKeyToPublic_returns sealsOwn randomness vk info
  obtain ⟨signature, signed⟩ := signContent_returns P vault.keyset recordFits
    (vaultSignedContent wrappedVk nameBlob)
  refine ⟨nameBlob, wrappedVk, _, mapError_eq_ok.mpr encrypted, ?_,
    bind_eq_ok.mpr ⟨signature, signed, rfl⟩⟩
  exact bind_eq_ok.mpr ⟨info, mapError_eq_ok.mpr bound, mapError_eq_ok.mpr sealed⟩

theorem reanchorItems_returns (encrypts : P.Encrypts) (ready : vault.AdminAt P s members)
    (rotatable : vault.Rotatable P s members) (draws : Draws) :
    ∃ issued, vault.reanchorItems P s targetVk epoch draws = .ok issued ∧
      (∀ r ∈ issued, r.vaultId = vault.vaultId ∧ r.keyEpoch = epoch ∧ r.version ≤ i64Max ∧
        ∀ row, s.items[(r.vaultId, r.itemId)]? = some row → row.version.toU64 < r.version) ∧
      (issued.map fun r => (r.vaultId, r.itemId)).Nodup := by
  have current : vault.currentMembers P s = .ok (some members) := by
    unfold Vault.currentMembers
    rw [ready.latest, ready.owner]
    exact map_eq_ok.mpr ⟨members, ready.chain, rfl⟩
  obtain ⟨issued, ran, pairs⟩ := @reanchorAll_returns P s vault targetVk epoch (some members)
    (s.listItemsIncludingTombstones vault.vaultId)
    (fun record updated => updated.vaultId = record.vaultId ∧ updated.itemId = record.itemId ∧
      updated.version = record.version + 1 ∧ updated.keyEpoch = epoch) (fun record listed draws => by
      obtain ⟨itemId, row, found, isRow⟩ := mem_listItemsIncludingTombstones.mp listed
      have reissuable := rotatable.rows itemId record (by rw [Storage.getItem, found, isRow]; rfl)
      have ofVault : record.vaultId = vault.vaultId := by rw [isRow]; rfl
      have authority := (verifyReanchorAuthority_eq_ok (P := P) ready.latest rotatable.floor
        ofVault).mpr (by rw [ready.owner]; exact reissuable.authored)
      exact reanchorItem_returns encrypts ofVault reissuable.signed authority reissuable.intact
        reissuable.room) draws
  refine ⟨issued, bind_eq_ok.mpr ⟨some members, current, ran⟩, ?_, ?_⟩
  · intro r member
    obtain ⟨record, listed, sameVault, isItem, version, atEpoch⟩ : ∃ record ∈
        s.listItemsIncludingTombstones vault.vaultId, r.vaultId = record.vaultId ∧
          r.itemId = record.itemId ∧ r.version = record.version + 1 ∧ r.keyEpoch = epoch := by
      obtain ⟨i, bound, rfl⟩ := mem_iff_getElem.mp member
      have bound' : i < (s.listItemsIncludingTombstones vault.vaultId).length := by
        rw [pairs.length_eq]
        exact bound
      exact ⟨_, getElem_mem bound', List.forall₂_iff_get.mp pairs |>.2 i bound' bound⟩
    obtain ⟨itemId, _, found, rfl⟩ := mem_listItemsIncludingTombstones.mp listed
    have reissuable := rotatable.rows itemId _ (by rw [Storage.getItem, found]; rfl)
    obtain ⟨-, newer, inRange⟩ := nextVersion_of_room reissuable.room
    refine ⟨sameVault, atEpoch, version ▸ inRange, fun row' found' => ?_⟩
    rw [sameVault, isItem] at found'
    cases found.symm.trans found'
    exact version ▸ newer
  · have keys : issued.map (fun r => (r.vaultId, r.itemId)) =
        (s.listItemsIncludingTombstones vault.vaultId).map fun r => (r.vaultId, r.itemId) := by
      rw [← List.forall₂_eq_eq_eq, List.forall₂_map_left_iff, List.forall₂_map_right_iff]
      exact pairs.flip.imp fun r record same => Prod.ext same.1 same.2.1
    rw [keys]
    unfold Storage.listItemsIncludingTombstones
    rw [map_map]
    exact Table.nodup_map_toList _ _ fun _ _ same => same

/-- A rotation to a target set is prepared. -/
theorem prepareRotation_returns (encrypts : P.Encrypts)
    (sealsOwn : P.SealsTo (P.x25519Public vault.keyset.encryption))
    (ready : vault.AdminAt P s members)
    (target : RotationTarget P (vault.keyset.verifying P) remaining grants)
    (rotatable : vault.Rotatable P s members) :
    ∃ rotation, vault.prepareRotation P s vault.keyset remaining grants draws = .ok rotation ∧
      rotation.Writable s vault.vaultId (members.keyEpoch + 1) := by
  obtain ⟨cur, found⟩ := ready.record
  obtain ⟨nextVersion, newer, inRange⟩ := nextVersion_of_room (rotatable.recordRoom cur found)
  have vaultFits := verifyChainToEpoch_fits ready.chain
  have notLast : members.keyEpoch ≠ 0xFFFFFFFFFFFFFFFF := by
    intro last
    exact absurd (last ▸ rotatable.epochRoom) (by decide)
  have isNext : nextEpoch members.keyEpoch = .ok (members.keyEpoch + 1) := if_neg notLast
  have above : vault.requireAboveFloor s (members.keyEpoch + 1) = .ok () :=
    if_neg (UInt64.not_le.mpr
      (UInt64.lt_of_le_of_lt rotatable.floor (lt_add_one_of_ne_max notLast)))
  obtain ⟨m, built, verifies⟩ := @buildManifest_verifies remaining P vault.keyset
    vault.vaultId (vault.keyset.verifying P) members target.issuable vaultFits notLast ready.isAdmin
  have writes := canWrite_of_listed built verifies target.keepsOwner
  obtain ⟨issued, builtGrants, grantEpochs⟩ := @buildGrants_returns P (members.keyEpoch + 1)
    vault.keyset vault.vaultId vaultFits remaining target.issuable target.keepsOwner (draws 0) grants
    target.granted fun n => draws (n + 1)
  obtain ⟨nameBlob, wrappedVk, r, sealedName, sealedVk, builtRecord⟩ := vaultRecord_returns encrypts
    sealsOwn vaultFits
  obtain ⟨items, reissued, newerItems, distinct⟩ := reanchorItems_returns encrypts ready
    rotatable fun n => draws (n + grants.length + 2 + 1)
  refine exists_bind_ok.mpr ⟨cur, okOr_eq_ok.mpr found, ?_⟩
  refine exists_bind_ok.mpr ⟨members.keyEpoch, okOr_eq_ok.mpr ready.latest, ?_⟩
  refine exists_bind_ok.mpr ⟨members, ready.chain, ?_⟩
  refine exists_bind_ok.mpr ⟨(), require_eq_ok.mpr ready.isAdmin, ?_⟩
  refine exists_bind_ok.mpr ⟨members.keyEpoch + 1, isNext, ?_⟩
  refine exists_bind_ok.mpr ⟨(), above, ?_⟩
  refine exists_bind_ok.mpr ⟨m, built, ?_⟩
  refine exists_bind_ok.mpr ⟨_, verifies, ?_⟩
  refine exists_bind_ok.mpr ⟨(), require_eq_ok.mpr writes, ?_⟩
  refine exists_bind_ok.mpr ⟨issued, builtGrants, ?_⟩
  refine exists_bind_ok.mpr ⟨cur.version + 1, nextVersion, ?_⟩
  refine exists_bind_ok.mpr ⟨nameBlob, sealedName, ?_⟩
  refine exists_bind_ok.mpr ⟨wrappedVk, sealedVk, ?_⟩
  refine exists_bind_ok.mpr ⟨r, builtRecord, ?_⟩
  refine exists_bind_ok.mpr ⟨items, reissued, _, rfl, ?_⟩
  obtain ⟨ofVault, version, -, -, owned⟩ := buildVaultRecordEpoch_owned builtRecord
  exact {
    atEpoch := rfl
    manifest := (buildManifest_names built).2
    grants := grantEpochs
    record := ⟨ofVault, owned.epoch, version ▸ inRange, fun row stored => by
      rw [Storage.getVault, stored] at found
      cases found
      exact version ▸ newer⟩
    items := newerItems
    distinct }

/-- A write that stays in range returns. -/
theorem vaultWrite_returns {f : Storage → Except StorageError Storage} {Q : Storage → Prop}
    (wrote : f s = .ok t) (post : Q t) :
    ReturnsTo (vaultWrite f) s fun _ => Q :=
  .write (mapError_eq_ok.mpr wrote) post

theorem putGrants_returns {issued : List MembershipGrant}
    (inRange : ∀ g ∈ issued, g.keyEpoch ≤ i64Max) :
    ReturnsTo (issued.forM fun g => vaultWrite fun s => s.putMembershipGrant g) s fun _ t =>
      t.vaults = s.vaults ∧ t.items = s.items := by
  refine .forM (fun rest t => (∀ g ∈ rest, g.keyEpoch ≤ i64Max) ∧ t.vaults = s.vaults ∧
    t.items = s.items) (fun g rest t ⟨fits, vaults, items⟩ => ?_) (fun t ⟨_, same⟩ => same)
    ⟨inRange, rfl, rfl⟩
  obtain ⟨mid, put, sameVaults, sameItems⟩ : ∃ mid, t.putMembershipGrant g = .ok mid ∧
      mid.vaults = t.vaults ∧ mid.items = t.items :=
    ⟨_, putMembershipGrant_eq_ok.mpr ⟨⟨g.keyEpoch, fits g mem_cons_self⟩, rfl, rfl⟩, rfl, rfl⟩
  exact vaultWrite_returns put ⟨fun g' later => fits g' (mem_cons_of_mem _ later),
    sameVaults.trans vaults, sameItems.trans items⟩

/-- A row that can be written over the stored one. -/
def ItemRecord.Storable (s : Storage) (r : ItemRecord) : Prop :=
  r.keyEpoch ≤ i64Max ∧ r.version ≤ i64Max ∧
    ∀ row, s.items[(r.vaultId, r.itemId)]? = some row → row.version.toU64 < r.version

/-- Newer versions of different rows can all be stored. -/
theorem putReanchored_returns (storable : ∀ r ∈ records, r.vaultId = vault.vaultId ∧ r.Storable s)
    (distinct : (records.map fun r => (r.vaultId, r.itemId)).Nodup) :
    ReturnsTo (vault.putReanchored records) s fun _ t => t.vaults = s.vaults := by
  refine .forM (fun rest t => (∀ r ∈ rest, r.vaultId = vault.vaultId ∧ r.Storable t) ∧
      (rest.map fun r => (r.vaultId, r.itemId)).Nodup ∧ t.vaults = s.vaults)
    (fun r rest t ⟨storable, distinct, vaults⟩ => ?_) (fun t ⟨_, _, vaults⟩ => vaults)
    ⟨storable, distinct, rfl⟩
  obtain ⟨ofVault, epochFits, versionFits, newer⟩ := storable r mem_cons_self
  obtain ⟨notIn, distinct⟩ := nodup_cons.mp distinct
  obtain ⟨mid, put⟩ : ∃ mid, t.putItem r = .ok mid := ⟨_, putItem_eq_ok.mpr
      ⟨⟨r.version, versionFits⟩, ⟨r.keyEpoch, epochFits⟩, rfl, rfl, newer, rfl⟩⟩
  obtain ⟨frame, -, -, others⟩ := putItem_marked put
  rw [ofVault] at frame
  refine .bind (vaultWrite_returns (Q := fun t' => t' = mid) put rfl) fun _ _ isMid => ?_
  subst isMid
  refine .modify ⟨fun r' member => ?_, distinct, ?_⟩
  · obtain ⟨ofVault', epochFits', versionFits', newer'⟩ := storable r' (mem_cons_of_mem _ member)
    refine ⟨ofVault', epochFits', versionFits', fun row found => newer' row ?_⟩
    have other : (r'.vaultId, r'.itemId) ≠ (r.vaultId, r.itemId) := fun same =>
      notIn (mem_map.mpr ⟨r', member, same⟩)
    rw [← others _ other, ofVault]
    exact found
  · rw [frame]
    exact vaults

/-- A prepared rotation is written. -/
theorem rotateVk_returns {rotation : Rotation} (inRange : epoch ≤ i64Max)
    (prepared : vault.prepareRotation P s vault.keyset remaining grants draws = .ok rotation)
    (writable : rotation.Writable s vault.vaultId epoch) :
    ReturnsTo (vault.rotateVk P vault.keyset remaining grants draws) s fun _ _ => True := by
  refine .read_bind prepared (.bind (M := fun _ _ => True) (.transaction ?_)
    fun _ t _ => ⟨_, t, rfl, trivial⟩)
  obtain ⟨withSet, putSet, sameVaults, sameItems⟩ : ∃ t,
      s.putMembershipManifest rotation.manifest = .ok t ∧ t.vaults = s.vaults ∧ t.items = s.items :=
    ⟨_, putMembershipManifest_eq_ok.mpr ⟨⟨epoch, inRange⟩, writable.manifest.symm, rfl⟩, rfl, rfl⟩
  refine .bind (vaultWrite_returns (Q := fun t => t = withSet) putSet rfl) fun _ _ isSet => ?_
  subst isSet
  refine .bind (putGrants_returns fun g member => (writable.grants g member) ▸ inRange)
    fun _ granted ⟨grantedVaults, grantedItems⟩ => ?_
  refine .bind (putReanchored_returns (fun r member => ?_) writable.distinct)
    fun _ reissued reissuedVaults => ?_
  · obtain ⟨ofVault, atEpoch, versionFits, newer⟩ := writable.items r member
    refine ⟨ofVault, atEpoch ▸ inRange, versionFits, ?_⟩
    rw [grantedItems, sameItems]
    exact newer
  obtain ⟨ofVault, atEpoch, versionFits, newer⟩ := writable.record
  obtain ⟨stored, putRecord⟩ : ∃ t, reissued.putVault rotation.record = .ok t := by
    refine ⟨_, putVault_eq_ok.mpr ⟨⟨_, versionFits⟩, ⟨epoch, inRange⟩, rfl, atEpoch.symm, ?_, rfl⟩⟩
    rw [reissuedVaults, grantedVaults, sameVaults, ofVault]
    exact newer
  refine .bind (vaultWrite_returns (Q := fun _ => True) putRecord trivial) fun _ t _ => ?_
  obtain ⟨floored, floor⟩ : ∃ t', t.setVaultEpochFloor vault.vaultId rotation.epoch = .ok t' :=
    ⟨_, setVaultEpochFloor_eq_ok.mpr ⟨⟨epoch, inRange⟩, writable.atEpoch.symm, rfl⟩⟩
  refine .bind (vaultWrite_returns (Q := fun _ => True) floor trivial) fun _ t _ => ?_
  refine .bind (M := fun _ _ => True) (.modify trivial) fun _ t _ => ?_
  obtain ⟨marked, mark⟩ : ∃ t', t.markMembershipDirty vault.vaultId rotation.epoch = .ok t' := by
    refine ⟨_, bind_eq_ok.mpr ⟨⟨epoch, inRange⟩, checkedVersion_eq_ok.mpr writable.atEpoch.symm, rfl⟩⟩
  exact vaultWrite_returns mark trivial

/-- A rotation that returned was possible. -/
theorem rotatable_of_rotated (ready : vault.AdminAt P s members)
    (ran : (vault.rotateVk P vault.keyset remaining grants draws).run s = .ok vault' s') :
    vault.Rotatable P s members := by
  obtain ⟨next, reanchored, -⟩ := rotate_reanchors ran
  obtain ⟨_, prepared, -⟩ := read_bind_ok ran
  obtain ⟨_, _, _, made⟩ := prepareRotation_eq_ok prepared
  obtain ⟨_, _, _, n, succeeds, isEpoch, -⟩ := reanchored.manifest
  have below : members.keyEpoch < next := by
    cases succeeds with
    | first alone => cases ready.latest.symm.trans alone
    | next isLatest _ notLast =>
      cases ready.latest.symm.trans isLatest
      exact lt_add_one_of_ne_max notLast
  have floor : (s.getVaultEpochFloor vault.vaultId).getD 0 ≤ members.keyEpoch := by
    obtain ⟨_, isLatest, -, isNext⟩ := made.latest
    cases ready.latest.symm.trans isLatest
    have above := made.aboveFloor
    unfold nextEpoch at isNext
    unfold Vault.requireAboveFloor at above
    split at isNext
    · cases isNext
    next notLast =>
    split at above
    · cases above
    next notBelow =>
    rw [← Except.ok.inj isNext, UInt64.not_le, UInt64.lt_iff_toNat_lt,
      toNat_add_one_of_ne_max notLast] at notBelow
    exact UInt64.le_iff_toNat_le.mpr (Nat.le_of_lt_succ notBelow)
  have epochRoom : members.keyEpoch < i64Max := UInt64.lt_of_lt_of_le below (isEpoch ▸ n.inRange)
  refine ⟨floor, epochRoom, fun r stored => ?_, fun itemId r stored => ?_⟩
  · obtain ⟨_, r', row, found, -, -, -, -, newer, -, -, isRow⟩ := reanchored.record
    cases stored.symm.trans found
    have inRange : r'.version ≤ i64Max := by
      rw [← isRow]
      exact SqlInt.inRange _
    exact UInt64.lt_of_lt_of_le newer inRange
  · obtain ⟨row, found, rfl⟩ := map_eq_some_iff.mp stored
    obtain ⟨current, isCurrent, reissued⟩ := bind_eq_ok.mp made.items
    have same : current = some members := by
      simp only [Vault.currentMembers, ready.latest, ready.owner, ready.chain] at isCurrent
      exact (Except.ok.inj isCurrent).symm
    subst same
    obtain ⟨_, -, _, issued⟩ := (reanchorAll_eq_ok reissued).2 _
      (mem_listItemsIncludingTombstones.mpr ⟨itemId, row, found, rfl⟩)
    obtain ⟨signed, authority, intact⟩ := reanchorItem_checked rfl issued
    have authored := (verifyReanchorAuthority_eq_ok ready.latest floor rfl).mp authority
    rw [ready.owner] at authored
    refine ⟨signed, authored, intact, ?_⟩
    -- So is the version that was stored over the row's.
    have replaced := reanchored.items itemId
    rw [found] at replaced
    generalize s'.items[(vault.vaultId, itemId)]? = new at replaced
    cases replaced with
    | some reissued => exact UInt64.lt_of_lt_of_le reissued.1 (SqlInt.inRange _)

/-- An admin owner can rotate the vault key exactly when the vault is rotatable. -/
theorem rotateVk_returns_iff (encrypts : P.Encrypts)
    (sealsOwn : P.SealsTo (P.x25519Public vault.keyset.encryption))
    (ready : vault.AdminAt P s members)
    (target : RotationTarget P (vault.keyset.verifying P) remaining grants) :
    (∃ vault' s', (vault.rotateVk P vault.keyset remaining grants draws).run s = .ok vault' s') ↔
      vault.Rotatable P s members := by
  constructor
  · rintro ⟨_, _, ran⟩
    exact rotatable_of_rotated ready ran
  · intro rotatable
    obtain ⟨_, prepared, writable⟩ :=
      prepareRotation_returns encrypts sealsOwn ready target rotatable
    have inRange := (nextVersion_of_room rotatable.epochRoom).2.2
    obtain ⟨vault', s', ran, -⟩ := rotateVk_returns inRange prepared writable
    exact ⟨vault', s', ran⟩

end Rotation

end UniSsh
