import UniSsh.Vault.Reissued

/-!
# A vault opened again after a membership change

A reissued item has the plaintext it had, and the record is sealed to the owner under the same
key; so the owner reads every current item as its next version (`Carried`).
-/

namespace UniSsh

variable {P : Primitives} {s s' : Storage} {vault : Vault}

/-! ## What is reissued is still readable -/

variable {key blob vk : Bytes} {epoch : UInt64} {record : ItemRecord} {draws : Draws}

theorem openKeyWithSecret_length (opens : openKeyWithSecret P secret blob info = .ok key) :
    key.length = symmetricKeyLen := by
  obtain ⟨_, -, opens⟩ := bind_eq_ok.mp opens
  split at opens
  · cases opens
  split at opens
  · exact finishUnwrap_eq_ok opens
  · cases opens

/-- The items after a change are those before it, reissued with the same content. -/
theorem ReissuedUnder.sameContent
    (reanchored : Reanchored P (vault.keyset.verifying P) vault.vaultId epoch s s')
    (under : ReissuedUnder P vault vk epoch draws s s') (nonces : ∀ n, (draws n).length = nonceLen)
    (itemId : Bytes) :
    Option.Rel (fun r r' => r.SameContent P vault.vk vk r' ∧
      r'.OwnedBy P (vault.keyset.verifying P) epoch)
      (s.getItem vault.vaultId itemId) (s'.getItem vault.vaultId itemId) := by
  have presence := reanchored.items itemId
  unfold Storage.getItem
  cases found' : s'.items[(vault.vaultId, itemId)]? with
  | none =>
    rw [found'] at presence
    generalize s.items[(vault.vaultId, itemId)]? = old at presence ⊢
    cases presence
    exact .none
  | some =>
    obtain ⟨_, found, _, k, _, -, made, -, _, _, isRow⟩ :=
      under.row found'
    rw [found, found'] at presence
    rw [found]
    cases presence with
    | some reissued =>
      have same := reanchorItem_sameContent (fun n => nonces (n + k)) rfl made
      refine .some ⟨?_, reissued.2.2.2⟩
      rw [isRow]
      exact ⟨same.sameLife, same.sameType, same.next, same.content⟩

/-- Reading a record takes its signature, its author and its content. -/
theorem decryptRecord_eq_ok (ofVault : record.vaultId = vault.vaultId) :
    vault.decryptRecord P s record = .ok item ↔
      verifySigned P record.authorPubkey (itemAad record.vaultId record.itemId record.version)
          record.contentBlob record.signature = .ok () ∧
        verifyRecordAuthority P s vault.vaultId record.authorPubkey record.keyEpoch
          vault.genesisOwner = .ok () ∧
        ∃ content, record.Opens P vault.vk content ∧ item =
          { itemId := record.itemId, itemType := record.itemType, version := record.version,
            content } := by
  unfold Vault.decryptRecord
  rw [← ofVault]
  constructor
  · intro read
    obtain ⟨⟨⟩, signed, read⟩ := bind_eq_ok.mp read
    obtain ⟨⟨⟩, authority, read⟩ := bind_eq_ok.mp read
    obtain ⟨itemKey, unwrapped, read⟩ := bind_eq_ok.mp read
    obtain ⟨content, decrypted, read⟩ := bind_eq_ok.mp read
    cases read
    exact ⟨signed, authority, content, ⟨itemKey, unwrapped, decrypted⟩, rfl⟩
  · rintro ⟨signed, authority, _, ⟨_, unwrapped, decrypted⟩, rfl⟩
    simp only [signed, authority, unwrapped, decrypted, ok_bind]

/-! ## The vault opened again -/

variable {keyset : UnlockedKeyset} {vaultId own : Bytes}

theorem openVault_of_sealed (isKey : vk.length = symmetricKeyLen)
    (unpinned : ∀ a, s.getVaultTrustAnchor vault.vaultId = some a →
      a.genesisOwnerPubkey = vault.keyset.verifying P) (found : s.getVault vault.vaultId = some r)
    (sealed : r.SealedFor P vault vk epoch)
    (atEpoch : OwnEpoch P (vault.keyset.verifying P) vault.vaultId s epoch) (positive : epoch ≠ 0)
    (now : Int64) :
    openVault P s vault.keyset vault.vaultId now = .ok { vault with
        vk, version := r.version, keyEpoch := epoch, genesisOwner := vault.keyset.verifying P
        canWrite := true } := by
  obtain ⟨_, wrapped⟩ := sealed.key
  obtain ⟨_, length, named⟩ := sealed.name
  have signed : verifyVaultRecord P r = .ok () := sealed.owned.signed
  have opensName : aeadDecryptCompat P vk r.nameBlob (nameAad vault.vaultId r.version) =
      .ok vault.name := aeadDecryptCompat_aeadEncrypt length (mapError_eq_ok.mp named)
  cases atEpoch with
  | alone => exact (positive rfl).elim
  | shared latest _ chain writes =>
    have opensKey : openAsOwner P s vault.keyset r = .ok (vk, true) := by
      obtain ⟨_, bound, wrapped⟩ := bind_eq_ok.mp wrapped
      have opened := openKeyWithSecret_sealKeyToPublic isKey (mapError_eq_ok.mp wrapped)
      simp only [openAsOwner, openOwnerVk, sealed.ofVault, sealed.owned.epoch, bound, opened, latest,
        chain, writes, ok_bind]
    have sameEpoch : max epoch epoch = epoch := Std.max_self
    cases pinned : s.getVaultTrustAnchor vault.vaultId with
    | none =>
      simp [openVault, found, sealed.live, sealed.ofVault, signed, pinned, opensKey, opensName,
        latest, sealed.owned.epoch, sameEpoch]
    | some a =>
      simp [openVault, found, sealed.live, sealed.ofVault, signed, pinned, unpinned a pinned,
        opensKey, opensName, latest, sealed.owned.epoch, sameEpoch]

theorem Reanchored.positive (reanchored : Reanchored P own vaultId epoch s s') : epoch ≠ 0 := by
  obtain ⟨_, -, -, -, succeeds, -⟩ := reanchored.manifest
  cases succeeds with
  | first => decide
  | next _ _ notLast =>
    intro zero
    have above := lt_add_one_of_ne_max notLast
    rw [zero] at above
    exact absurd above (by simp)

theorem openAsOwner_length {record : VaultRecord}
    (opens : openAsOwner P s keyset record = .ok (vk, canWrite)) : vk.length = symmetricKeyLen := by
  obtain ⟨key, opensKey, opens⟩ := bind_eq_ok.mp opens
  have isKey : key.length = symmetricKeyLen := by
    obtain ⟨_, -, opensKey⟩ := bind_eq_ok.mp opensKey
    split at opensKey
    · next opens =>
      cases opensKey
      exact openKeyWithSecret_length opens
    · exact openKeyWithSecret_length (mapError_eq_ok.mp opensKey)
  split at opens
  · cases opens
    exact isKey
  · split at opens <;> cases opens <;> exact isKey

/-- What an owner's handle was opened from. -/
theorem openVault_owner (opened : openVault P s keyset vaultId now = .ok vault)
    (owner : vault.genesisOwner = keyset.verifying P) :
    vault.keyset = keyset ∧ vault.vaultId = vaultId ∧ vault.vk.length = symmetricKeyLen ∧
      ∀ a, s.getVaultTrustAnchor vaultId = some a → a.genesisOwnerPubkey = keyset.verifying P := by
  unfold openVault at opened
  split at opened
  · cases opened
  next r found =>
  obtain ⟨_, -, isRow⟩ := map_eq_some_iff.mp found
  have ofVault : r.vaultId = vaultId := by rw [← isRow]; rfl
  split at opened
  · cases opened
  obtain ⟨_, -, opened⟩ := bind_eq_ok.mp opened
  cases pinned : s.getVaultTrustAnchor r.vaultId with
  | none =>
    simp only [pinned, if_true] at opened
    obtain ⟨⟨vk, canWrite⟩, opensKey, opened⟩ := bind_eq_ok.mp opened
    obtain ⟨name, -, opened⟩ := bind_eq_ok.mp opened
    cases opened
    rw [ofVault] at pinned
    exact ⟨rfl, ofVault, openAsOwner_length opensKey, fun a found => by cases pinned.symm.trans found⟩
  | some anchor =>
    simp only [pinned] at opened
    by_cases isOwn : anchor.genesisOwnerPubkey = keyset.verifying P
    · rw [if_pos isOwn] at opened
      obtain ⟨⟨vk, canWrite⟩, opensKey, opened⟩ := bind_eq_ok.mp opened
      obtain ⟨name, -, opened⟩ := bind_eq_ok.mp opened
      cases opened
      refine ⟨rfl, ofVault, openAsOwner_length opensKey, fun a found => ?_⟩
      rw [ofVault] at pinned
      cases pinned.symm.trans found
      exact isOwn
    · rw [if_neg isOwn] at opened
      obtain ⟨⟨_, _⟩, -, opened⟩ := bind_eq_ok.mp opened
      obtain ⟨_, -, opened⟩ := bind_eq_ok.mp opened
      cases opened
      exact (isOwn owner).elim

/-- The handle opened after the change reads the current items and what has the new epoch. -/
structure Carried (P : Primitives) (vault reopened : Vault) (s s' : Storage) : Prop where
  opens : ∀ now, openVault P s' vault.keyset vault.vaultId now = .ok reopened
  sameVault : reopened.vaultId = vault.vaultId
  name : reopened.name = vault.name
  anchor : reopened.genesisOwner = vault.keyset.verifying P
  authority : verifyRecordAuthority P s' vault.vaultId (vault.keyset.verifying P)
    reopened.keyEpoch (vault.keyset.verifying P) = .ok ()
  items : ∀ itemId, Option.Rel (fun r r' => r.SameContent P vault.vk reopened.vk r' ∧
    r'.OwnedBy P (vault.keyset.verifying P) reopened.keyEpoch)
    (s.getItem vault.vaultId itemId) (s'.getItem vault.vaultId itemId)

variable {itemId : Bytes} {r : ItemRecord}

theorem getItem_names (found : s.getItem vaultId itemId = some r) :
    r.vaultId = vaultId ∧ r.itemId = itemId := by
  obtain ⟨_, -, rfl⟩ := map_eq_some_iff.mp found
  exact ⟨rfl, rfl⟩

theorem Carried.getItem (carried : Carried P vault reopened s s')
    (found : s.getItem vault.vaultId itemId = some r) (live : r.tombstone = false)
    (opens : r.Opens P vault.vk content) :
    ∃ version, nextVersion r.version = .ok version ∧ reopened.getItem P s' itemId =
        .ok (some { itemId, itemType := r.itemType, version, content }) := by
  have related := carried.items itemId
  rw [found] at related
  cases found' : s'.getItem vault.vaultId itemId with
  | none =>
    rw [found'] at related
    cases related
  | some r' =>
    rw [found'] at related
    cases related with
    | some both =>
      obtain ⟨same, owned⟩ := both
      obtain ⟨ofVault', isItem'⟩ := getItem_names found'
      obtain ⟨content', opens', opensNew⟩ := same.content live
      obtain rfl : content' = content := by
        obtain ⟨_, unwrapped, decrypted⟩ := opens
        obtain ⟨_, unwrapped', decrypted'⟩ := opens'
        cases unwrapped.symm.trans unwrapped'
        cases decrypted.symm.trans decrypted'
        rfl
      refine ⟨r'.version, same.next, ?_⟩
      have read : reopened.decryptRecord P s' r' = .ok _ :=
        (decryptRecord_eq_ok (ofVault'.trans carried.sameVault.symm)).mpr ⟨owned.signed, by
          rw [carried.sameVault, carried.anchor, owned.author, owned.epoch]
          exact carried.authority, content', opensNew, rfl⟩
      rw [isItem', same.sameType] at read
      unfold Vault.getItem
      rw [carried.sameVault, found']
      simp only [same.sameLife, live, Bool.false_eq_true, if_false, read]
      rfl

/-- In a vault with a membership the owner's records count at exactly the latest epoch. -/
theorem OwnEpoch.shared_authority (atEpoch : OwnEpoch P own vaultId s epoch) (positive : epoch ≠ 0)
    (author : Bytes) (recordEpoch : UInt64) :
    verifyRecordAuthority P s vaultId author recordEpoch own = .ok () ↔
      epoch ≤ recordEpoch ∧ ∃ members, verifyChainToEpoch P s vaultId recordEpoch own = .ok members ∧
        members.canWrite author = true := by
  cases atEpoch with
  | alone => exact (positive rfl).elim
  | shared latest floor =>
    have mode : vaultIsMembershipMode s vaultId = true := by simp [vaultIsMembershipMode, latest]
    have isFloor : recordEpochFloor s vaultId = epoch := by
      simp only [recordEpochFloor, latest, floor, Option.getD_some, Std.max_self]
    rw [verifyRecordAuthority_eq_ok, mode, isFloor]
    simp

theorem Carried.of_reanchored {r : VaultRecord} (isKey : vk.length = symmetricKeyLen)
    (unpinned : ∀ a, s.getVaultTrustAnchor vault.vaultId = some a →
      a.genesisOwnerPubkey = vault.keyset.verifying P)
    (reanchored : Reanchored P (vault.keyset.verifying P) vault.vaultId epoch s s')
    (under : ReissuedUnder P vault vk epoch draws s s') (nonces : ∀ n, (draws n).length = nonceLen)
    (found : s'.getVault vault.vaultId = some r) (sealed : r.SealedFor P vault vk epoch) :
    Carried P vault { vault with
      vk, version := r.version, keyEpoch := epoch, genesisOwner := vault.keyset.verifying P
      canWrite := true } s s' where
  opens now := by
    refine openVault_of_sealed isKey (fun a pinned => unpinned a ?_) found sealed
      reanchored.atEpoch reanchored.positive now
    rw [reanchored.frame] at pinned
    exact pinned
  sameVault := rfl
  name := rfl
  anchor := rfl
  authority := by
    refine (reanchored.atEpoch.shared_authority reanchored.positive _ _).mpr ⟨UInt64.le_refl _, ?_⟩
    cases reanchored.atEpoch with
    | alone => exact (reanchored.positive rfl).elim
    | shared _ _ chain writes => exact ⟨_, chain, writes⟩
  items := under.sameContent reanchored nonces

end UniSsh
