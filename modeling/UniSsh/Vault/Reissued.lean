import UniSsh.Vault.Rotation

/-!
# What a membership change reissues

Each row a membership change writes is the reissue of the row it replaces, by an author who may
write now and could then, and readable under the vault key (`reanchoring_launders_nothing`).
-/

namespace UniSsh

variable {P : Primitives} {s s' : Storage} {vault : Vault}

/-! ## Rows and their reissues -/

variable {epoch : UInt64} {issued : List ItemRecord}

/-- Reissued rows stand in the order of the rows, each with draws of its own. -/
theorem reanchorAll_forall₂
    (ran : vault.reanchorAll P s targetVk epoch current draws records = .ok issued) :
    List.Forall₂ (fun record updated => ∃ k, vault.reanchorItem P s targetVk epoch current record
      (fun n => draws (n + k)) = .ok updated) records issued := by
  induction records generalizing draws issued with
  | nil =>
    cases ran
    exact .nil
  | cons record _ ih =>
    obtain ⟨_, reissued, ran⟩ := bind_eq_ok.mp ran
    obtain ⟨_, ranRest, ran⟩ := bind_eq_ok.mp ran
    cases ran
    refine .cons ⟨0, reissued⟩ ((ih ranRest).imp fun r updated ⟨k, made⟩ => ?_)
    by_cases deleted : record.tombstone = true
    · simp only [deleted, if_true] at made
      exact ⟨k, made⟩
    · simp only [deleted, Nat.add_assoc] at made
      exact ⟨k + 2, made⟩

/-- One row, reissued under a vault key at an epoch. -/
def ItemRow.ReissueOf (P : Primitives) (s : Storage) (vault : Vault) (vk : Bytes) (epoch : UInt64)
    (draws : Draws) (itemId : Bytes) (row row' : ItemRow) : Prop :=
  ∃ current k updated, vault.currentMembers P s = .ok current ∧
    vault.reanchorItem P s vk epoch current (mapItemRow (vault.vaultId, itemId) row)
      (fun n => draws (n + k)) = .ok updated ∧
    row'.Holds (vault.vaultId, itemId) updated

variable {vk itemId : Bytes} {row' : ItemRow} {adminKeyset : UnlockedKeyset} {vault' : Vault}

theorem reissueOf_of_holds (reissued : vault.reanchorItems P s vk epoch draws = .ok issued)
    (member : updated ∈ issued) (holds : row'.Holds (vault.vaultId, itemId) updated) :
    ∃ row, s.items[(vault.vaultId, itemId)]? = some row ∧
      row.ReissueOf P s vault vk epoch draws itemId row' := by
  obtain ⟨current, isCurrent, ran⟩ := bind_eq_ok.mp reissued
  obtain ⟨i, isIndex, rfl⟩ := List.getElem_of_mem member
  have rows := reanchorAll_forall₂ ran
  have inRange : i < (s.listItemsIncludingTombstones vault.vaultId).length :=
    rows.length_eq ▸ isIndex
  obtain ⟨k, made⟩ := rows.get inRange isIndex
  simp only [List.get_eq_getElem] at made
  obtain ⟨itemId', row, found, isRecord⟩ :=
    Storage.mem_listItemsIncludingTombstones.mp (List.getElem_mem inRange)
  rw [isRecord] at made
  -- The reissue keeps the id.
  obtain ⟨_, _, _, -, signed⟩ := reanchorItem_signed made
  obtain ⟨-, isItem, -⟩ := signedItem_owned signed
  obtain ⟨-, _, _, isRow⟩ := id holds
  obtain rfl : itemId' = itemId := (congrArg ItemRecord.itemId isRow |>.trans isItem).symm
  exact ⟨row, found, current, k, _, isCurrent, made, holds⟩

theorem ReissuedUnder.row (under : ReissuedUnder P vault vk epoch draws s s')
    (found : s'.items[(vault.vaultId, itemId)]? = some row') :
    ∃ row, s.items[(vault.vaultId, itemId)]? = some row ∧
      row.ReissueOf P s vault vk epoch draws itemId row' := by
  obtain ⟨_, reissued, holds⟩ := under.rows
  obtain ⟨_, member, holds⟩ := holds itemId row' found
  exact reissueOf_of_holds reissued member holds

/-! ## What is reissued keeps its content -/

section

/-- The plaintext of a record under a vault key. -/
def ItemRecord.Opens (P : Primitives) (vk : Bytes) (r : ItemRecord) (content : Bytes) : Prop :=
  ∃ itemKey, unwrapKeyCompat P vk r.wrappedItemKey r.itemId = .ok itemKey ∧
    aeadDecryptCompat P itemKey r.contentBlob (itemAad r.vaultId r.itemId r.version) = .ok content

variable {key blob : Bytes} {plaintext kek aad nonce : Bytes}

theorem finishUnwrap_eq_ok (finished : finishUnwrap plaintext = .ok key) :
    key.length = symmetricKeyLen := by
  unfold finishUnwrap at finished
  split at finished
  · cases finished
  · next isKey =>
    cases finished
    exact not_not.mp isKey

theorem unwrapKeyCompat_length (unwrapped : unwrapKeyCompat P kek blob aad = .ok key) :
    key.length = symmetricKeyLen := by
  unfold unwrapKeyCompat at unwrapped
  split at unwrapped
  · next current =>
    cases unwrapped
    obtain ⟨_, -, finished⟩ := bind_eq_ok.mp current
    exact finishUnwrap_eq_ok finished
  · obtain ⟨_, -, finished⟩ := bind_eq_ok.mp (mapError_eq_ok.mp unwrapped)
    exact finishUnwrap_eq_ok finished

theorem unwrapKeyCompat_wrapKey (length : nonce.length = nonceLen)
    (isKey : key.length = symmetricKeyLen) (wrapped : wrapKey P kek nonce key aad = .ok blob) :
    unwrapKeyCompat P kek blob aad = .ok key := by
  rw [unwrapKeyCompat, unwrapKey, openXchachaInner_sealXchacha length wrapped, ok_bind,
    finishUnwrap, if_neg (not_not.mpr isKey)]

theorem aeadDecryptCompat_aeadEncrypt {aad : AssociatedData} (length : nonce.length = nonceLen)
    (sealed : aeadEncrypt P key nonce plaintext aad = .ok blob) :
    aeadDecryptCompat P key blob aad = .ok plaintext := by
  unfold aeadDecryptCompat
  rw [aeadDecrypt_aeadEncrypt length sealed]

/-- A reissue is the next version; a live one has the row's plaintext under the new key. -/
structure ItemRecord.SameContent (P : Primitives) (vk vk' : Bytes) (r r' : ItemRecord) : Prop where
  sameLife : r'.tombstone = r.tombstone
  sameType : r'.itemType = r.itemType
  next : nextVersion r.version = .ok r'.version
  content : r.tombstone = false → ∃ content, r.Opens P vk content ∧ r'.Opens P vk' content

variable {record : ItemRecord} {draws : Draws}

theorem reanchorItem_sameContent (nonces : ∀ n, (draws n).length = nonceLen)
    (ofVault : record.vaultId = vault.vaultId)
    (issued : vault.reanchorItem P s vk epoch current record draws = .ok updated) :
    record.SameContent P vault.vk vk updated := by
  unfold Vault.reanchorItem at issued
  split at issued
  · cases issued
  · cases issued
  split at issued
  · cases issued
  obtain ⟨_, -, issued⟩ := bind_eq_ok.mp issued
  split at issued
  · next deleted =>
    obtain ⟨version, next, issued⟩ := bind_eq_ok.mp issued
    obtain ⟨_, signed, issued⟩ := bind_eq_ok.mp issued
    obtain ⟨_, -, signed⟩ := bind_eq_ok.mp signed
    cases signed
    cases issued
    exact ⟨deleted.symm, rfl, next, fun live => by cases deleted.symm.trans live⟩
  · next live =>
    obtain ⟨itemKey, unwrapped, issued⟩ := bind_eq_ok.mp issued
    obtain ⟨plaintext, decrypted, issued⟩ := bind_eq_ok.mp issued
    obtain ⟨_, next, issued⟩ := bind_eq_ok.mp issued
    obtain ⟨_, encrypted, issued⟩ := bind_eq_ok.mp issued
    obtain ⟨_, wrapped, issued⟩ := bind_eq_ok.mp issued
    obtain ⟨_, -, issued⟩ := bind_eq_ok.mp issued
    cases issued
    refine ⟨(Bool.eq_false_iff.mpr live).symm, rfl, next, fun _ => ⟨plaintext, ?_, ?_⟩⟩
    · rw [← ofVault] at decrypted
      exact ⟨itemKey, unwrapped, decrypted⟩
    · exact ⟨itemKey, unwrapKeyCompat_wrapKey (nonces 1) (unwrapKeyCompat_length unwrapped)
          (mapError_eq_ok.mp wrapped),
        aeadDecryptCompat_aeadEncrypt (nonces 0) (mapError_eq_ok.mp encrypted)⟩

end

/-! ## What is reissued was authorised -/

/-- A membership change of an opened vault. -/
inductive MembershipChange where
  | establish (members : List Member) (x25519ByEd : List (Bytes × Bytes))
  | rotate (remaining : List Member) (grants : List Recipient)

def MembershipChange.run (P : Primitives) (vault : Vault) (adminKeyset : UnlockedKeyset)
    (draws : Draws) : MembershipChange → VaultM Vault
  | .establish members x25519ByEd =>
    vault.establishOrExtendMembership P adminKeyset members x25519ByEd draws
  | .rotate remaining grants => vault.rotateVk P adminKeyset remaining grants draws

/-- The key a change seals the items under. -/
def MembershipChange.sealKey (vault : Vault) (draws : Draws) : MembershipChange → Bytes
  | .establish _ _ => vault.vk
  | .rotate _ _ => draws 0

/-- The draws a change uses as nonces have a nonce's length; the first of a rotation is the new
key. -/
def MembershipChange.Nonces (draws : Draws) : MembershipChange → Prop
  | .establish _ _ => ∀ n, (draws n).length = nonceLen
  | .rotate _ _ => ∀ n, (draws (n + 1)).length = nonceLen

theorem MembershipChange.rows {change : MembershipChange} (nonces : change.Nonces draws)
    (ran : (change.run P vault adminKeyset draws).run s = .ok vault' s') :
    s'.items = s.items ∨ ∃ epoch nonces, (∀ n, (nonces n).length = nonceLen) ∧
      ∀ (itemId : Bytes) row', s'.items[(vault.vaultId, itemId)]? = some row' →
        ∃ row, s.items[(vault.vaultId, itemId)]? = some row ∧
          row.ReissueOf P s vault (change.sealKey vault draws) epoch nonces itemId row' := by
  cases change with
  | establish =>
    rcases establish_reanchors ran with ⟨-, under, -⟩ | ⟨same, -⟩
    · exact .inr ⟨_, _, nonces, fun itemId row' found => under.row found⟩
    · exact .inl same
  | rotate =>
    obtain ⟨epoch, -, under⟩ := rotate_reanchors ran
    exact .inr ⟨epoch, _, fun n => nonces _, fun itemId row' found => under.row found⟩

/-- A row that may be reissued has an author who may write now and could at the row's epoch. -/
theorem verifyReanchorAuthority_authored {members : VerifiedMembers}
    (isLatest : s.latestMembershipEpoch vault.vaultId = some latest)
    (ofVault : record.vaultId = vault.vaultId)
    (authority : vault.verifyReanchorAuthority P s record (some members) = .ok ()) :
    record.Authored P s vault.genesisOwner members := by
  unfold Vault.verifyReanchorAuthority at authority
  split at authority
  · cases authority
  next writes =>
  have writes : members.canWrite record.authorPubkey = true := by simpa using writes
  split at authority
  · next first => exact ⟨writes, .inl first⟩
  refine ⟨writes, .inr ?_⟩
  rw [ofVault]
  dsimp only at authority
  split at authority
  · -- At or above the floor: the strict check of a record's author.
    have mode : vaultIsMembershipMode s vault.vaultId = true := by
      simp [vaultIsMembershipMode, isLatest]
    rcases verifyRecordAuthority_eq_ok.mp authority with ⟨single, -⟩ | ⟨-, -, wrote⟩
    · exact absurd (mode.symm.trans single) (by decide)
    · exact wrote
  · -- Below the floor: the set of the row's own epoch.
    obtain ⟨historical, chain, checked⟩ := bind_eq_ok.mp authority
    split at checked
    · next could => exact ⟨historical, chain, could.1⟩
    · cases checked

/-- A reissued row is the next version of the row of its id, by an author who may write now and
could then. -/
structure ItemRecord.ReissuedFrom (P : Primitives) (s : Storage) (vault : Vault)
    (members : VerifiedMembers) (vk : Bytes) (source reissue : ItemRecord) : Prop where
  owned : reissue.OwnedBy P (vault.keyset.verifying P) reissue.keyEpoch
  same : source.SameContent P vault.vk vk reissue
  signed : verifySigned P source.authorPubkey
    (itemAad source.vaultId source.itemId source.version) source.contentBlob source.signature =
      .ok ()
  authored : source.Authored P s vault.genesisOwner members
  intact : source.Intact P vault.vk

/-- Every row a membership change reissues was signed by someone who may write now and could then,
and is what the vault key opens in it. -/
theorem reanchoring_launders_nothing {adminKeyset : UnlockedKeyset} {draws : Draws}
    {change : MembershipChange} {vault' : Vault} {latest : UInt64} {members : VerifiedMembers}
    (nonces : change.Nonces draws) (isLatest : s.latestMembershipEpoch vault.vaultId = some latest)
    (verified : verifyChainToEpoch P s vault.vaultId latest vault.genesisOwner = .ok members)
    (ran : (change.run P vault adminKeyset draws).run s = .ok vault' s') (itemId : Bytes)
    (reissue : ItemRecord) (found : s'.getItem vault.vaultId itemId = some reissue) :
    s.getItem vault.vaultId itemId = some reissue ∨
      ∃ source, s.getItem vault.vaultId itemId = some source ∧
        source.ReissuedFrom P s vault members (change.sealKey vault draws) reissue := by
  obtain ⟨row', stored', rfl⟩ := map_eq_some_iff.mp found
  rcases MembershipChange.rows nonces ran with same | ⟨_, _, nonces, rows⟩
  · left
    unfold Storage.getItem at found ⊢
    rwa [same] at found
  · right
    obtain ⟨row, stored, current, k, _, isCurrent, made, -, _, _, isRow⟩ :=
      rows itemId row' stored'
    have isMembers : current = some members := by
      unfold Vault.currentMembers at isCurrent
      rw [isLatest] at isCurrent
      simp only [verified] at isCurrent
      exact (Except.ok.inj isCurrent).symm
    subst isMembers
    obtain ⟨signed, authority, intact⟩ := reanchorItem_checked rfl made
    obtain ⟨_, _, _, -, issued⟩ := reanchorItem_signed made
    obtain ⟨-, -, -, -, owned⟩ := signedItem_owned issued
    have same := reanchorItem_sameContent (fun n => nonces (n + k)) rfl made
    refine ⟨mapItemRow (vault.vaultId, itemId) row, ?_, ?_⟩
    · rw [Storage.getItem, stored]
      rfl
    rw [isRow]
    exact {
      owned := ⟨owned.signed, owned.author, rfl⟩
      same := ⟨same.sameLife, same.sameType, same.next, same.content⟩
      signed
      authored := verifyReanchorAuthority_authored isLatest rfl authority
      intact }

/-- A computation that returns has a result. -/
theorem exists_of_isOk {α : Type} {x : VaultM α} (isOk : (valueOf (x.run s)).isOk = true) :
    ∃ a s', x.run s = .ok a s' := by
  cases ran : x.run s with
  | ok a s' => exact ⟨a, s', rfl⟩
  | error =>
    rw [ran] at isOk
    cases isOk

namespace Sample

def freshNonces : Draws := fun _ => List.replicate nonceLen 0

/-- The owner's handle of a vault of their own, and opened again after it was shared. -/
def soloVault : Vault where
  keyset := owner
  vaultId := vaultId
  name := [1]
  vk := List.replicate symmetricKeyLen 0
  version := 1
  keyEpoch := 0
  genesisOwner := ownerKey
  canWrite := true
def sharedVault : Vault := { soloVault with version := 2, keyEpoch := 1 }

def soleAdmin : List Member := [{ ed25519Pub := ownerKey, role := .admin }]

/-- A vault with a note, and with the note written again. -/
def draft : Storage :=
  [LocalOperation.create owner vaultId [1] .cloud draws,
    .putItemKeepHistory soloVault [4] 0 [5] draws].foldl (LocalOperation.run .transparent) {}
def redraft : Storage :=
  (LocalOperation.putItemKeepHistory soloVault [4] 0 [6] draws).run .transparent draft

/-- The owner shares the vault. -/
def sharing : VaultM Vault :=
  soloVault.establishOrExtendMembership .transparent owner soleAdmin [] freshNonces

def shared : Storage := finalState (sharing.run draft)

/-- The owner rotates the key of the shared vault. -/
def rotating : VaultM Vault :=
  (MembershipChange.rotate soleAdmin []).run .transparent sharedVault owner draws

end Sample

open Sample

/-- A rotation reissues an item of a shared vault. -/
theorem reanchoring_launders_nothing_rotated :
    ∃ vault' s' reissue, rotating.run shared = .ok vault' s' ∧
      s'.getItem vaultId [4] = some reissue ∧
      (shared.getItem vaultId [4] = some reissue ∨
        ∃ source, shared.getItem vaultId [4] = some source ∧
          source.ReissuedFrom .transparent shared sharedVault
            { vaultId := vaultId, keyEpoch := 1, members := soleAdmin } (draws 0) reissue) := by
  have nonces : (MembershipChange.rotate soleAdmin []).Nonces draws := fun _ =>
    List.length_replicate
  have isLatest : shared.latestMembershipEpoch sharedVault.vaultId = some 1 := by
    decide +kernel
  have verified : verifyChainToEpoch .transparent shared sharedVault.vaultId 1
      sharedVault.genesisOwner =
        .ok { vaultId := vaultId, keyEpoch := 1, members := soleAdmin } := by
    decide +kernel
  have found : ((finalState (rotating.run shared)).getItem vaultId [4]).isSome :=
    by decide +kernel
  obtain ⟨vault', s', ran⟩ := exists_of_isOk
    (show (valueOf (rotating.run shared)).isOk = true by decide +kernel)
  rw [ran] at found
  obtain ⟨reissue, found⟩ := Option.isSome_iff_exists.mp found
  exact ⟨vault', s', reissue, ran, found,
    reanchoring_launders_nothing nonces isLatest verified ran [4] reissue found⟩

end UniSsh
