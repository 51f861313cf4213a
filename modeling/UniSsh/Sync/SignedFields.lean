import UniSsh.Sync.VerifyBeforeApply

/-!
# What a record's signature covers

Vault id, item id, version and content are signed, for a vault record its wrapped key and name.
Tombstone, epoch, type, item key, target and policy are not, and a copy altered in them is
applied.
-/

namespace UniSsh

variable {P : Primitives} {ctx : SyncContext} {s s' : Storage}

/-- What the vault operations put in an item record's signature and author. -/
structure ItemRecord.SignedBy (P : Primitives) (keyset : UnlockedKeyset) (i : ItemRecord) : Prop where
  signed : signContent P keyset (itemAad i.vaultId i.itemId i.version) i.contentBlob =
    .ok i.signature
  author : i.authorPubkey = keyset.verifying P

/-- What the vault operations put in a vault record's signature and author. -/
structure VaultRecord.SignedBy (P : Primitives) (keyset : UnlockedKeyset) (v : VaultRecord) :
    Prop where
  signed : signContent P keyset (vaultRecordAad v.vaultId v.version)
    (vaultSignedContent v.wrappedVk v.nameBlob) = .ok v.signature
  author : v.authorPubkey = keyset.verifying P

/-- An altered copy under the signature is applied only if it agrees in all signed fields. -/
theorem applied_copy_keeps_signed_fields (P : Primitives) (ctx : SyncContext)
    (keyset : UnlockedKeyset) (s s' : Storage) :
    (∀ genuine altered : ItemRecord, genuine.SignedBy P keyset →
      altered.signature = genuine.signature → altered.authorPubkey = genuine.authorPubkey →
      VersionedObject.BoundBy P keyset.signing
        (.fromContent P (itemAad genuine.vaultId genuine.itemId genuine.version)
          genuine.contentBlob)
        (.fromContent P (itemAad altered.vaultId altered.itemId altered.version)
          altered.contentBlob) →
      P.NoCollision altered.contentBlob genuine.contentBlob →
      Processes P ctx s (.item altered) (.ok .applied) s' →
      altered.vaultId = genuine.vaultId ∧ altered.itemId = genuine.itemId ∧
        altered.version = genuine.version ∧ altered.contentBlob = genuine.contentBlob) ∧
    (∀ genuine altered : VaultRecord, genuine.SignedBy P keyset →
      altered.signature = genuine.signature → altered.authorPubkey = genuine.authorPubkey →
      VersionedObject.BoundBy P keyset.signing
        (.fromContent P (vaultRecordAad genuine.vaultId genuine.version)
          (vaultSignedContent genuine.wrappedVk genuine.nameBlob))
        (.fromContent P (vaultRecordAad altered.vaultId altered.version)
          (vaultSignedContent altered.wrappedVk altered.nameBlob)) →
      P.NoCollision (vaultSignedContent altered.wrappedVk altered.nameBlob)
        (vaultSignedContent genuine.wrappedVk genuine.nameBlob) →
      Processes P ctx s (.vault altered) (.ok .applied) s' →
      altered.vaultId = genuine.vaultId ∧ altered.version = genuine.version ∧
        altered.wrappedVk ++ altered.nameBlob = genuine.wrappedVk ++ genuine.nameBlob) := by
  constructor
  · intro genuine altered made signature author binds noCollision applied
    have verified := applied.itemAdmitted.signed
    rw [signature, author, made.author] at verified
    obtain ⟨identity, content⟩ :=
      verifySigned_signContent_inj P binds noCollision made.signed verified
    exact ⟨congrArg AssociatedData.vaultId identity, congrArg AssociatedData.itemId identity,
      congrArg AssociatedData.version identity, content⟩
  · intro _ _ made signature author binds noCollision applied
    have verified := applied.vaultAdmitted.signed
    rw [signature, author, made.author] at verified
    obtain ⟨identity, content⟩ :=
      verifySigned_signContent_inj P binds noCollision made.signed verified
    exact ⟨congrArg AssociatedData.vaultId identity, congrArg AssociatedData.version identity,
      content⟩

namespace Sample

/-- A live item of the owner, and the same bytes presented as a deletion. -/
def liveItem : ItemRecord := item owner [5] [4] 1 0
def deletedCopy : ItemRecord :=
  { liveItem with tombstone := true, itemType := 7, wrappedItemKey := [6], keyEpoch := 3 }

/-- A deletion of the owner, and the same bytes presented as a live item. -/
def deletedItem : ItemRecord := { item owner [5] [] 1 0 with tombstone := true }
def revivedCopy : ItemRecord := { deletedItem with tombstone := false }

/-- A vault of the owner, and a deleted copy with its name moved into its wrapped key. -/
def liveVault : VaultRecord := vault owner [8] 1 0
def alteredVault : VaultRecord :=
  { liveVault with
    tombstone := true, keyEpoch := 3, syncTarget := .localOnly, cachePolicy := .onlineOnly,
    wrappedVk := [8], nameBlob := [] }

end Sample

open Sample

theorem Sample.liveItem_signedBy : liveItem.SignedBy .transparent owner :=
  ⟨rfl, rfl⟩

/-- A fresh device of the owner applies all three altered copies. -/
theorem altered_copies_are_applied :
    let applies (obj : SyncObject) : Prop :=
      valueOf ((processObject .transparent context obj).run {}) = .ok .applied
    (liveItem.SignedBy .transparent owner ∧ deletedCopy.signature = liveItem.signature ∧
      liveItem.tombstone = false ∧ applies (.item deletedCopy) ∧
      ((finalState ((processObject .transparent context
        (.item deletedCopy)).run {})).getItem vaultId [5]).map ItemRecord.tombstone = some true) ∧
    (deletedItem.SignedBy .transparent owner ∧ revivedCopy.signature = deletedItem.signature ∧
      revivedCopy.tombstone = false ∧ applies (.item revivedCopy)) ∧
    (liveVault.SignedBy .transparent owner ∧ alteredVault.signature = liveVault.signature ∧
      alteredVault.nameBlob ≠ liveVault.nameBlob ∧
      applies (.vault alteredVault)) := by
  refine ⟨⟨liveItem_signedBy, rfl, rfl, ?_, ?_⟩, ⟨⟨?_, rfl⟩, rfl, rfl, ?_⟩,
    ⟨⟨?_, rfl⟩, rfl, ?_, ?_⟩⟩
  all_goals decide +kernel

/-- The deleted copy agrees with the live item in what is signed. -/
theorem applied_copy_keeps_signed_fields_deleted :
    deletedCopy.vaultId = liveItem.vaultId ∧ deletedCopy.itemId = liveItem.itemId ∧
      deletedCopy.version = liveItem.version ∧
      deletedCopy.contentBlob = liveItem.contentBlob := by
  have applied : Processes .transparent context {} (.item deletedCopy)
      (.ok .applied) _ := ⟨by decide +kernel, rfl⟩
  refine (applied_copy_keeps_signed_fields .transparent context owner {} _).1
    liveItem deletedCopy liveItem_signedBy rfl rfl ?_ (fun _ => rfl) applied
  intro _ _ signed signed' _
  exact Except.ok.inj (signed'.symm.trans signed)

end UniSsh
