import UniSsh.Vault.Membership

/-!
# Record signatures and record authority

A vault with an epoch floor, a manifest or a pinned anchor is in membership mode, where a record
needs an editor or admin of the set at exactly its own epoch.
-/

namespace UniSsh

/-! ## Associated data and signed content -/

def nameAad (vaultId : Bytes) (version : UInt64) : AssociatedData :=
  { vaultId, itemId := ascii "__vault_name__", version }

def vaultRecordAad (vaultId : Bytes) (version : UInt64) : AssociatedData :=
  { vaultId, itemId := ascii "__vault__", version }

def itemAad (vaultId itemId : Bytes) (version : UInt64) : AssociatedData :=
  { vaultId, itemId, version }

def vaultSignedContent (wrappedVk nameBlob : Bytes) : Bytes :=
  wrappedVk ++ nameBlob

/-! ## Record checks -/

/-- Why a record failed the integrity check. -/
inductive IntegrityFailure where
  | signatureInvalid
  | authorMismatch
  | malformed
  | notAuthorized
  deriving DecidableEq

section Checks

variable (P : Primitives)

/-- `check_item_record` and `check_vault_record`: structure, signature, then the author. -/
def checkRecord (authorPubkey : Bytes) (aad : AssociatedData) (content signature : Bytes)
    (trustedOwner : Bytes) : Option IntegrityFailure :=
  match verifyingKeyFromBytes P authorPubkey with
  | .error _ => some .malformed
  | .ok author =>
    match verifyVersion P author (.fromContent P aad content) signature with
    | .error _ => some .signatureInvalid
    | .ok () => if authorPubkey ≠ trustedOwner then some .authorMismatch else none

def checkItemRecord (record : ItemRecord) (trustedOwner : Bytes) : Option IntegrityFailure :=
  checkRecord P record.authorPubkey (itemAad record.vaultId record.itemId record.version)
    record.contentBlob record.signature trustedOwner

def checkVaultRecord (record : VaultRecord) (trustedOwner : Bytes) : Option IntegrityFailure :=
  checkRecord P record.authorPubkey (vaultRecordAad record.vaultId record.version)
    (vaultSignedContent record.wrappedVk record.nameBlob) record.signature trustedOwner

/-- The mode is a property of the vault, never of a record's own unsigned epoch. -/
def vaultIsMembershipMode (s : Storage) (vaultId : Bytes) : Bool :=
  (s.getVaultEpochFloor vaultId).isSome || (s.latestMembershipEpoch vaultId).isSome ||
    (s.getVaultTrustAnchor vaultId).isSome

/-- The lowest epoch a record of a membership vault may carry. -/
def recordEpochFloor (s : Storage) (vaultId : Bytes) : UInt64 :=
  max ((s.getVaultEpochFloor vaultId).getD 0) ((s.latestMembershipEpoch vaultId).getD 0)

/-- Verifies a record author's right to write. -/
def verifyRecordAuthority (s : Storage) (vaultId authorPubkey : Bytes) (recordEpoch : UInt64)
    (genesisOwner : Bytes) : Except VaultError Unit :=
  if vaultIsMembershipMode s vaultId = false then
    if authorPubkey = genesisOwner then .ok () else .error .notAMember
  else if recordEpoch < recordEpochFloor s vaultId then .error .epochInvalid
  else
    match s.getMembershipManifest vaultId recordEpoch with
    | .error e => .error (.storage e)
    | .ok none => .error .epochInvalid
    | .ok (some _) => do
      let members ← verifyChainToEpoch P s vaultId recordEpoch genesisOwner
      if members.contains authorPubkey then
        if members.canWrite authorPubkey then .ok () else .error .authorityInvalid
      else .error .notAMember

variable {P}

theorem checkRecord_passed (authorPubkey : Bytes) (aad : AssociatedData)
    (content signature trustedOwner : Bytes) :
    (checkRecord P authorPubkey aad content signature trustedOwner ≠ some .malformed ∧
      checkRecord P authorPubkey aad content signature trustedOwner ≠ some .signatureInvalid) ↔
      verifySigned P authorPubkey aad content signature = .ok () := by
  unfold checkRecord verifySigned
  cases verifyingKeyFromBytes P authorPubkey with
  | error => simp
  | ok author =>
    dsimp only
    cases verifyVersion P author (.fromContent P aad content) signature with
    | error => simp
    | ok =>
      dsimp only
      split <;> simp

/-- An accepted author is the bare vault's anchor, or a writer at exactly the record's epoch. -/
theorem verifyRecordAuthority_eq_ok :
    verifyRecordAuthority P s vaultId authorPubkey recordEpoch genesisOwner = .ok () ↔
      (vaultIsMembershipMode s vaultId = false ∧ authorPubkey = genesisOwner) ∨
      (vaultIsMembershipMode s vaultId = true ∧ recordEpochFloor s vaultId ≤ recordEpoch ∧
        ∃ members, verifyChainToEpoch P s vaultId recordEpoch genesisOwner = .ok members ∧
          members.canWrite authorPubkey = true) := by
  unfold verifyRecordAuthority
  cases mode : vaultIsMembershipMode s vaultId with
  | false => by_cases owner : authorPubkey = genesisOwner <;> simp [owner]
  | true =>
    by_cases below : recordEpoch < recordEpochFloor s vaultId
    · have notAbove : ¬ recordEpochFloor s vaultId ≤ recordEpoch := UInt64.not_le.mpr below
      simp [below, notAbove]
    · have above : recordEpochFloor s vaultId ≤ recordEpoch := UInt64.not_lt.mp below
      simp only [below, above, Bool.true_eq_false, if_false, true_and, false_and, false_or]
      constructor
      · intro accepted
        split at accepted
        · cases accepted
        · cases accepted
        · obtain ⟨members, chain, checked⟩ := bind_eq_ok.mp accepted
          refine ⟨members, chain, ?_⟩
          split at checked
          · split at checked
            · next writes => exact writes
            · cases checked
          · cases checked
      · rintro ⟨members, chain, writes⟩
        obtain ⟨_, stored, -⟩ := verifyChainToEpoch_manifest chain
        simp [stored, chain, members.contains_of_canWrite writes, writes]

end Checks

/-! ## Records to run the program on -/

namespace Sample

/-- The owner of the sample vault and another account. -/
def owner : UnlockedKeyset := { encryption := [], signing := [1] }
def member : UnlockedKeyset := { encryption := [], signing := [2] }

def vaultId : Bytes := [9]

def ownerKey : Bytes := owner.verifying .transparent
def memberKey : Bytes := member.verifying .transparent

variable (keyset : UnlockedKeyset)

/-- A signature blob; empty where the associated data has no canonical form. -/
def signature (aad : AssociatedData) (content : Bytes) : Bytes :=
  (signContent .transparent keyset aad content).toOption.getD []

def item (itemId content : Bytes) (version keyEpoch : UInt64) : ItemRecord where
  vaultId := vaultId
  itemId := itemId
  itemType := 0
  contentBlob := content
  wrappedItemKey := []
  version := version
  tombstone := false
  signature := signature keyset (itemAad vaultId itemId version) content
  authorPubkey := keyset.verifying .transparent
  createdAt := 0
  updatedAt := 0
  keyEpoch := keyEpoch

def vault (name : Bytes) (version keyEpoch : UInt64) : VaultRecord where
  vaultId := vaultId
  syncTarget := .cloud
  nameBlob := name
  wrappedVk := []
  version := version
  tombstone := false
  signature := signature keyset (vaultRecordAad vaultId version) (vaultSignedContent [] name)
  authorPubkey := keyset.verifying .transparent
  keyEpoch := keyEpoch
  cachePolicy := .offlineAllowed
  syncTenant := []

/-- The owner's manifest of an epoch; unsigned where the members have no payload. -/
def manifest (keyEpoch : UInt64) (members : List Member) : MembershipManifest :=
  (buildManifest .transparent owner vaultId keyEpoch members).toOption.getD
    { vaultId, keyEpoch, manifestBlob := [], signature := [], authorPubkey := [] }

end Sample

end UniSsh
