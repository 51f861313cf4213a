import UniSsh.Sync.StaleHistory
import UniSsh.Vault.Rotation

/-!
# Rotations that a pull blocks

An item's signature does not cover whether it is deleted. A pull applies a genuine item whose
tombstone was set on the way, and a rotation refuses a deleted row with content. The two runs here
differ in that bit only.
-/

namespace UniSsh

namespace Sample

/-- The owner and an editor. -/
def team : List Member :=
  [{ ed25519Pub := ownerKey, role := .admin }, { ed25519Pub := memberKey, role := .editor }]

/-- The team without the editor. -/
def ownerAlone : List Member := [{ ed25519Pub := ownerKey, role := .admin }]

/-- The owner creates a vault and shares it with the editor. -/
def founding : List DeviceAction :=
  [.operate (.create owner vaultId [1] .cloud draws) trivial,
    .operate (.establish ownVault owner team [] draws) trivial]

def founded : Storage := founding.foldl (DeviceAction.run .transparent) {}

/-- The owner's handle of the vault opened at its first epoch, and the editor's. -/
def foundedVault : Vault := { ownVault with version := 2, keyEpoch := 1 }
def editorVault : Vault := { foundedVault with keyset := member }

/-- The editor's device pulls the vault and writes an item. -/
def joining : List DeviceAction :=
  [.operate (.setTrustAnchor vaultId ownerKey) trivial,
    .pull (.applyPulledObjects { genesisOwner := memberKey, tenant := [7] }
      ((founded.getMembershipManifest vaultId 1).toOption.join.toList.map
          (fun m => (1, .membershipManifest m)) ++
        (founded.getVault vaultId).toList.map fun v => (2, .vault v))),
    .operate (.putItem editorVault [4] 0 [5] draws) trivial]

/-- The item as the editor's device pushes it. -/
def written : Option ItemRecord :=
  (joining.foldl (DeviceAction.run .transparent) {}).getItem vaultId [4]

/-- The owner's device pulls the editor's item, with the tombstone the transport gives it. -/
def pulledAs (tombstone : Bool) : DeviceAction :=
  .pull (.applyPulledObjects context
    (written.toList.map fun i => (1, .item { i with tombstone })))

/-- The owner's device after that pull. -/
def pulledInto (tombstone : Bool) : Storage :=
  (founding ++ [pulledAs tombstone]).foldl (DeviceAction.run .transparent) {}

def foundedMembers : VerifiedMembers := { vaultId, keyEpoch := 1, members := team }

/-- The owner revokes the editor. -/
def revokeEditor : VaultM Vault :=
  foundedVault.rotateVk .transparent owner ownerAlone [] draws

theorem pulledInto_adminAt (tombstone : Bool) :
    foundedVault.AdminAt .transparent (pulledInto tombstone) foundedMembers where
  owner := rfl
  latest := by cases tombstone <;> decide +kernel
  chain := by cases tombstone <;> decide +kernel
  isAdmin := rfl
  record := by
    refine Option.isSome_iff_exists.mp ?_
    cases tombstone <;> decide +kernel

theorem ownerAlone_target : RotationTarget .transparent ownerKey ownerAlone [] where
  issuable := ⟨by decide, by decide, by decide⟩
  keepsOwner := List.mem_singleton_self _
  granted := nofun

end Sample

open Sample

/-- A tombstone set in transit blocks the revocation of the item's editor. -/
theorem flipped_tombstone_blocks_rotation :
    foundedVault.AdminAt .transparent (pulledInto true) foundedMembers ∧
      RotationTarget .transparent ownerKey ownerAlone [] ∧
      written.map ItemRecord.tombstone = some false ∧
      (pulledInto true).getItem vaultId [4] = written.map (fun i => { i with tombstone := true }) ∧
      valueOf (revokeEditor.run (pulledInto true)) = .error .format := by
  refine ⟨pulledInto_adminAt true, ownerAlone_target, ?_, ?_, ?_⟩
  all_goals decide +kernel

/-- Pulled as the editor pushed it, the item does not block the rotation. -/
theorem rotateVk_returns_iff_genuine :
    (valueOf (revokeEditor.run (pulledInto false))).isOk ∧
      foundedVault.Rotatable .transparent (pulledInto false)
        foundedMembers := by
  have isOk : (valueOf (revokeEditor.run (pulledInto false))).isOk := by
    decide +kernel
  have returns : ∃ vault' s', revokeEditor.run (pulledInto false) = .ok vault' s' := by
    generalize revokeEditor.run (pulledInto false) = result at isOk
    cases result with
    | ok vault' s' => exact ⟨vault', s', rfl⟩
    | error => cases isOk
  exact ⟨isOk, (rotateVk_returns_iff (fun _ _ _ _ => ⟨_, rfl⟩) (fun _ _ _ => ⟨_, rfl⟩)
    (pulledInto_adminAt false) ownerAlone_target).mp returns⟩

end UniSsh
