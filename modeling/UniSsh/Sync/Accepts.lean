import UniSsh.Sync.Trace

/-!
# Objects that are applied

The converse of `Handled`: admitted records that supersede what is stored are applied.
-/

namespace UniSsh

variable {P : Primitives} {ctx : SyncContext} {s s' : Storage}

theorem processVault_applied (admitted : VaultAdmitted P ctx s v)
    (newer : ∀ stored, s.getVault v.vaultId = some stored → stored.version ≠ v.version)
    (put : (s.adoptPulledBinding v.vaultId ctx.tenant).putVault
      { v with syncTenant := ctx.tenant } = .ok s') :
    (processObject P ctx (.vault v)).run s = .ok .applied s' := by
  have judged : admission P ctx s (checkVaultRecord P v) v.vaultId v.authorPubkey v.keyEpoch =
      none := admission_eq_none.mpr admitted
  change (processVault P ctx v).run s = _
  unfold processVault
  simp only [EStateM.run_bind, EStateM.run_get]
  rw [judged]
  unfold mergeVault
  simp only [EStateM.run_bind, EStateM.run_get]
  cases found : s.getVault v.vaultId with
  | none =>
    have same : s.adoptPulledBinding v.vaultId ctx.tenant = s := by
      apply Storage.adoptPulledBinding_eq_self
      intro _ present
      simp [Storage.getVault, present] at found
    rw [same] at put
    rw [putLww_run, put]
  | some stored =>
    rw [EStateM.run_bind, healBinding_run found]
    dsimp only
    rw [if_neg (newer stored found), putLww_run, put]

end UniSsh
