import UniSsh.Sync.Accepts
import UniSsh.Sync.VerifyBeforeApply

/-!
# The vault record and its owner

A pull takes a vault's record from every writer of the member set, so it stays the owner's exactly
as long as no other writer's superseding record is delivered.
-/

namespace UniSsh

open Storage Option

variable {P : Primitives} {ctx : SyncContext} {s s' : Storage} {vaultId : Bytes}

/-- The author of the stored record of a vault. -/
def Storage.recordAuthor (s : Storage) (vaultId : Bytes) : Option Bytes :=
  (s.getVault vaultId).map VaultRecord.authorPubkey

/-- A validly signed newer record of the current epoch by a writer who is not the anchor. -/
structure Usurps (P : Primitives) (ctx : SyncContext) (s : Storage) (v : VaultRecord) : Prop where
  other : v.authorPubkey ≠ vaultAnchor s v.vaultId ctx
  signed : verifySigned P v.authorPubkey (vaultRecordAad v.vaultId v.version)
    (vaultSignedContent v.wrappedVk v.nameBlob) v.signature = .ok ()
  current : recordEpochFloor s v.vaultId ≤ v.keyEpoch
  writer : ∃ members, verifyChainToEpoch P s v.vaultId v.keyEpoch
    (vaultAnchor s v.vaultId ctx) = .ok members ∧ members.canWrite v.authorPubkey = true
  newer : ∀ stored, s.getVault v.vaultId = some stored → stored.version < v.version
  fits : v.version ≤ i64Max

variable {epoch : UInt64} {members : VerifiedMembers}

variable {v : VaultRecord} {obj : SyncObject}

theorem Usurps.admitted (usurps : Usurps P ctx s v) : VaultAdmitted P ctx s v := by
  obtain ⟨members, chain, writes⟩ := usurps.writer
  have floor : epochFloor s v.vaultId ≤ recordEpochFloor s v.vaultId := Std.left_le_max
  refine ⟨usurps.signed, UInt64.le_trans floor usurps.current, ?_⟩
  refine verifyRecordAuthority_eq_ok.mpr (.inr ⟨?_, usurps.current, members, chain, writes⟩)
  by_contra single
  have single := vaultIsMembershipMode_eq_false.mp (Bool.not_eq_true _ ▸ single)
  obtain ⟨_, stored, -⟩ := verifyChainToEpoch_manifest chain
  obtain ⟨n, same, found⟩ := getMembershipManifest_eq_ok.mp stored
  obtain ⟨row, present, -⟩ := map_eq_some_iff.mp found.symm
  exact single.2.1 _ ⟨n, same, row, present⟩

/-- A record of somebody else that was admitted is a writer's. -/
theorem VaultAdmitted.usurps (admitted : VaultAdmitted P ctx s v)
    (other : v.authorPubkey ≠ vaultAnchor s v.vaultId ctx)
    (newer : ∀ stored, s.getVault v.vaultId = some stored → stored.version < v.version)
    (fits : v.version ≤ i64Max) : Usurps P ctx s v := by
  rcases verifyRecordAuthority_eq_ok.mp admitted.authorized with
    ⟨-, same⟩ | ⟨-, current, members, chain, writes⟩
  · exact absurd same other
  · exact ⟨other, admitted.signed, current, ⟨members, chain, writes⟩, newer, fits⟩

/-! ## One object -/

theorem recordAuthor_eq (s : Storage) (vaultId : Bytes) :
    s.recordAuthor vaultId = (s.vaultContent vaultId).map VaultRecord.authorPubkey := by
  unfold Storage.recordAuthor Storage.vaultContent
  rw [map_map]
  rfl

/-- Healing the label keeps versions. -/
theorem adoptPulledBinding_versions (s : Storage) (vaultId tenant key : Bytes) :
    (s.adoptPulledBinding vaultId tenant).vaults[key]?.map VaultRow.version =
      s.vaults[key]?.map VaultRow.version := by
  rw [adoptPulledBinding_vaults, map_map]
  refine map_congr fun row _ => ?_
  dsimp only [Function.comp_apply]
  split <;> rfl

theorem exists_putVault_of_newer
    (newer : ∀ stored, s.getVault v.vaultId = some stored → stored.version < v.version)
    (fits : v.version ≤ i64Max) (epochFits : v.keyEpoch ≤ i64Max) :
    ∃ s', (s.adoptPulledBinding v.vaultId ctx.tenant).putVault
      { v with syncTenant := ctx.tenant } = .ok s' := by
  refine ⟨_, putVault_eq_ok.mpr ⟨⟨v.version, fits⟩, ⟨v.keyEpoch, epochFits⟩, rfl, rfl, ?_, rfl⟩⟩
  intro _ found
  have same := adoptPulledBinding_versions s v.vaultId ctx.tenant v.vaultId
  rw [found, map_some] at same
  obtain ⟨old, present, isVersion⟩ := map_eq_some_iff.mp same.symm
  have newer := newer _ (map_eq_some_iff.mpr ⟨old, present, rfl⟩)
  exact isVersion ▸ newer

/-- Such a record is applied. -/
theorem Usurps.applied (usurps : Usurps P ctx s v) :
    ∃ s', (processObject P ctx (.vault v)).run s = .ok .applied s' ∧
      s'.recordAuthor v.vaultId = some v.authorPubkey := by
  obtain ⟨_, chain, -⟩ := usurps.writer
  obtain ⟨-, n, epoch⟩ := verifyChainToEpoch_inRange chain
  obtain ⟨s', put⟩ : ∃ s', (s.adoptPulledBinding v.vaultId ctx.tenant).putVault
      { v with syncTenant := ctx.tenant } = .ok s' :=
    exists_putVault_of_newer usurps.newer usurps.fits (epoch ▸ n.inRange)
  have newer : ∀ stored, s.getVault v.vaultId = some stored → stored.version ≠ v.version :=
    fun stored found => UInt64.ne_of_lt (usurps.newer stored found)
  refine ⟨s', processVault_applied usurps.admitted newer put, ?_⟩
  obtain ⟨_, _, -, -, -, rfl⟩ := putVault_eq_ok.mp put
  simp [Storage.recordAuthor, Storage.getVault, mapVaultRow, Storage.upsertVaultRow]

variable {result : Except SyncError Outcome}

theorem Handled.recordAuthor (handled : Handled P ctx s obj result s') (vaultId : Bytes) :
    s'.recordAuthor vaultId = s.recordAuthor vaultId ∨
      s'.recordAuthor vaultId = some (vaultAnchor s vaultId ctx) ∨
      ∃ v, obj = .vault v ∧ v.vaultId = vaultId ∧ Usurps P ctx s v := by
  have frame := handled.frame
  cases handled with
  | kept => exact .inl rfl
  | relabelled =>
    left
    rw [recordAuthor_eq, adoptPulledBinding_vaultContent, ← recordAuthor_eq]
  | vault v _ admitted put =>
    obtain ⟨version, _, isVersion, -, newer, rfl⟩ := putVault_eq_ok.mp put
    by_cases same : v.vaultId = vaultId
    · subst same
      right
      by_cases own : v.authorPubkey = vaultAnchor s v.vaultId ctx
      · left
        simp [Storage.recordAuthor, Storage.getVault, mapVaultRow, Storage.upsertVaultRow, own]
      · right
        refine ⟨v, rfl, rfl, admitted.usurps own ?_ (isVersion ▸ version.inRange)⟩
        intro _ found
        obtain ⟨_, present, rfl⟩ := map_eq_some_iff.mp found
        have same := adoptPulledBinding_versions s v.vaultId ctx.tenant v.vaultId
        rw [present, map_some] at same
        obtain ⟨row, healed, isVersion⟩ := map_eq_some_iff.mp same
        have newer := newer row healed
        rwa [isVersion] at newer
    · left
      rw [recordAuthor_eq, recordAuthor_eq,
        ← adoptPulledBinding_vaultContent s v.vaultId ctx.tenant vaultId]
      simp only [Storage.vaultContent, Storage.getVault, Table.getElem?_insert, if_neg same]
  | _ =>
    left
    unfold Storage.recordAuthor Storage.getVault
    rw [frame.vaults (by simp)]

/-! ## Runs -/

theorem PullTrace.eq_of_nil (trace : PullTrace P ctx s [] s') : s' = s := by
  cases trace
  rfl

/-- A storage that a run passes. -/
def Visits (P : Primitives) (ctx : SyncContext) (s : Storage) (events : List PullEvent)
    (mid : Storage) : Prop :=
  ∃ before after, events = before ++ after ∧ PullTrace P ctx s before mid

/-- A run processes this object in this storage. -/
def Meets (P : Primitives) (ctx : SyncContext) (s : Storage) (events : List PullEvent)
    (mid : Storage) (obj : SyncObject) : Prop :=
  ∃ before seq result after mid', events = before ++ .processed (seq, obj) result :: after ∧
    PullTrace P ctx s before mid ∧ Processes P ctx mid obj result mid'

variable {events : List PullEvent}

theorem Meets.cons (step : PullTrace P ctx s [event] first)
    (meets : Meets P ctx first events mid obj) :
    Meets P ctx s (event :: events) mid obj := by
  obtain ⟨before, seq, result, after, mid', rfl, trace, ran⟩ := meets
  exact ⟨event :: before, seq, result, after, mid', rfl, step.append trace, ran⟩

theorem Handled.vaultAnchor_eq (handled : Handled P ctx s obj result s') (vaultId : Bytes) :
    vaultAnchor s' vaultId ctx = vaultAnchor s vaultId ctx := by
  unfold vaultAnchor anchorOf Storage.getVaultTrustAnchor
  rw [handled.frame.anchors]

/-- What only some vault records break holds all along a run exactly when it meets none of them. -/
theorem visits_iff_meets {I : Storage → Prop} {B : Storage → VaultRecord → Prop}
    (cursor : ∀ s s' key seq, s.setSyncCursor key seq = .ok s' → I s → I s')
    (step : ∀ s obj result s', Processes P ctx s obj result s' → I s →
      I s' ∨ ∃ v, obj = .vault v ∧ B s v)
    (breaks : ∀ s v result s', Processes P ctx s (.vault v) result s' → I s → B s v → ¬ I s')
    (start : I s) (events : List PullEvent) :
    (∀ mid, Visits P ctx s events mid → I mid) ↔
      ∀ mid v, Meets P ctx s events mid (.vault v) → ¬ B mid v := by
  constructor
  · rintro holds mid v ⟨before, seq, result, after, mid', rfl, trace, ran⟩ bad
    have next : PullTrace P ctx s (before ++ [.processed (seq, .vault v) result]) mid' :=
      trace.append (.processed (seq, .vault v) result ran (.done mid'))
    refine breaks mid v result mid' ran (holds mid ⟨before, _, rfl, trace⟩) bad ?_
    exact holds mid' ⟨_, after, (List.append_assoc _ [_] after).symm, next⟩
  · rintro harmless mid ⟨_, after, rfl, trace⟩
    induction trace with
    | done => exact start
    | @processed s first s' events entry result ran rest ih =>
      have one : PullTrace P ctx s [.processed entry result] first :=
        .processed entry result ran (.done first)
      refine ih ?_ fun mid v meets => harmless mid v (meets.cons one)
      rcases step s entry.2 result first ran start with kept | ⟨v, isVault, bad⟩
      · exact kept
      · have meets : Meets P ctx s (.processed entry result :: events ++ after) s entry.2 :=
          ⟨[], entry.1, result, events ++ after, first, rfl, .done s, ran⟩
        exact absurd bad (harmless s v (isVault ▸ meets))
    | @advanced s first s' events seq forward wrote rest ih =>
      have one : PullTrace P ctx s [.advanced seq] first :=
        .advanced seq forward wrote (.done first)
      exact ih (cursor s first _ seq wrote start) fun mid v meets =>
        harmless mid v (meets.cons one)

/-- A record stays its anchor's if and only if no superseding record of another is pulled. -/
theorem record_stays_owners_iff (P : Primitives) (ctx : SyncContext) {s : Storage} {vaultId : Bytes}
    (own : s.recordAuthor vaultId = some (vaultAnchor s vaultId ctx)) (events : List PullEvent) :
    (∀ mid, Visits P ctx s events mid →
      mid.recordAuthor vaultId = some (vaultAnchor mid vaultId ctx)) ↔
    ∀ mid v, Meets P ctx s events mid (.vault v) → v.vaultId = vaultId → ¬ Usurps P ctx mid v := by
  have iff := @visits_iff_meets P ctx s
    (fun mid => mid.recordAuthor vaultId = some (vaultAnchor mid vaultId ctx))
    (fun mid v => v.vaultId = vaultId ∧ Usurps P ctx mid v) ?_ ?_ ?_ own events
  · simpa only [not_and] using iff
  · intro s s' _ _ wrote own
    obtain ⟨n, -, rfl⟩ := setSyncCursor_eq_ok.mp wrote
    exact own
  · intro s _ result s' ran own
    rw [ran.handled.vaultAnchor_eq vaultId]
    rcases ran.handled.recordAuthor vaultId with same | isAnchor | bad
    · exact .inl (same.trans own)
    · exact .inl isAnchor
    · exact .inr bad
  · rintro s v _ s' ran - ⟨rfl, usurps⟩ kept
    obtain ⟨applied, isRun, taken⟩ := usurps.applied
    have same : s' = applied := ran.2.symm.trans (congrArg finalState isRun)
    rw [same, taken, ← same, ran.handled.vaultAnchor_eq v.vaultId] at kept
    exact usurps.other (some.inj kept)

namespace Sample

/-- A device of the owner with their record and the manifest that makes the member an editor. -/
def sharedDevice : Storage :=
  let members := [{ ed25519Pub := ownerKey, role := .admin },
    { ed25519Pub := memberKey, role := .editor }]
  [.membershipManifest (manifest 1 members), .vault (vault owner [8] 1 1)].foldl
    (fun s obj => finalState ((processObject .transparent context obj).run s)) {}

/-- The member's record with a wrapped key and a name of their own. -/
def takeover : VaultRecord := vault member [7] 2 1

/-- The owner's next record. -/
def renamed : VaultRecord := vault owner [7] 2 1

/-- The device after it pulled a record. -/
def afterRecord (v : VaultRecord) : Storage :=
  finalState ((processObject .transparent context (.vault v)).run sharedDevice)

end Sample

open Sample (context renamed sharedDevice afterRecord takeover memberKey ownerKey)

/-- A device on which the record is the owner's takes an editor's record over it. -/
theorem editor_replaces_vault_record :
    sharedDevice.recordAuthor Sample.vaultId =
      some (vaultAnchor sharedDevice Sample.vaultId context) ∧
    PullTrace .transparent context sharedDevice
      [.processed (1, .vault takeover) (.ok .applied)] (afterRecord takeover) ∧
    (afterRecord takeover).recordAuthor Sample.vaultId = some memberKey ∧
    vaultAnchor (afterRecord takeover) Sample.vaultId context = ownerKey ∧
    memberKey ≠ ownerKey :=
  ⟨by decide +kernel, .processed _ _ ⟨by decide +kernel, rfl⟩ (.done _), by decide +kernel,
    by decide +kernel, by decide +kernel⟩

/-- The owner renames the vault. -/
theorem record_stays_owners_iff_renamed :
    Processes .transparent context sharedDevice (.vault renamed) (.ok .applied)
      (afterRecord renamed) ∧
    (afterRecord renamed).recordAuthor Sample.vaultId =
      some (vaultAnchor (afterRecord renamed) Sample.vaultId context) := by
  have applied : Processes .transparent context sharedDevice (.vault renamed)
      (.ok .applied) (afterRecord renamed) := ⟨by decide +kernel, rfl⟩
  have own : sharedDevice.recordAuthor Sample.vaultId =
      some (vaultAnchor sharedDevice Sample.vaultId context) := by decide +kernel
  have honest := record_stays_owners_iff .transparent context own
    [.processed (1, .vault renamed) (.ok .applied)]
  refine ⟨applied, honest.mpr ?_ _
    ⟨_, [], (List.append_nil _).symm, .processed _ _ applied (.done _)⟩⟩
  rintro _ v ⟨before, _, _, _, _, isEvents, trace, -⟩ - usurps
  -- The only object is the owner's own record.
  cases before with
  | cons => simp at isEvents
  | nil =>
    have isEntry := (PullEvent.processed.inj (List.cons.inj isEvents).1).1
    have isRecord : renamed = v := SyncObject.vault.inj (Prod.mk.inj isEntry).2
    rw [trace.eq_of_nil, ← isRecord] at usurps
    exact usurps.other (by decide +kernel)

end UniSsh
