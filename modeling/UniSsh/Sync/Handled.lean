import UniSsh.Sync.Pull

/-!
# What one object can do

`Handled` lists what one delivered object can do to the storage, with the checks before each
write. Every handler is inverted into it once (`processObject_handled`).
-/

namespace UniSsh

open EStateM (run_bind run_get)

open Storage

variable {P : Primitives} {ctx : SyncContext} {s s' : Storage}

/-- A record's signature, its epoch against the floor, and its author's right at the anchor. -/
structure RecordAdmitted (P : Primitives) (ctx : SyncContext) (s : Storage)
    (vaultId authorPubkey : Bytes) (keyEpoch : UInt64) (aad : AssociatedData)
    (content signature : Bytes) : Prop where
  signed : verifySigned P authorPubkey aad content signature = .ok ()
  aboveFloor : epochFloor s vaultId ≤ keyEpoch
  authorized :
    verifyRecordAuthority P s vaultId authorPubkey keyEpoch (vaultAnchor s vaultId ctx) = .ok ()

def VaultAdmitted (P : Primitives) (ctx : SyncContext) (s : Storage) (v : VaultRecord) : Prop :=
  RecordAdmitted P ctx s v.vaultId v.authorPubkey v.keyEpoch
    (vaultRecordAad v.vaultId v.version) (vaultSignedContent v.wrappedVk v.nameBlob) v.signature

def ItemAdmitted (P : Primitives) (ctx : SyncContext) (s : Storage) (i : ItemRecord) : Prop :=
  RecordAdmitted P ctx s i.vaultId i.authorPubkey i.keyEpoch
    (itemAad i.vaultId i.itemId i.version) i.contentBlob i.signature

/-- The ways the processing of one object from `s` ends: its result and the storage left. -/
inductive Handled (P : Primitives) (ctx : SyncContext) (s : Storage) :
    SyncObject → Except SyncError Outcome → Storage → Prop where
  | kept (obj : SyncObject) (result : Except SyncError Outcome)
      (notApplied : result ≠ .ok .applied) : Handled P ctx s obj result s
  /-- An admitted vault record that is not merged still heals the routing label. -/
  | relabelled (v : VaultRecord) (result : Except SyncError Outcome)
      (admitted : VaultAdmitted P ctx s v) (notApplied : result ≠ .ok .applied)
      (notRejected : ∀ vaultId reason, result ≠ .ok (.rejected vaultId reason)) :
      Handled P ctx s (.vault v) result (s.adoptPulledBinding v.vaultId ctx.tenant)
  | vault (v : VaultRecord) (s' : Storage) (admitted : VaultAdmitted P ctx s v)
      (put : (s.adoptPulledBinding v.vaultId ctx.tenant).putVault
        { v with syncTenant := ctx.tenant } = .ok s') :
      Handled P ctx s (.vault v) (.ok .applied) s'
  | item (i : ItemRecord) (s' : Storage) (admitted : ItemAdmitted P ctx s i)
      (put : s.putItem i = .ok s') : Handled P ctx s (.item i) (.ok .applied) s'
  | manifest (m : MembershipManifest) (mid s' : Storage) (members : VerifiedMembers)
      (aboveFloor : epochFloor s m.vaultId ≤ m.keyEpoch)
      (absent : s.getMembershipManifest m.vaultId m.keyEpoch = .ok none)
      (stored : s.putMembershipManifest m = .ok mid)
      (chain : verifyChainToEpoch P mid m.vaultId m.keyEpoch (vaultAnchor s m.vaultId ctx) =
        .ok members)
      (raised : mid.setVaultEpochFloor m.vaultId m.keyEpoch = .ok s') :
      Handled P ctx s (.membershipManifest m) (.ok .applied) s'
  /-- An identical manifest whose floor was not armed arms it. -/
  | floorArmed (m stored : MembershipManifest) (s' : Storage) (members : VerifiedMembers)
      (above : epochFloor s m.vaultId < m.keyEpoch)
      (present : s.getMembershipManifest m.vaultId m.keyEpoch = .ok (some stored))
      (same : manifestContentEq stored m = true)
      (chain : verifyChainToEpoch P s m.vaultId m.keyEpoch (vaultAnchor s m.vaultId ctx) =
        .ok members)
      (raised : s.setVaultEpochFloor m.vaultId m.keyEpoch = .ok s') :
      Handled P ctx s (.membershipManifest m) (.ok .unchanged) s'
  | grant (g : MembershipGrant) (s' : Storage) (members : VerifiedMembers)
      (aboveFloor : epochFloor s g.vaultId ≤ g.keyEpoch)
      (chain : verifyChainToEpoch P s g.vaultId g.keyEpoch (vaultAnchor s g.vaultId ctx) =
        .ok members)
      (verified : verifyGrant P g g.vaultId members = .ok ())
      (put : s.putMembershipGrant g = .ok s') :
      Handled P ctx s (.membershipGrant g) (.ok .applied) s'
  | audit (a : AuditObject) (own : a.authorPubkey = ctx.genesisOwner)
      (signed : verifySigned P a.authorPubkey (auditAad a.vaultId) a.entryBlob a.signature =
        .ok ()) :
      Handled P ctx s (.audit a) (.ok .applied)
        (s.appendAudit a.entryBlob a.signature a.authorPubkey)
  | accountState (a : AccountStateObject) (s' : Storage)
      (own : a.authorPubkey = ctx.genesisOwner)
      (signed : verifyAccountState P a.authorPubkey a.version a.payload a.signature = .ok ())
      (newer : ∀ stored, s.getAccountState a.authorPubkey = some stored →
        ¬ (a.version < stored.version ∨
          (a.version = stored.version ∧ a.signature ≤ stored.signature)))
      (set : s.setAccountState a.authorPubkey a.version a.payload a.signature = .ok s') :
      Handled P ctx s (.accountState a) (.ok .applied) s'

/-! ## The handlers, inverted -/

variable {vaultId : Bytes}

theorem admission_eq_none :
    admission P ctx s (checkRecord P authorPubkey aad content signature) vaultId authorPubkey
        keyEpoch = none ↔
      RecordAdmitted P ctx s vaultId authorPubkey keyEpoch aad content signature := by
  have passed := checkRecord_passed (P := P) authorPubkey aad content signature
    (vaultAnchor s vaultId ctx)
  unfold admission
  dsimp only
  constructor
  · intro admitted
    split at admitted
    · cases admitted
    · cases admitted
    · next notMalformed notInvalid =>
      split at admitted
      · cases admitted
      · next above =>
        split at admitted
        · cases admitted
        · next authorized =>
          exact ⟨passed.mp ⟨notMalformed, notInvalid⟩, UInt64.not_lt.mp above, authorized⟩
  · rintro ⟨signed, aboveFloor, authorized⟩
    obtain ⟨notMalformed, notInvalid⟩ := passed.mpr signed
    split
    · next malformed => exact (notMalformed malformed).elim
    · next invalid => exact (notInvalid invalid).elim
    · rw [if_neg (UInt64.not_lt.mpr aboveFloor), authorized]

theorem storageWrite_run (f : Storage → Except StorageError Storage) (s : Storage) :
    (storageWrite f).run s = match f s with
      | .ok s' => .ok () s'
      | .error e => .error (.storage e) s := by
  unfold storageWrite
  rw [writeM_run]
  cases f s <;> rfl

theorem putLww_run (put : Storage → Except StorageError Storage) (s : Storage) :
    (putLww put).run s = match put s with
      | .ok s' => .ok .applied s'
      | .error (.versionRollback _ _) => .ok .skippedStale s
      | .error e => .error (.storage e) s := rfl

/-- Healing the label of the stored row is adopting the binding, whatever the row's label. -/
theorem healBinding_run (found : s.getVault vaultId = some stored) :
    (healBinding ctx stored).run s = .ok () (s.adoptPulledBinding vaultId ctx.tenant) := by
  obtain ⟨_, present, rfl⟩ := map_eq_some_iff.mp found
  unfold healBinding
  split
  · rfl
  · next labelled =>
    have same : s.adoptPulledBinding vaultId ctx.tenant = s := by
      apply adoptPulledBinding_eq_self
      intro _ found' unbound
      cases present.symm.trans found'
      by_contra tenant
      exact labelled ⟨unbound, tenant⟩
    rw [same]
    rfl

private theorem mergeVault_handled (ctx : SyncContext) (admitted : VaultAdmitted P ctx s v) :
    Handled P ctx s (.vault v) (valueOf ((mergeVault ctx v).run s))
      (finalState ((mergeVault ctx v).run s)) := by
  have merged : Handled P ctx s (.vault v)
      (valueOf ((putLww fun s => s.putVault { v with syncTenant := ctx.tenant }).run
        (s.adoptPulledBinding v.vaultId ctx.tenant)))
      (finalState ((putLww fun s => s.putVault { v with syncTenant := ctx.tenant }).run
        (s.adoptPulledBinding v.vaultId ctx.tenant))) := by
    rw [putLww_run]
    split
    · next put => exact .vault v _ admitted put
    · exact .relabelled v _ admitted (by simp) (by simp)
    · exact .relabelled v _ admitted (by simp) (by simp)
  unfold mergeVault
  simp only [run_bind, run_get]
  split
  · next absent =>
    have same : s.adoptPulledBinding v.vaultId ctx.tenant = s := by
      apply adoptPulledBinding_eq_self
      intro _ found
      simp [Storage.getVault, found] at absent
    rwa [same] at merged
  · next found =>
    rw [run_bind, healBinding_run found]
    dsimp only
    split
    · split
      · exact .relabelled v _ admitted (by simp) (by simp)
      · exact .relabelled v _ admitted (by simp) (by simp)
    · exact merged

private theorem processItem_handled (ctx : SyncContext) (s : Storage) (i : ItemRecord) :
    Handled P ctx s (.item i) (valueOf ((processItem P ctx i).run s))
      (finalState ((processItem P ctx i).run s)) := by
  unfold processItem
  simp only [run_bind, run_get]
  split
  · exact .kept _ _ (by simp)
  · next admitted =>
    have merged : Handled P ctx s (.item i) (valueOf ((putLww fun s => s.putItem i).run s))
        (finalState ((putLww fun s => s.putItem i).run s)) := by
      rw [putLww_run]
      split
      · next put => exact .item i _ (admission_eq_none.mp admitted) put
      · exact .kept _ _ (by simp)
      · exact .kept _ _ (by simp)
    unfold mergeItem
    simp only [run_bind, run_get]
    split
    · exact merged
    · split
      · split
        · exact .kept _ _ (by simp)
        · exact .kept _ _ (by simp)
      · exact merged

/-- A verified chain reaches a nonzero epoch that storage can hold. -/
theorem verifyChainToEpoch_inRange
    (chain : verifyChainToEpoch P s vaultId epoch owner = .ok members) :
    epoch ≠ 0 ∧ ∃ n : SqlInt, n.toU64 = epoch := by
  refine ⟨(verifyChainToEpoch_eq_ok.mp chain).1, ?_⟩
  obtain ⟨_, stored, -⟩ := verifyChainToEpoch_manifest chain
  obtain ⟨n, same, -⟩ := getMembershipManifest_eq_ok.mp stored
  exact ⟨n, same⟩

/-- Raising the floor to an epoch not below it leaves that epoch, written or not. -/
theorem raiseFloor_run (read : epochFloor s vaultId = floor) (le : floor ≤ n.toU64)
    (positive : n.toU64 ≠ 0) :
    (raiseFloor vaultId floor n.toU64).run s =
      .ok () { s with vaultEpochFloor := s.vaultEpochFloor.insert vaultId n } := by
  unfold raiseFloor
  split
  · rw [storageWrite_run, setVaultEpochFloor_eq_ok.mpr ⟨n, rfl, rfl⟩]
  · next notAbove =>
    have equal : floor = n.toU64 := UInt64.le_antisymm le (UInt64.not_lt.mp notAbove)
    have present : s.vaultEpochFloor[vaultId]? = some n := by
      cases found : s.vaultEpochFloor[vaultId]? with
      | none => simp_all [epochFloor, Storage.getVaultEpochFloor]
      | some stored =>
        have same : stored.toU64 = n.toU64 := by
          simp_all [epochFloor, Storage.getVaultEpochFloor]
        exact congrArg some (SqlInt.ext same)
    rw [Table.insert_getElem? _ present]
    rfl

/-- A manifest is stored with its chain verified, or the step fails with `authorityInvalid`. -/
private theorem storeAndVerify_ok (ran : (storeAndVerify P m anchor).run s = .ok () s') :
    s.putMembershipManifest m = .ok s' ∧
      ∃ members, verifyChainToEpoch P s' m.vaultId m.keyEpoch anchor = .ok members := by
  obtain ⟨_, _, wrote, rest⟩ := bind_run_ok ran
  rw [storageWrite_run] at wrote
  split at wrote
  · next stored =>
    cases wrote
    simp only [run_bind, run_get] at rest
    split at rest
    · next members chain =>
      cases rest
      exact ⟨stored, members, chain⟩
    · cases rest
  · cases wrote

private theorem processManifest_handled (ctx : SyncContext) (s : Storage) (m : MembershipManifest) :
    Handled P ctx s (.membershipManifest m) (valueOf ((processManifest P ctx m).run s))
      (finalState ((processManifest P ctx m).run s)) := by
  unfold processManifest
  simp only [run_bind, run_get]
  split
  · exact .kept _ _ (by simp)
  · next notBelow =>
    have aboveFloor : epochFloor s m.vaultId ≤ m.keyEpoch := UInt64.not_lt.mp notBelow
    rw [run_bind, readM_run]
    cases read : s.getMembershipManifest m.vaultId m.keyEpoch with
    | error => exact .kept _ _ (by simp [Except.mapError])
    | ok existing =>
      simp only [Except.mapError]
      cases existing with
      | some stored =>
        dsimp only
        split
        · next same =>
          split
          · next above =>
            split
            · exact .kept _ _ (by simp)
            · next members chain =>
              obtain ⟨positive, n, epoch⟩ := verifyChainToEpoch_inRange chain
              rw [run_bind, ← epoch, raiseFloor_run rfl (epoch ▸ aboveFloor) (epoch ▸ positive)]
              exact .floorArmed m stored _ members above read same chain
                (setVaultEpochFloor_eq_ok.mpr ⟨n, epoch, rfl⟩)
          · exact .kept _ _ (by simp)
        · exact .kept _ _ (by simp)
      | none =>
        rw [run_bind, attempt_run, transaction_run]
        cases ran : (storeAndVerify P m (vaultAnchor s m.vaultId ctx)).run s with
        | error =>
          dsimp only
          split
          · next impossible => cases impossible
          · exact .kept _ _ (by simp)
          · exact .kept _ _ (nofun)
        | ok _ mid =>
          obtain ⟨stored, members, chain⟩ := storeAndVerify_ok ran
          obtain ⟨positive, n, epoch⟩ := verifyChainToEpoch_inRange chain
          have floorKept : epochFloor mid m.vaultId = epochFloor s m.vaultId := by
            obtain ⟨_, _, rfl⟩ := putMembershipManifest_eq_ok.mp stored
            rfl
          dsimp only
          rw [run_bind, ← epoch, raiseFloor_run floorKept (epoch ▸ aboveFloor) (epoch ▸ positive)]
          exact .manifest m mid _ members aboveFloor read stored chain
            (setVaultEpochFloor_eq_ok.mpr ⟨n, epoch, rfl⟩)

private theorem processGrant_handled (ctx : SyncContext) (s : Storage) (g : MembershipGrant) :
    Handled P ctx s (.membershipGrant g) (valueOf ((processGrant P ctx g).run s))
      (finalState ((processGrant P ctx g).run s)) := by
  unfold processGrant
  simp only [run_bind, run_get]
  split
  · exact .kept _ _ (by simp)
  · next notBelow =>
    split
    · exact .kept _ _ (by simp)
    · next members chain =>
      split
      · exact .kept _ _ (by simp)
      · next verified =>
        obtain ⟨_, n, epoch⟩ := verifyChainToEpoch_inRange chain
        obtain ⟨s', put⟩ : ∃ s', s.putMembershipGrant g = .ok s' :=
          ⟨_, putMembershipGrant_eq_ok.mpr ⟨n, epoch, rfl⟩⟩
        rw [run_bind, storageWrite_run, put]
        exact .grant g _ members (UInt64.not_lt.mp notBelow) chain verified put

private theorem processAudit_handled (ctx : SyncContext) (s : Storage) (a : AuditObject) :
    Handled P ctx s (.audit a) (valueOf ((processAudit P ctx a).run s))
      (finalState ((processAudit P ctx a).run s)) := by
  unfold processAudit
  split
  · exact .kept _ _ (by simp)
  · next parsed =>
    split
    · exact .kept _ _ (by simp)
    · next own =>
      split
      · exact .kept _ _ (by simp)
      · next verified =>
        refine .audit a (not_not.mp own) ?_
        simp [verifySigned, parsed, verified]

private theorem processKeyset_handled (ctx : SyncContext) (s : Storage) (blob : Bytes) :
    Handled P ctx s (.keyset blob) (valueOf ((processKeyset blob).run s))
      (finalState ((processKeyset blob).run s)) := by
  unfold processKeyset
  split
  · exact .kept _ _ (by simp)
  · rw [run_bind, readM_run]
    cases keysetGenFloor s with
    | error => exact .kept _ _ (by simp [Except.mapError])
    | ok =>
      simp only [Except.mapError]
      split
      · exact .kept _ _ (by simp)
      · exact .kept _ _ (by simp)

private theorem processAccountState_handled (ctx : SyncContext) (s : Storage)
    (a : AccountStateObject) :
    Handled P ctx s (.accountState a) (valueOf ((processAccountState P ctx a).run s))
      (finalState ((processAccountState P ctx a).run s)) := by
  unfold processAccountState
  split
  · exact .kept _ _ (by simp)
  · next own =>
    split
    · exact .kept _ _ (by simp)
    · next signed =>
      split
      · exact .kept _ _ (by simp)
      · next inRange =>
        obtain ⟨s', set⟩ :
            ∃ s', s.setAccountState a.authorPubkey a.version a.payload a.signature = .ok _ :=
          ⟨_, setAccountState_eq_ok.mpr ⟨⟨a.version, UInt64.not_lt.mp inRange⟩, rfl, rfl⟩⟩
        simp only [run_bind, run_get]
        split
        · next found =>
          split
          · exact .kept _ _ (by simp)
          · next newer =>
            rw [run_bind, storageWrite_run, set]
            refine .accountState a _ (not_not.mp own) signed ?_ set
            intro other found'
            cases found.symm.trans found'
            exact newer
        · next absent =>
          rw [run_bind, storageWrite_run, set]
          refine .accountState a _ (not_not.mp own) signed ?_ set
          intro _ found
          cases absent.symm.trans found

/-- Processing one object does what `Handled` lists and nothing else. -/
theorem processObject_handled (ctx : SyncContext) (s : Storage) (obj : SyncObject) :
    Handled P ctx s obj (valueOf ((processObject P ctx obj).run s))
      (finalState ((processObject P ctx obj).run s)) := by
  cases obj with
  | vault v =>
    simp only [processObject, processVault, run_bind, run_get]
    split
    · exact .kept _ _ (by simp)
    · next admitted => exact mergeVault_handled ctx (admission_eq_none.mp admitted)
  | item i => exact processItem_handled ctx s i
  | membershipManifest m => exact processManifest_handled ctx s m
  | membershipGrant g => exact processGrant_handled ctx s g
  | audit a => exact processAudit_handled ctx s a
  | keyset blob => exact processKeyset_handled ctx s blob
  | accountState a => exact processAccountState_handled ctx s a

/-! ## What the object of a step does not touch -/

/-- Every table an object's kind does not write is left as it was. -/
structure Frame (obj : SyncObject) (s s' : Storage) : Prop where
  metadata : s'.metaTable = s.metaTable
  vaults : (∀ v, obj ≠ .vault v) → s'.vaults = s.vaults
  items : (∀ i, obj ≠ .item i) → s'.items = s.items
  history : s'.itemHistory = s.itemHistory
  manifests : (∀ m, obj ≠ .membershipManifest m) →
    s'.membershipManifests = s.membershipManifests
  grants : (∀ g, obj ≠ .membershipGrant g) → s'.membershipGrants = s.membershipGrants
  auditLog : (∀ a, obj ≠ .audit a) → s'.auditLog = s.auditLog
  floors : (∀ m, obj ≠ .membershipManifest m) → s'.vaultEpochFloor = s.vaultEpochFloor
  cursors : s'.syncState = s.syncState
  anchors : s'.vaultTrustAnchor = s.vaultTrustAnchor
  accountStates : (∀ a, obj ≠ .accountState a) → s'.accountState = s.accountState
  clock : s'.now = s.now

theorem Frame.refl (obj : SyncObject) (s : Storage) : Frame obj s s :=
  ⟨rfl, fun _ => rfl, fun _ => rfl, rfl, fun _ => rfl, fun _ => rfl, fun _ => rfl, fun _ => rfl,
    rfl, rfl, fun _ => rfl, rfl⟩

theorem Handled.frame (handled : Handled P ctx s obj result s') : Frame obj s s' := by
  have same := Frame.refl obj s
  cases handled with
  | kept => exact same
  | relabelled v => exact { same with vaults := fun other => (other v rfl).elim }
  | vault v _ _ put =>
    obtain ⟨_, _, _, _, _, rfl⟩ := putVault_eq_ok.mp put
    exact { same with vaults := fun other => (other v rfl).elim }
  | item i _ _ put =>
    obtain ⟨_, _, _, _, _, rfl⟩ := putItem_eq_ok.mp put
    exact { same with items := fun other => (other i rfl).elim }
  | manifest m _ _ _ _ _ stored _ raised =>
    obtain ⟨_, _, rfl⟩ := putMembershipManifest_eq_ok.mp stored
    obtain ⟨_, _, rfl⟩ := setVaultEpochFloor_eq_ok.mp raised
    exact { same with
      manifests := fun other => (other m rfl).elim
      floors := fun other => (other m rfl).elim }
  | floorArmed m _ _ _ _ _ _ _ raised =>
    obtain ⟨_, _, rfl⟩ := setVaultEpochFloor_eq_ok.mp raised
    exact { same with floors := fun other => (other m rfl).elim }
  | grant g _ _ _ _ _ put =>
    obtain ⟨_, _, rfl⟩ := putMembershipGrant_eq_ok.mp put
    exact { same with grants := fun other => (other g rfl).elim }
  | audit a => exact { same with auditLog := fun other => (other a rfl).elim }
  | accountState a _ _ _ _ set =>
    obtain ⟨_, _, rfl⟩ := setAccountState_eq_ok.mp set
    exact { same with accountStates := fun other => (other a rfl).elim }

end UniSsh
