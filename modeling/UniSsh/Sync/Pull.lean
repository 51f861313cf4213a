import UniSsh.Sync.Object

/-!
# Pulling

`syncPull` verifies each object of an untrusted delta before it merges it: signature, epoch floor,
authority. A violation is an `Outcome`; only storage and keychain failures abort.
-/

namespace UniSsh

/-! ## Cursor keys -/

def hexDigit (n : Nat) : UInt8 :=
  if n < 10 then UInt8.ofNat (0x30 + n) else UInt8.ofNat (0x61 + (n - 10))

/-- Lowercase hex of opaque bytes. -/
def hexLower (bytes : Bytes) : Bytes :=
  bytes.flatMap fun b => [hexDigit (b.toNat / 16), hexDigit (b.toNat % 16)]

/-- A per-tenant key of the `sync_state` and `meta` tables: a name and the tenant in hex. -/
def tenantKey (name : String) (tenant : Bytes) : Bytes :=
  ascii name ++ ascii ":" ++ hexLower tenant

def pullCursorKey : Bytes → Bytes := tenantKey "sync:pull"
def pushCursorKey : Bytes → Bytes := tenantKey "sync:push"
def acctPushCursorKey : Bytes → Bytes := tenantKey "sync:acctpush"
def pushRefusedKey : Bytes → Bytes := tenantKey "sync:pushrefused.v1"
def pushForbiddenKey : Bytes → Bytes := tenantKey "sync:pushforbidden.v1"

/-! ## Context, outcomes and report -/

/-- The trusted anchors the engine does not guess. -/
structure SyncContext where
  genesisOwner : Bytes
  tenant : Bytes
  deriving DecidableEq

/-- The sample owner, synchronising with some server. -/
def Sample.context : SyncContext := { genesisOwner := Sample.ownerKey, tenant := [7] }

inductive RejectReason where
  | belowCursor
  | signatureFailed
  | authorityFailed
  | epochBelowFloor
  | generationBelowFloor
  | malformed
  deriving DecidableEq

structure Rejected where
  serverSeq : UInt64
  vaultId : Option Bytes
  reason : RejectReason
  deriving DecidableEq

structure Conflict where
  vaultId : Bytes
  itemId : Bytes
  version : UInt64
  deriving DecidableEq

/-- Pull report. -/
structure SyncReport where
  applied : UInt64 := 0
  skippedStale : UInt64 := 0
  conflicts : List Conflict := []
  rejected : List Rejected := []
  deriving DecidableEq

/-- The one entry an object makes in the report; `unchanged` makes none. -/
inductive Outcome where
  | applied
  | skippedStale
  | conflict (entry : Conflict)
  | rejected (vaultId : Option Bytes) (reason : RejectReason)
  | unchanged
  deriving DecidableEq

/-- Enters an outcome into the report. -/
def SyncReport.add (report : SyncReport) (seq : UInt64) : Outcome → SyncReport
  | .applied => { report with applied := saturatingSucc report.applied }
  | .skippedStale => { report with skippedStale := saturatingSucc report.skippedStale }
  | .conflict entry => { report with conflicts := report.conflicts ++ [entry] }
  | .rejected vaultId reason =>
    { report with rejected := report.rejected ++ [{ serverSeq := seq, vaultId, reason }] }
  | .unchanged => report

/-! ## Handlers -/

/-- Computations of the sync engine. -/
abbrev SyncM := EStateM SyncError Storage

/-- A storage write of the engine. -/
def storageWrite (f : Storage → Except StorageError Storage) : SyncM Unit :=
  writeM fun s => (f s).mapError .storage

/-- A last-writer-wins put: a version rollback is a stale object, not an error. -/
def putLww (put : Storage → Except StorageError Storage) : SyncM Outcome := fun s =>
  match put s with
  | .ok s' => .ok .applied s'
  | .error (.versionRollback _ _) => .ok .skippedStale s
  | .error e => .error (.storage e) s

/-- The trusted anchor of a vault: the pinned owner if there is one, else `own`. -/
def anchorOf (s : Storage) (vaultId own : Bytes) : Bytes :=
  match s.getVaultTrustAnchor vaultId with
  | some a => a.genesisOwnerPubkey
  | none => own

def vaultAnchor (s : Storage) (vaultId : Bytes) (ctx : SyncContext) : Bytes :=
  anchorOf s vaultId ctx.genesisOwner

/-- The stored floor, zero when there is none. -/
def epochFloor (s : Storage) (vaultId : Bytes) : UInt64 :=
  (s.getVaultEpochFloor vaultId).getD 0

section Handlers

variable (P : Primitives) (ctx : SyncContext)

/-- The checks a record passes before it is merged: signature, epoch floor, authority. -/
def admission (s : Storage) (check : Bytes → Option IntegrityFailure)
    (vaultId authorPubkey : Bytes) (keyEpoch : UInt64) : Option RejectReason :=
  let anchor := vaultAnchor s vaultId ctx
  match check anchor with
  | some .malformed => some .malformed
  | some .signatureInvalid => some .signatureFailed
  | _ =>
    if keyEpoch < epochFloor s vaultId then some .epochBelowFloor
    else
      match verifyRecordAuthority P s vaultId authorPubkey keyEpoch anchor with
      | .error _ => some .authorityFailed
      | .ok () => none

def vaultContentEq (a b : VaultRecord) : Bool :=
  a.wrappedVk = b.wrappedVk ∧ a.nameBlob = b.nameBlob ∧ a.signature = b.signature ∧
    a.authorPubkey = b.authorPubkey ∧ a.tombstone = b.tombstone

def itemContentEq (a b : ItemRecord) : Bool :=
  a.contentBlob = b.contentBlob ∧ a.wrappedItemKey = b.wrappedItemKey ∧
    a.signature = b.signature ∧ a.authorPubkey = b.authorPubkey ∧ a.tombstone = b.tombstone

def manifestContentEq (a b : MembershipManifest) : Bool :=
  a.manifestBlob = b.manifestBlob ∧ a.signature = b.signature ∧ a.authorPubkey = b.authorPubkey

/-- Adopts the binding of a vault that arrived in this tenant's delta and has no label. -/
def healBinding (stored : VaultRecord) : SyncM Unit :=
  if stored.syncTenant = [] ∧ ctx.tenant ≠ [] then
    modify fun s => s.adoptPulledBinding stored.vaultId ctx.tenant
  else pure ()

/-- The equal-version check and the merge of an admitted vault record. -/
def mergeVault (v : VaultRecord) : SyncM Outcome := do
  let s ← get
  let bound := { v with syncTenant := ctx.tenant }
  match s.getVault v.vaultId with
  | none => putLww fun s => s.putVault bound
  | some stored => do
    -- The routing label is healed whatever the version check decides.
    healBinding ctx stored
    if stored.version = v.version then
      if vaultContentEq stored v then pure .unchanged
      else pure (.conflict { vaultId := v.vaultId, itemId := [], version := v.version })
    else putLww fun s => s.putVault bound

def processVault (v : VaultRecord) : SyncM Outcome := do
  let s ← get
  match admission P ctx s (checkVaultRecord P v) v.vaultId v.authorPubkey v.keyEpoch with
  | some reason => pure (.rejected (some v.vaultId) reason)
  | none => mergeVault ctx v

/-- The equal-version check and the merge of an admitted item record. -/
def mergeItem (i : ItemRecord) : SyncM Outcome := do
  let s ← get
  match s.getItem i.vaultId i.itemId with
  | none => putLww fun s => s.putItem i
  | some stored =>
    if stored.version = i.version then
      if itemContentEq stored i then pure .unchanged
      else pure (.conflict { vaultId := i.vaultId, itemId := i.itemId, version := i.version })
    else putLww fun s => s.putItem i

def processItem (i : ItemRecord) : SyncM Outcome := do
  let s ← get
  match admission P ctx s (checkItemRecord P i) i.vaultId i.authorPubkey i.keyEpoch with
  | some reason => pure (.rejected (some i.vaultId) reason)
  | none => mergeItem i

/-- Raises the epoch floor to `epoch` when that is above it. -/
def raiseFloor (vaultId : Bytes) (floor epoch : UInt64) : SyncM Unit :=
  if floor < epoch then storageWrite fun s => s.setVaultEpochFloor vaultId epoch
  else pure ()

/-- Stores a manifest and verifies the chain over it, to be rolled back on failure. -/
def storeAndVerify (m : MembershipManifest) (anchor : Bytes) : SyncM Unit := do
  storageWrite fun s => s.putMembershipManifest m
  let s ← get
  match verifyChainToEpoch P s m.vaultId m.keyEpoch anchor with
  | .ok _ => pure ()
  | .error _ => throw (.vault .authorityInvalid)

def processManifest (m : MembershipManifest) : SyncM Outcome := do
  let s ← get
  let floor := epochFloor s m.vaultId
  if m.keyEpoch < floor then pure (.rejected (some m.vaultId) .epochBelowFloor)
  else do
    let existing ← readM fun s => (s.getMembershipManifest m.vaultId m.keyEpoch).mapError .storage
    let anchor := vaultAnchor s m.vaultId ctx
    match existing with
    | some stored =>
      if manifestContentEq stored m then
        if floor < m.keyEpoch then
          match verifyChainToEpoch P s m.vaultId m.keyEpoch anchor with
          | .error _ => pure (.rejected (some m.vaultId) .authorityFailed)
          | .ok _ => do
            raiseFloor m.vaultId floor m.keyEpoch
            pure .unchanged
        else pure .unchanged
      else pure (.conflict
        { vaultId := m.vaultId, itemId := manifestAadMarker, version := m.keyEpoch })
    | none => do
      let res ← attempt (transaction (storeAndVerify P m anchor))
      match res with
      | .ok () => do
        raiseFloor m.vaultId floor m.keyEpoch
        pure .applied
      | .error (.vault .authorityInvalid) => pure (.rejected (some m.vaultId) .authorityFailed)
      | .error e => throw e

def processGrant (g : MembershipGrant) : SyncM Outcome := do
  let s ← get
  if g.keyEpoch < epochFloor s g.vaultId then pure (.rejected (some g.vaultId) .epochBelowFloor)
  else
    match verifyChainToEpoch P s g.vaultId g.keyEpoch (vaultAnchor s g.vaultId ctx) with
    | .error _ => pure (.rejected (some g.vaultId) .authorityFailed)
    | .ok members =>
      match verifyGrant P g g.vaultId members with
      | .error _ => pure (.rejected (some g.vaultId) .authorityFailed)
      | .ok () => do
        storageWrite fun s => s.putMembershipGrant g
        pure .applied

/-- The marker in the `item_id` slot of an audit entry's associated data. -/
def auditAad (vaultId : Bytes) : AssociatedData :=
  { vaultId, itemId := ascii "__audit__", version := 0 }

def processAudit (a : AuditObject) : SyncM Outcome :=
  match verifyingKeyFromBytes P a.authorPubkey with
  | .error _ => pure (.rejected (some a.vaultId) .malformed)
  | .ok author =>
    if a.authorPubkey ≠ ctx.genesisOwner then
      pure (.rejected (some a.vaultId) .authorityFailed)
    else
      match verifyVersion P author (.fromContent P (auditAad a.vaultId) a.entryBlob)
          a.signature with
      | .error _ => pure (.rejected (some a.vaultId) .signatureFailed)
      | .ok () => do
        modify fun s => s.appendAudit a.entryBlob a.signature a.authorPubkey
        pure .applied

/-- A keyset is only checked against the generation floor; its header is unauthenticated. -/
def processKeyset (blob : Bytes) : SyncM Outcome :=
  match EncryptedKeyset.fromBytes blob with
  | .error _ => pure (.rejected none .malformed)
  | .ok record => do
    let floor ← readM fun s => (keysetGenFloor s).mapError .keychain
    if record.generation.toUInt64 < floor.getD 0 then
      pure (.rejected none .generationBelowFloor)
    else pure .unchanged

/-- `unissh_vault::verify_account_state`. -/
def verifyAccountState (authorPubkey : Bytes) (version : UInt64) (payload signature : Bytes) :
    Except VaultError Unit :=
  match verifyingKeyFromBytes P authorPubkey with
  | .error _ => .error .format
  | .ok author =>
    match verifyAccountStateSig P author version payload signature with
    | .error _ => .error .signatureInvalid
    | .ok () => .ok ()

def processAccountState (a : AccountStateObject) : SyncM Outcome := do
  if a.authorPubkey ≠ ctx.genesisOwner then pure (.rejected none .authorityFailed)
  else
    match verifyAccountState P a.authorPubkey a.version a.payload a.signature with
    | .error _ => pure (.rejected none .signatureFailed)
    | .ok () =>
      -- A version storage cannot hold is a reject here, so that it cannot abort the pull.
      if i64Max < a.version then pure (.rejected none .malformed)
      else do
        let s ← get
        match s.getAccountState a.authorPubkey with
        | some stored =>
          if a.version < stored.version ∨
              (a.version = stored.version ∧ a.signature ≤ stored.signature) then
            pure .skippedStale
          else do
            storageWrite fun s =>
              s.setAccountState a.authorPubkey a.version a.payload a.signature
            pure .applied
        | none => do
          storageWrite fun s =>
            s.setAccountState a.authorPubkey a.version a.payload a.signature
          pure .applied

/-- Verify-before-apply of a single object. -/
def processObject : SyncObject → SyncM Outcome
  | .vault v => processVault P ctx v
  | .item i => processItem P ctx i
  | .membershipManifest m => processManifest P ctx m
  | .membershipGrant g => processGrant P ctx g
  | .audit a => processAudit P ctx a
  | .keyset b => processKeyset b
  | .accountState a => processAccountState P ctx a

end Handlers

/-! ## Pull -/

/-- An untrusted sync server, as a state machine: its answers may depend on anything. -/
structure SyncTransport (τ : Type) where
  pushObjects : τ → List SyncObject → Except SyncError (List UInt64) × τ
  deltaSince : τ → UInt64 → List (UInt64 × SyncObject) × τ
  reportVersion : τ → UInt64

/-- The engine's own order on delivered objects: sequence number, then encoded bytes. -/
def sortDelta (delta : List (UInt64 × SyncObject)) : List (UInt64 × SyncObject) :=
  let key (entry : UInt64 × SyncObject) : UInt64 × Bytes :=
    (entry.1, entry.2.toBytes.toOption.getD [])
  delta.insertionSort fun a b => (compare (key a) (key b)).isLE

/-- Raises the cursor to `target` and persists it. -/
def advanceCursor (cursorKey : Bytes) (cursor target : UInt64) : SyncM UInt64 :=
  if target < cursor then throw (.cursorRollback cursor target)
  else do
    storageWrite fun s => s.setSyncCursor cursorKey target
    pure target

/-- Advances the cursor past a processed object, forward only. -/
def passCursor (cursorKey : Bytes) (cursor seq : UInt64) : SyncM UInt64 :=
  if cursor < seq then advanceCursor cursorKey cursor seq else pure cursor

section Pull

variable (P : Primitives) (ctx : SyncContext)

/-- Processes one sorted page that was asked for from `floor`. -/
def pullPage (floor : UInt64) : List (UInt64 × SyncObject) → UInt64 → SyncReport →
    SyncM (UInt64 × SyncReport)
  | [], cursor, report => pure (cursor, report)
  | (seq, obj) :: rest, cursor, report =>
    if seq ≤ floor then
      pullPage floor rest cursor (report.add seq (.rejected obj.vaultId .belowCursor))
    else do
      let outcome ← processObject P ctx obj
      let cursor ← passCursor (pullCursorKey ctx.tenant) cursor seq
      pullPage floor rest cursor (report.add seq outcome)

/-- A page never moves the cursor back. -/
theorem pullPage_cursor_le
    (ran : (pullPage P ctx floor page cursor report).run s = .ok (cursor', report') s') :
    cursor ≤ cursor' := by
  induction page generalizing cursor report s with
  | nil =>
    simp only [pullPage, EStateM.run_pure] at ran
    cases ran
    exact UInt64.le_refl _
  | cons entry _ ih =>
    obtain ⟨seq, _⟩ := entry
    unfold pullPage at ran
    split at ran
    · exact ih ran
    · obtain ⟨_, _, -, ran⟩ := bind_run_ok ran
      obtain ⟨next, _, moved, ran⟩ := bind_run_ok ran
      have later := ih ran
      unfold passCursor at moved
      split at moved
      · next above =>
        have notBelow : ¬ seq < cursor := UInt64.not_lt.mpr (UInt64.le_of_lt above)
        simp only [advanceCursor, notBelow, if_false] at moved
        obtain ⟨_, _, _, returned⟩ := bind_run_ok moved
        simp only [EStateM.run_pure] at returned
        cases returned
        exact UInt64.le_trans (UInt64.le_of_lt above) later
      · simp only [EStateM.run_pure] at moved
        cases moved
        exact later

/-- The page loop: it ends on an empty page and on one that moved nothing. -/
def pullPages {τ : Type} (T : SyncTransport τ) (cursor : UInt64) (report : SyncReport) (t : τ)
    (s : Storage) : EStateM.Result SyncError Storage SyncReport :=
  match T.deltaSince t cursor with
  | ([], _) => .ok report s
  | (delta, t) =>
    match _ran : (pullPage P ctx cursor (sortDelta delta) cursor report).run s with
    | .error e s => .error e s
    | .ok (cursor', report) s =>
      if _moved : cursor' = cursor then .ok report s
      else pullPages T cursor' report t s
termination_by 2 ^ 64 - cursor.toNat
decreasing_by
  have le := UInt64.le_iff_toNat_le.mp (pullPage_cursor_le P ctx _ran)
  have ne : cursor'.toNat ≠ cursor.toNat := fun same => _moved (UInt64.toNat_inj.mp same)
  have bound := cursor'.toNat_lt
  omega

/-- Pulls the delta of the untrusted transport and applies verify-before-apply. -/
def syncPull {τ : Type} (T : SyncTransport τ) (t : τ) : SyncM SyncReport := fun s =>
  let last := (s.getSyncCursor (pullCursorKey ctx.tenant)).getD 0
  if T.reportVersion t < last then
    .error (.transportRollback (T.reportVersion t) last) s
  else pullPages P ctx T last {} t s

/-- Processes already-fetched objects in the order given, without a cursor. -/
def applyAll : List (UInt64 × SyncObject) → SyncReport → SyncM SyncReport
  | [], report => pure report
  | (seq, obj) :: rest, report => do
    let outcome ← processObject P ctx obj
    applyAll rest (report.add seq outcome)

/-- Applies a fetched set of objects through the same path, leaving the cursor alone. -/
def applyPulledObjects (objects : List (UInt64 × SyncObject)) : SyncM SyncReport :=
  applyAll P ctx (sortDelta objects) {}

end Pull

end UniSsh
