import UniSsh.Vault.OwnVault

/-!
# The integrity audit of a vault

`Vault::verify_chain` checks signature and authority of every signed row. A membership change
leaves the archived versions at their epoch, so the owner's audit is clean exactly while
everything archived is at the current one.
-/

namespace UniSsh

open Option List Storage

/-- Archived versions of a vault, by item and newest first. -/
def Storage.listAllHistory (s : Storage) (vaultId : Bytes) : List ItemRecord :=
  (s.itemHistory.filter fun r => r.vaultId = vaultId).insertionSort fun a b =>
    compare a.itemId b.itemId = .lt ∨ (a.itemId = b.itemId ∧ b.version ≤ a.version)

/-- One problematic record; the vault record has an empty item id. -/
structure IntegrityIssue where
  itemId : Bytes
  version : UInt64
  tombstone : Bool
  failure : IntegrityFailure
  deriving DecidableEq

structure IntegrityReport where
  ok : Bool
  checked : UInt64
  issues : List IntegrityIssue
  deriving DecidableEq

section Audit

variable (P : Primitives)

/-- A record's structure and signature: `item_sig_failure` and `vault_sig_failure`. -/
def sigFailure (authorPubkey : Bytes) (aad : AssociatedData) (content signature : Bytes) :
    Option IntegrityFailure :=
  match verifyingKeyFromBytes P authorPubkey with
  | .error _ => some .malformed
  | .ok author =>
    match verifyVersion P author (.fromContent P aad content) signature with
    | .error _ => some .signatureInvalid
    | .ok () => none

def itemSigFailure (record : ItemRecord) : Option IntegrityFailure :=
  sigFailure P record.authorPubkey (itemAad record.vaultId record.itemId record.version)
    record.contentBlob record.signature

def vaultSigFailure (record : VaultRecord) : Option IntegrityFailure :=
  sigFailure P record.authorPubkey (vaultRecordAad record.vaultId record.version)
    (vaultSignedContent record.wrappedVk record.nameBlob) record.signature

/-- The author's authority, in the mode the vault is in. -/
def checkRecordAuthority (s : Storage) (vaultId authorPubkey : Bytes) (recordEpoch : UInt64)
    (trustedOwner : Bytes) : Option IntegrityFailure :=
  if vaultIsMembershipMode s vaultId then
    match verifyRecordAuthority P s vaultId authorPubkey recordEpoch trustedOwner with
    | .ok () => none
    | .error _ => some .notAuthorized
  else if authorPubkey = trustedOwner then none
  else some .authorMismatch

/-- What is wrong with the vault record. -/
def Vault.auditRecord (vault : Vault) (s : Storage) (record : VaultRecord) :
    Option IntegrityIssue :=
  let failure := (vaultSigFailure P record).or
    (checkRecordAuthority P s vault.vaultId record.authorPubkey record.keyEpoch
      vault.genesisOwner)
  failure.map fun failure =>
    { itemId := [], version := record.version, tombstone := record.tombstone, failure }

/-- What is wrong with an item, a tombstone or an archived version. -/
def Vault.auditItem (vault : Vault) (s : Storage) (record : ItemRecord) : Option IntegrityIssue :=
  let failure := (itemSigFailure P record).or
    (checkRecordAuthority P s vault.vaultId record.authorPubkey record.keyEpoch
      vault.genesisOwner)
  failure.map fun failure =>
    { itemId := record.itemId, version := record.version, tombstone := record.tombstone, failure }

/-- Audits the record, the items and the archived versions, anchored on the trusted owner. -/
def Vault.verifyChain (vault : Vault) (s : Storage) : IntegrityReport :=
  let record := (s.getVault vault.vaultId).toList
  let items := s.listItemsIncludingTombstones vault.vaultId ++ s.listAllHistory vault.vaultId
  let issues := record.filterMap (vault.auditRecord P s) ++ items.filterMap (vault.auditItem P s)
  { ok := issues.isEmpty
    checked := items.foldl (fun checked _ => saturatingSucc checked)
      (record.foldl (fun checked _ => saturatingSucc checked) 0)
    issues }

/-! ## Clean records -/

variable {P} {s : Storage} {vault : Vault} {own vaultId : Bytes} {epoch : UInt64}

variable {authorPubkey : Bytes} {record : ItemRecord}

theorem sigFailure_eq_none :
    sigFailure P authorPubkey aad content signature = none ↔
      verifySigned P authorPubkey aad content signature = .ok () := by
  unfold sigFailure verifySigned
  cases verifyingKeyFromBytes P authorPubkey with
  | error => simp
  | ok author =>
    dsimp only
    cases verifyVersion P author (.fromContent P aad content) signature <;> simp

/-- The audit asks for what the read path asks for. -/
theorem checkRecordAuthority_eq_none :
    checkRecordAuthority P s vaultId authorPubkey recordEpoch trustedOwner = none ↔
      verifyRecordAuthority P s vaultId authorPubkey recordEpoch trustedOwner = .ok () := by
  unfold checkRecordAuthority
  cases mode : vaultIsMembershipMode s vaultId with
  | false =>
    by_cases isOwner : authorPubkey = trustedOwner <;> simp [verifyRecordAuthority, mode, isOwner]
  | true =>
    rw [if_pos rfl]
    cases verifyRecordAuthority P s vaultId authorPubkey recordEpoch trustedOwner <;> simp

theorem auditItem_eq_none :
    vault.auditItem P s record = none ↔
      verifySigned P record.authorPubkey (itemAad record.vaultId record.itemId record.version)
        record.contentBlob record.signature = .ok () ∧
      verifyRecordAuthority P s vault.vaultId record.authorPubkey record.keyEpoch
        vault.genesisOwner = .ok () := by
  rw [Vault.auditItem, map_eq_none_iff, or_eq_none_iff, itemSigFailure,
    sigFailure_eq_none, checkRecordAuthority_eq_none]

theorem verifyChain_clean_iff_rows :
    ((vault.verifyChain P s).ok = true ∧ (vault.verifyChain P s).issues = []) ↔
      (∀ r, s.getVault vault.vaultId = some r → vault.auditRecord P s r = none) ∧
      (∀ itemId r, s.getItem vault.vaultId itemId = some r → vault.auditItem P s r = none) ∧
      ∀ h ∈ s.itemHistory, h.vaultId = vault.vaultId → vault.auditItem P s h = none := by
  have isOk : (vault.verifyChain P s).ok = (vault.verifyChain P s).issues.isEmpty := rfl
  rw [isOk, List.isEmpty_iff, and_self]
  simp only [Vault.verifyChain, List.append_eq_nil_iff, List.filterMap_eq_nil_iff,
    List.mem_append, mem_toList, listAllHistory,
    List.mem_insertionSort, List.mem_filter, decide_eq_true_eq, mem_listItemsIncludingTombstones]
  constructor
  · rintro ⟨record, rows⟩
    refine ⟨record, fun itemId r found => ?_, fun h archived ofVault =>
      rows h (.inr ⟨archived, ofVault⟩)⟩
    obtain ⟨row, present, rfl⟩ := map_eq_some_iff.mp found
    exact rows _ (.inl ⟨itemId, row, present, rfl⟩)
  · rintro ⟨record, items, history⟩
    refine ⟨record, fun r listed => ?_⟩
    rcases listed with ⟨itemId, _, present, rfl⟩ | ⟨archived, ofVault⟩
    · exact items itemId _ (by rw [getItem, present]; rfl)
    · exact history r archived ofVault

end Audit

/-! ## Runs of the owner -/

/-- A vault is created where nothing of it was stored, and operated on with the last handle. -/
inductive OwnerRun (P : Primitives) (keyset : UnlockedKeyset) (vaultId : Bytes)
    (allowed : Storage → OwnerOperation → Prop) : Storage → Vault → Prop where
  | create {s s' : Storage} {vault : Vault} (name : Bytes) (syncTarget : SyncTarget)
      (draws : Draws) (fresh : s.HoldsNothing vaultId)
      (ran : (createWithTarget P keyset vaultId name syncTarget draws).run s = .ok vault s') :
      OwnerRun P keyset vaultId allowed s' vault
  | operate {s s' : Storage} {vault vault' : Vault} (op : OwnerOperation)
      (before : OwnerRun P keyset vaultId allowed s vault)
      (keepsOwner : op.KeepsOwner (keyset.verifying P)) (permitted : allowed s op)
      (ran : (op.run P vault).run s = .ok vault' s') : OwnerRun P keyset vaultId allowed s' vault'
  | elapse {s : Storage} {vault : Vault} (now : Int64)
      (before : OwnerRun P keyset vaultId allowed s vault) :
      OwnerRun P keyset vaultId allowed { s with now } vault

/-- A membership change meets no archived version of the vault. -/
def ChangesUnarchived (vaultId : Bytes) (s : Storage) (op : OwnerOperation) : Prop :=
  op.newMembers.isSome → ∀ h ∈ s.itemHistory, h.vaultId ≠ vaultId

section Runs

variable {P : Primitives} {keyset : UnlockedKeyset} {vaultId : Bytes}
  {allowed : Storage → OwnerOperation → Prop} {s s' : Storage} {own : Bytes} {epoch : UInt64}

/-- Archived versions of the vault are the owner's, of some of the epochs. -/
def HistoryOwned (P : Primitives) (own vaultId : Bytes) (epochs : UInt64 → Prop) (s : Storage) :
    Prop :=
  ∀ h ∈ s.itemHistory, h.vaultId = vaultId → ∃ e, epochs e ∧ h.OwnedBy P own e

theorem HistoryOwned.edits {epochs : UInt64 → Prop} (archived : HistoryOwned P own vaultId epochs s)
    (current : epochs epoch) (isOwn : OwnVault P own vaultId epoch s)
    (edits : OwnerEdits P own vaultId epoch s s') : HistoryOwned P own vaultId epochs s' := by
  induction edits with
  | refl => exact archived
  | tail earlier edit ih =>
    intro h inHistory ofVault
    rcases edit.history inHistory with old | ⟨itemId, found⟩
    · exact ih h old ofVault
    · exact ⟨epoch, current, (isOwn.edits earlier).items itemId h found⟩

/-- A membership change raises the epoch. -/
theorem OwnEpoch.lt_reanchored {next : UInt64} (atEpoch : OwnEpoch P own vaultId s epoch)
    (reanchored : Reanchored P own vaultId next s s') : epoch < next := by
  obtain ⟨_, -, -, -, succeeds, -⟩ := reanchored.manifest
  cases atEpoch with
  | alone noManifest =>
    cases succeeds with
    | first => decide
    | next isLatest => cases noManifest.symm.trans isLatest
  | shared latest => exact succeeds.above (latestMembershipEpoch_eq_some.mp latest).1

/-- Every run has its handle and rows at one epoch, and what is archived `within` it. -/
theorem OwnerRun.reaches (within : UInt64 → UInt64 → Prop) (current : ∀ e, within e e)
    (moves : ∀ s op e e', allowed s op → op.newMembers.isSome → e < e' →
      HistoryOwned P (keyset.verifying P) vaultId (within e) s →
      HistoryOwned P (keyset.verifying P) vaultId (within e') s)
    {vault : Vault} (run : OwnerRun P keyset vaultId allowed s vault) :
    ∃ epoch, OwnVault P (keyset.verifying P) vaultId epoch s ∧
      vault.Handles P keyset vaultId epoch ∧
      HistoryOwned P (keyset.verifying P) vaultId (within epoch) s := by
  induction run with
  | create _ _ _ fresh ran =>
    obtain ⟨handles, _, -, -, -, -, -, frame⟩ := createWithTarget_run_ok ran
    refine ⟨0, .created fresh ran, handles, fun h archived ofVault => ?_⟩
    rw [frame] at archived
    exact (fresh.history h archived ofVault).elim
  | operate op _ keepsOwner permitted ran ih =>
    obtain ⟨epoch, isOwn, handles, archived⟩ := ih
    rcases OwnerOperation.run_ok isOwn handles keepsOwner ran with
      ⟨-, edits, handles'⟩ | ⟨changes, next, reanchored, handles'⟩
    · exact ⟨epoch, isOwn.edits edits, handles', archived.edits (current epoch) isOwn edits⟩
    · have raised := isOwn.atEpoch.lt_reanchored reanchored
      refine ⟨next, isOwn.reanchored reanchored, handles', fun h inHistory => ?_⟩
      rw [reanchored.frame] at inHistory
      exact moves _ op epoch next permitted changes raised archived h inHistory
  | elapse _ _ ih =>
    obtain ⟨epoch, isOwn, handles, archived⟩ := ih
    exact ⟨epoch, ⟨isOwn.unpinned, isOwn.atEpoch.congr rfl rfl, isOwn.record, isOwn.items⟩,
      handles, archived⟩

theorem OwnEpoch.unauthorised_below (atEpoch : OwnEpoch P own vaultId s epoch) (below : e < epoch)
    (authorPubkey : Bytes) :
    verifyRecordAuthority P s vaultId authorPubkey e own ≠ .ok () := by
  rw [Ne, verifyRecordAuthority_eq_ok]
  cases atEpoch with
  | alone => exact absurd below UInt64.not_lt_zero
  | shared latest floor =>
    rintro (⟨single, -⟩ | ⟨-, above, -⟩)
    · simp [vaultIsMembershipMode, latest] at single
    · simp only [recordEpochFloor, latest, floor, getD_some, Std.max_self] at above
      exact UInt64.not_lt.mpr above below

/-- In the owner's hands a vault's audit is clean exactly while everything archived is at the
current epoch. -/
theorem OwnVault.audit_clean_iff {vault : Vault}
    (isOwn : OwnVault P (keyset.verifying P) vaultId epoch s)
    (handles : vault.Handles P keyset vaultId epoch)
    (archived : HistoryOwned P (keyset.verifying P) vaultId (· ≤ epoch) s) :
    ((vault.verifyChain P s).ok = true ∧ (vault.verifyChain P s).issues = []) ↔
      ∀ h ∈ s.itemHistory, h.vaultId = vaultId → h.keyEpoch = epoch := by
  obtain ⟨-, rfl, -, isOwner⟩ := handles
  have authorised := isOwn.atEpoch.authority isOwn.unpinned
  have cleanItem : ∀ r : ItemRecord, r.OwnedBy P (keyset.verifying P) epoch →
      vault.auditItem P s r = none := fun r owned => by
    rw [auditItem_eq_none, isOwner, owned.author, owned.epoch]
    exact ⟨owned.author ▸ owned.signed, authorised⟩
  rw [verifyChain_clean_iff_rows]
  constructor
  · rintro ⟨-, -, clean⟩ h inHistory ofVault
    obtain ⟨e, within, owned⟩ := archived h inHistory ofVault
    have authorised := (auditItem_eq_none.mp (clean h inHistory ofVault)).2
    rw [isOwner, owned.epoch] at authorised
    rw [owned.epoch]
    refine UInt64.le_antisymm within (UInt64.not_lt.mp fun below => ?_)
    exact isOwn.atEpoch.unauthorised_below below _ authorised
  · intro atEpoch
    refine ⟨fun r found => ?_, fun itemId r found => cleanItem r (isOwn.items itemId r found),
      fun h inHistory ofVault => cleanItem h ?_⟩
    · obtain ⟨_, found', owned⟩ := isOwn.record
      cases found.symm.trans found'
      rw [Vault.auditRecord, map_eq_none_iff, or_eq_none_iff, vaultSigFailure,
        sigFailure_eq_none, checkRecordAuthority_eq_none, isOwner, owned.author, owned.epoch]
      exact ⟨owned.author ▸ owned.signed, authorised⟩
    · obtain ⟨e, -, owned⟩ := archived h inHistory ofVault
      obtain rfl : e = epoch := owned.epoch.symm.trans (atEpoch h inHistory ofVault)
      exact owned

/-- The audit is clean exactly when all archived versions are at the current epoch. -/
theorem own_operations_keep_the_audit_clean :
    (∀ s vault, OwnerRun P keyset vaultId (fun _ _ => True) s vault →
      ((vault.verifyChain P s).ok = true ∧ (vault.verifyChain P s).issues = [] ↔
        ∀ h ∈ s.itemHistory, h.vaultId = vaultId → h.keyEpoch = vault.keyEpoch)) ∧
    ∀ s vault, OwnerRun P keyset vaultId (ChangesUnarchived vaultId) s vault →
      (vault.verifyChain P s).ok = true ∧ (vault.verifyChain P s).issues = [] := by
  constructor
  · intro s vault run
    obtain ⟨epoch, isOwn, handles, archived⟩ := run.reaches (fun e e' => e' ≤ e)
      UInt64.le_refl fun _ _ _ _ _ _ raised archived h inHistory ofVault => by
        obtain ⟨e, within, owned⟩ := archived h inHistory ofVault
        exact ⟨e, UInt64.le_trans within (UInt64.le_of_lt raised), owned⟩
    rw [handles.atEpoch]
    exact isOwn.audit_clean_iff handles archived
  · intro s _ run
    obtain ⟨_, isOwn, handles, archived⟩ := run.reaches (fun e e' => e' = e)
      (fun _ => rfl) fun _ _ _ _ unarchived changes _ _ h inHistory ofVault =>
        (unarchived changes h inHistory ofVault).elim
    refine (isOwn.audit_clean_iff handles fun h inHistory ofVault => ?_).mpr
      fun h inHistory ofVault => ?_
    · obtain ⟨e, rfl, owned⟩ := archived h inHistory ofVault
      exact ⟨e, UInt64.le_refl _, owned⟩
    · obtain ⟨e, rfl, owned⟩ := archived h inHistory ofVault
      exact owned.epoch

end Runs

/-! ## Sample runs -/

namespace Sample

/-- An opened vault and the storage. -/
abbrev Desk := Vault × Storage

/-- Where an operation leads; nowhere when it fails. -/
def perform (desk : Desk) (op : OwnerOperation) : Option Desk :=
  match (op.run .transparent desk.1).run desk.2 with
  | .ok vault s => some (vault, s)
  | .error _ _ => none

/-- The owner's new vault. -/
def created : Option Desk :=
  match (createWithTarget .transparent owner vaultId [1] .cloud draws).run {} with
  | .ok vault s => some (vault, s)
  | .error _ _ => none

def nonces : Draws := fun _ => replicate nonceLen 0

/-- The first membership, of the owner alone. -/
def establishAlone : OwnerOperation :=
  .establish owner [{ ed25519Pub := ownerKey, role := .admin }] [] nonces 0

/-- An item written twice before the membership is established. -/
def archivedBefore : Option Desk := do
  let desk ← created
  let desk ← perform desk (.putItemKeepHistory [4] 0 [5] draws)
  let desk ← perform desk (.putItemKeepHistory [4] 0 [6] draws)
  perform desk establishAlone

/-- An item written before the membership is established and archived after it. -/
def writtenBefore : Option Desk := do
  let desk ← created
  perform desk (.putItem [4] 0 [5] draws)

def archivedAfter : Option Desk := do
  let desk ← writtenBefore
  let desk ← perform desk establishAlone
  let desk ← perform desk (.putItemKeepHistory [4] 0 [6] draws)
  perform desk (.setName [2] nonces)

variable {allowed : Storage → OwnerOperation → Prop} {desk desk' : Desk}

theorem created_run (reached : created = some desk) :
    OwnerRun .transparent owner vaultId allowed desk.2 desk.1 := by
  unfold created at reached
  split at reached
  · next ran =>
    cases reached
    refine .create [1] .cloud draws ⟨rfl, fun _ => rfl, ?_, fun _ => rfl, rfl, rfl⟩ ran
    exact fun _ archived => (not_mem_nil archived).elim
  · cases reached

variable {op : OwnerOperation}

theorem perform_run (before : OwnerRun .transparent owner vaultId allowed desk.2 desk.1)
    (keepsOwner : op.KeepsOwner ownerKey) (permitted : allowed desk.2 op)
    (reached : perform desk op = some desk') :
    OwnerRun .transparent owner vaultId allowed desk'.2 desk'.1 := by
  unfold perform at reached
  split at reached
  · next ran =>
    cases reached
    exact .operate op before keepsOwner permitted ran
  · cases reached

theorem keepsOwner_of_none (same : op.newMembers = none) : op.KeepsOwner ownerKey := by
  intro _ changed
  cases same.symm.trans changed

theorem establishAlone_keepsOwner : establishAlone.KeepsOwner ownerKey := by
  intro _ changed
  cases changed
  exact mem_singleton_self _

theorem archivedBefore_run (reached : archivedBefore = some desk) :
    OwnerRun .transparent owner vaultId (fun _ _ => True) desk.2 desk.1 := by
  rw [archivedBefore] at reached
  obtain ⟨_, first, reached⟩ := bind_eq_some_iff.mp reached
  obtain ⟨_, second, reached⟩ := bind_eq_some_iff.mp reached
  obtain ⟨_, third, reached⟩ := bind_eq_some_iff.mp reached
  have start : OwnerRun .transparent owner vaultId (fun _ _ => True) _ _ := created_run first
  have once := perform_run start (keepsOwner_of_none rfl) trivial second
  have twice := perform_run once (keepsOwner_of_none rfl) trivial third
  exact perform_run twice establishAlone_keepsOwner trivial reached

theorem archivedAfter_run (reached : archivedAfter = some desk) :
    OwnerRun .transparent owner vaultId (ChangesUnarchived vaultId) desk.2 desk.1 := by
  rw [archivedAfter] at reached
  obtain ⟨written, isWritten, reached⟩ := bind_eq_some_iff.mp reached
  obtain ⟨_, third, reached⟩ := bind_eq_some_iff.mp reached
  obtain ⟨_, fourth, last⟩ := bind_eq_some_iff.mp reached
  have unarchived : writtenBefore.map (fun desk => desk.2.itemHistory) = some [] := by
    rfl
  rw [isWritten] at unarchived
  have noHistory : written.2.itemHistory = [] := Option.some.inj unarchived
  rw [writtenBefore] at isWritten
  obtain ⟨_, first, second⟩ := bind_eq_some_iff.mp isWritten
  have unchanged {s : Storage} {op : OwnerOperation} (same : op.newMembers = none) :
      ChangesUnarchived vaultId s op := fun changes => by simp [same] at changes
  have start : OwnerRun .transparent owner vaultId (ChangesUnarchived vaultId) _ _ :=
    created_run first
  have before := perform_run start (keepsOwner_of_none rfl) (unchanged rfl) second
  have established := perform_run before establishAlone_keepsOwner
    (fun _ h archived => by
      rw [noHistory] at archived
      exact (not_mem_nil archived).elim) third
  have edited := perform_run established (keepsOwner_of_none rfl) (unchanged rfl)
    fourth
  exact perform_run edited (keepsOwner_of_none rfl) (unchanged rfl) last

end Sample

open Sample

/-- A version archived before the first membership is flagged ever after. -/
theorem membership_change_flags_archived_version :
    ∃ s vault, OwnerRun .transparent owner vaultId (fun _ _ => True) s vault ∧
      vault.verifyChain .transparent s =
        { ok := false
          checked := 3
          issues := [{ itemId := [4], version := 1, tombstone := false,
                       failure := .notAuthorized }] } := by
  have report : archivedBefore.map (fun desk => desk.1.verifyChain .transparent desk.2) =
      some ⟨false, 3, [⟨[4], 1, false, .notAuthorized⟩]⟩ := by decide +kernel
  obtain ⟨desk, reached, audited⟩ := map_eq_some_iff.mp report
  exact ⟨desk.2, desk.1, archivedBefore_run reached, audited⟩

/-- A version archived after it is not. -/
theorem own_operations_keep_the_audit_clean_after_membership :
    ∃ s vault, OwnerRun .transparent owner vaultId (ChangesUnarchived vaultId) s vault ∧
      s.itemHistory.length = 1 ∧
      (vault.verifyChain .transparent s).ok = true ∧
      (vault.verifyChain .transparent s).issues = [] := by
  have length : archivedAfter.map (fun desk => desk.2.itemHistory.length) = some 1 := by
    decide +kernel
  obtain ⟨desk, reached, archived⟩ := map_eq_some_iff.mp length
  have run := archivedAfter_run reached
  exact ⟨desk.2, desk.1, run, archived, own_operations_keep_the_audit_clean.2 desk.2 desk.1 run⟩

end UniSsh
