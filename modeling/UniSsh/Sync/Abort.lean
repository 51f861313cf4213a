import UniSsh.Sync.VerifyBeforeApply

/-!
# What can abort a pull

Storage refuses a number above `i64::MAX`, and only account states are checked for that before:
any other such number ends the whole pull, and nothing else does (`syncPull_completes_iff`).
-/

namespace UniSsh

open List

open EStateM (run_bind run_get)

open Storage

variable {P : Primitives} {ctx : SyncContext} {s s' : Storage}

/-! ## One object -/

/-- The number of an object that storage refuses with an error the engine passes on. -/
def Unstorable (P : Primitives) (ctx : SyncContext) (s : Storage) : SyncObject → Prop
  | .vault v => VaultAdmitted P ctx s v ∧
      (∀ stored, s.getVault v.vaultId = some stored → stored.version ≠ v.version) ∧
      (i64Max < v.version ∨ i64Max < v.keyEpoch)
  | .item i => ItemAdmitted P ctx s i ∧
      (∀ stored, s.getItem i.vaultId i.itemId = some stored → stored.version ≠ i.version) ∧
      (i64Max < i.version ∨ i64Max < i.keyEpoch)
  | .membershipManifest m => i64Max < m.keyEpoch
  | _ => False

/-- The computation returns a value. -/
def Returns {ε σ α : Type} (result : EStateM.Result ε σ α) : Prop := ∃ value s, result = .ok value s

theorem returns_ok {ε σ α : Type} (value : α) (s : σ) :
    Returns (.ok value s : EStateM.Result ε σ α) := ⟨value, s, rfl⟩

theorem not_returns_error {ε σ α : Type} (e : ε) (s : σ) :
    ¬ Returns (.error e s : EStateM.Result ε σ α) := by
  rintro ⟨_, _, impossible⟩
  cases impossible

/-- A last-writer-wins put returns unless a number is out of range: an older version is an
outcome. -/
theorem putLww_returns {put : Storage → Except StorageError Storage} :
    Returns ((putLww put).run s) ↔ put s ≠ .error .versionOutOfRange := by
  rw [putLww_run]
  cases put s with
  | ok => simp [returns_ok]
  | error e =>
    cases e with
    | versionRollback => simp [returns_ok]
    | versionOutOfRange => simp [not_returns_error]

theorem checkedPair_outOfRange {f : SqlInt → SqlInt → Except StorageError Storage}
    (fits : ∀ a b, f a b ≠ .error .versionOutOfRange) :
    (do let a ← checkedVersion version; let b ← checkedVersion keyEpoch; f a b) =
        .error .versionOutOfRange ↔ i64Max < version ∨ i64Max < keyEpoch := by
  cases first : checkedVersion version with
  | error =>
    obtain ⟨above, rfl⟩ := checkedVersion_eq_error.mp first
    simp [above]
  | ok a =>
    have within : ¬ i64Max < version := by
      rw [← checkedVersion_eq_ok.mp first]
      exact UInt64.not_lt.mpr a.inRange
    cases second : checkedVersion keyEpoch with
    | error =>
      obtain ⟨above, rfl⟩ := checkedVersion_eq_error.mp second
      simp [above]
    | ok b =>
      have within' : ¬ i64Max < keyEpoch := by
        rw [← checkedVersion_eq_ok.mp second]
        exact UInt64.not_lt.mpr b.inRange
      simp [within, within', fits a b]

theorem putVault_outOfRange :
    s.putVault v = .error .versionOutOfRange ↔ i64Max < v.version ∨ i64Max < v.keyEpoch := by
  apply checkedPair_outOfRange
  intro a b
  split <;> simp

theorem putItem_outOfRange :
    s.putItem i = .error .versionOutOfRange ↔ i64Max < i.version ∨ i64Max < i.keyEpoch := by
  apply checkedPair_outOfRange
  intro a b
  split <;> simp

private theorem processVault_returns (ctx : SyncContext) (s : Storage) (v : VaultRecord) :
    Returns ((processVault P ctx v).run s) ↔ ¬ Unstorable P ctx s (.vault v) := by
  unfold processVault
  simp only [run_bind, run_get]
  cases judged : admission P ctx s (checkVaultRecord P v) v.vaultId v.authorPubkey v.keyEpoch with
  | some =>
    have refused : ¬ VaultAdmitted P ctx s v := by
      intro admitted
      cases judged.symm.trans (admission_eq_none.mpr admitted)
    simp [Unstorable, refused, returns_ok]
  | none =>
    have admitted : VaultAdmitted P ctx s v := admission_eq_none.mp judged
    unfold mergeVault
    simp only [run_bind, run_get]
    cases found : s.getVault v.vaultId with
    | none =>
      rw [putLww_returns, not_iff_not, putVault_outOfRange]
      simp [Unstorable, admitted, found]
    | some stored =>
      rw [run_bind, healBinding_run found]
      by_cases same : stored.version = v.version
      · rw [if_pos same]
        have merged : ¬ Unstorable P ctx s (.vault v) := by
          rintro ⟨-, differs, -⟩
          exact differs stored found same
        simp only [merged, not_false_eq_true, iff_true]
        split <;> exact returns_ok _ _
      · rw [if_neg same, putLww_returns, not_iff_not, putVault_outOfRange]
        simp [Unstorable, admitted, found, same]

private theorem processItem_returns (ctx : SyncContext) (s : Storage) (i : ItemRecord) :
    Returns ((processItem P ctx i).run s) ↔ ¬ Unstorable P ctx s (.item i) := by
  unfold processItem
  simp only [run_bind, run_get]
  cases judged : admission P ctx s (checkItemRecord P i) i.vaultId i.authorPubkey i.keyEpoch with
  | some =>
    have refused : ¬ ItemAdmitted P ctx s i := by
      intro admitted
      cases judged.symm.trans (admission_eq_none.mpr admitted)
    simp [Unstorable, refused, returns_ok]
  | none =>
    have admitted : ItemAdmitted P ctx s i := admission_eq_none.mp judged
    unfold mergeItem
    simp only [run_bind, run_get]
    cases found : s.getItem i.vaultId i.itemId with
    | none =>
      rw [putLww_returns, not_iff_not, putItem_outOfRange]
      simp [Unstorable, admitted, found]
    | some stored =>
      dsimp only
      by_cases same : stored.version = i.version
      · rw [if_pos same]
        have merged : ¬ Unstorable P ctx s (.item i) := by
          rintro ⟨-, differs, -⟩
          exact differs stored found same
        simp only [merged, not_false_eq_true, iff_true]
        split <;> exact returns_ok _ _
      · rw [if_neg same, putLww_returns, not_iff_not, putItem_outOfRange]
        simp [Unstorable, admitted, found, same]

/-- A floor is a stored number or zero. -/
theorem epochFloor_le (s : Storage) (vaultId : Bytes) : epochFloor s vaultId ≤ i64Max := by
  unfold epochFloor Storage.getVaultEpochFloor
  cases s.vaultEpochFloor[vaultId]? with
  | none => decide
  | some n => exact n.inRange

variable {n : SqlInt} {floor : Option UInt64}

theorem raiseFloor_inRange {floor : UInt64} :
    ∃ s', (raiseFloor vaultId floor n.toU64).run s = .ok () s' := by
  unfold raiseFloor
  by_cases above : floor < n.toU64
  · rw [if_pos above, storageWrite_run, setVaultEpochFloor_eq_ok.mpr ⟨n, rfl, rfl⟩]
    exact ⟨_, rfl⟩
  · rw [if_neg above]
    exact ⟨s, rfl⟩

theorem storeAndVerify_run (stored : s.putMembershipManifest m = .ok s') :
    (storeAndVerify P m anchor).run s =
      match verifyChainToEpoch P s' m.vaultId m.keyEpoch anchor with
      | .ok _ => .ok () s'
      | .error _ => .error (.vault .authorityInvalid) s' := by
  unfold storeAndVerify
  rw [run_bind, storageWrite_run, stored]
  dsimp only
  rw [run_bind, run_get]
  dsimp only
  cases verifyChainToEpoch P s' m.vaultId m.keyEpoch anchor with
  | ok => rfl
  | error => rfl

/-- An epoch in range never makes a manifest fail: a chain that does not verify is a reject. -/
private theorem processManifest_inRange (ctx : SyncContext) (s : Storage) (m : MembershipManifest)
    (epoch : n.toU64 = m.keyEpoch) : Returns ((processManifest P ctx m).run s) := by
  have read : s.getMembershipManifest m.vaultId m.keyEpoch = .ok _ :=
    getMembershipManifest_eq_ok.mpr ⟨n, epoch, rfl⟩
  unfold processManifest
  simp only [run_bind, run_get]
  by_cases below : m.keyEpoch < epochFloor s m.vaultId
  · rw [if_pos below]
    exact returns_ok _ _
  · rw [if_neg below, run_bind, readM_run, read]
    simp only [Except.mapError]
    split
    · split
      · split
        · split
          · exact returns_ok _ _
          · obtain ⟨raised, ran⟩ := raiseFloor_inRange
            rw [epoch] at ran
            rw [run_bind, ran]
            exact returns_ok _ _
        · exact returns_ok _ _
      · exact returns_ok _ _
    · obtain ⟨mid, stored⟩ : ∃ mid, s.putMembershipManifest m = .ok mid :=
        ⟨_, putMembershipManifest_eq_ok.mpr ⟨n, epoch, rfl⟩⟩
      rw [run_bind, attempt_run, transaction_run, storeAndVerify_run stored]
      cases verifyChainToEpoch P mid m.vaultId m.keyEpoch (vaultAnchor s m.vaultId ctx) with
      | error => exact returns_ok _ _
      | ok =>
        obtain ⟨_, ran⟩ := raiseFloor_inRange
        rw [epoch] at ran
        dsimp only
        rw [run_bind, ran]
        exact returns_ok _ _

private theorem processManifest_returns (ctx : SyncContext) (s : Storage) (m : MembershipManifest) :
    Returns ((processManifest P ctx m).run s) ↔ ¬ Unstorable P ctx s (.membershipManifest m) := by
  constructor
  · intro returned above
    -- The stored floor is in range, so an epoch out of range always reaches the read.
    have notBelow : ¬ m.keyEpoch < epochFloor s m.vaultId := by
      apply UInt64.not_lt.mpr
      exact UInt64.le_trans (epochFloor_le s m.vaultId) (UInt64.le_of_lt above)
    have unread : s.getMembershipManifest m.vaultId m.keyEpoch = .error .versionOutOfRange := by
      simp [Storage.getMembershipManifest, checkedVersion_eq_error.mpr ⟨above, rfl⟩]
    unfold processManifest at returned
    simp only [run_bind, run_get] at returned
    rw [if_neg notBelow, run_bind, readM_run, unread] at returned
    exact not_returns_error _ _ returned
  · intro within
    cases checked : checkedVersion m.keyEpoch with
    | error => exact (within (checkedVersion_eq_error.mp checked).1).elim
    | ok => exact processManifest_inRange ctx s m (checkedVersion_eq_ok.mp checked)

private theorem processGrant_returns (ctx : SyncContext) (s : Storage) (g : MembershipGrant) :
    Returns ((processGrant P ctx g).run s) := by
  unfold processGrant
  simp only [run_bind, run_get]
  split
  · exact returns_ok _ _
  · split
    · exact returns_ok _ _
    · next chain =>
      split
      · exact returns_ok _ _
      · -- The chain was read up to the grant's epoch, so storage can hold it.
        obtain ⟨-, n, epoch⟩ := verifyChainToEpoch_inRange chain
        rw [run_bind, storageWrite_run, putMembershipGrant_eq_ok.mpr ⟨n, epoch, rfl⟩]
        exact returns_ok _ _

private theorem processAudit_returns (ctx : SyncContext) (s : Storage) (a : AuditObject) :
    Returns ((processAudit P ctx a).run s) := by
  unfold processAudit
  split
  · exact returns_ok _ _
  · split
    · exact returns_ok _ _
    · split
      · exact returns_ok _ _
      · exact returns_ok _ _

private theorem processKeyset_returns (s : Storage) (blob : Bytes)
    (read : keysetGenFloor s = .ok floor) : Returns ((processKeyset blob).run s) := by
  unfold processKeyset
  split
  · exact returns_ok _ _
  · rw [run_bind, readM_run, read]
    simp only [Except.mapError]
    split
    · exact returns_ok _ _
    · exact returns_ok _ _

private theorem processAccountState_returns (ctx : SyncContext) (s : Storage)
    (a : AccountStateObject) : Returns ((processAccountState P ctx a).run s) := by
  have written : ¬ i64Max < a.version → ∃ s', (storageWrite fun s =>
        s.setAccountState a.authorPubkey a.version a.payload a.signature).run s = .ok () s' := by
    intro within
    cases checked : checkedVersion a.version with
    | error => exact (within (checkedVersion_eq_error.mp checked).1).elim
    | ok n =>
      rw [storageWrite_run, setAccountState_eq_ok.mpr ⟨n, checkedVersion_eq_ok.mp checked, rfl⟩]
      exact ⟨_, rfl⟩
  unfold processAccountState
  split
  · exact returns_ok _ _
  · split
    · exact returns_ok _ _
    · split
      · exact returns_ok _ _
      · next within =>
        obtain ⟨_, wrote⟩ := written within
        rw [run_bind, run_get]
        dsimp only
        split
        · split
          · exact returns_ok _ _
          · rw [run_bind, wrote]
            exact returns_ok _ _
        · rw [run_bind, wrote]
          exact returns_ok _ _

/-- An object makes the engine fail exactly when it carries a number that storage refuses. -/
theorem processObject_returns (ctx : SyncContext) (read : keysetGenFloor s = .ok floor)
    (obj : SyncObject) : Returns ((processObject P ctx obj).run s) ↔ ¬ Unstorable P ctx s obj := by
  cases obj with
  | vault v => exact processVault_returns ctx s v
  | item i => exact processItem_returns ctx s i
  | membershipManifest m => exact processManifest_returns ctx s m
  | membershipGrant g => exact iff_of_true (processGrant_returns ctx s g) id
  | audit a => exact iff_of_true (processAudit_returns ctx s a) id
  | keyset blob => exact iff_of_true (processKeyset_returns s blob read) id
  | accountState a => exact iff_of_true (processAccountState_returns ctx s a) id

/-! ## Turns -/

/-- An object above the page's floor, with the storage it meets. -/
structure Turn where
  storage : Storage
  seq : UInt64
  obj : SyncObject

/-- What storage has to hold for a turn: the sequence number, and the object's own numbers. -/
def Turn.Storable (P : Primitives) (ctx : SyncContext) (turn : Turn) : Prop :=
  turn.seq ≤ i64Max ∧ ¬ Unstorable P ctx turn.storage turn.obj

/-- The turns of a page, up to the first that fails. -/
def turnsOfPage (P : Primitives) (ctx : SyncContext) (floor : UInt64) :
    List (UInt64 × SyncObject) → UInt64 → Storage → List Turn
  | [], _, _ => []
  | (seq, obj) :: rest, cursor, s =>
    if seq ≤ floor then turnsOfPage P ctx floor rest cursor s
    else
      { storage := s, seq, obj } ::
        match (processObject P ctx obj).run s with
        | .error _ _ => []
        | .ok _ mid =>
          match (passCursor (pullCursorKey ctx.tenant) cursor seq).run mid with
          | .error _ _ => []
          | .ok cursor s => turnsOfPage P ctx floor rest cursor s

def Round.turns (P : Primitives) (ctx : SyncContext) (round : Round) : List Turn :=
  turnsOfPage P ctx round.cursor (sortDelta round.delta) round.cursor round.storage

/-- The turns of a pull, in order. -/
def pullTurns (P : Primitives) (ctx : SyncContext) {τ : Type} (T : SyncTransport τ) (t : τ)
    (s : Storage) : List Turn :=
  (pullRounds P ctx T t s).flatMap (Round.turns P ctx)

/-! ## What the report accounts for -/

/-- Rejects and conflicts have an entry of their own; the rest is counted. -/
def SyncReport.Accounts (report : SyncReport) (seq : UInt64) : Outcome → Prop
  | .rejected vaultId reason => { serverSeq := seq, vaultId, reason } ∈ report.rejected
  | .conflict entry => entry ∈ report.conflicts
  | .skippedStale => 0 < report.skippedStale
  | .applied => 0 < report.applied
  | .unchanged => True

/-- Nothing of the first report is missing from the second. -/
structure SyncReport.Extends (report later : SyncReport) : Prop where
  rejected : report.rejected ⊆ later.rejected
  conflicts : report.conflicts ⊆ later.conflicts
  skippedStale : report.skippedStale ≤ later.skippedStale
  applied : report.applied ≤ later.applied

theorem SyncReport.Extends.refl (report : SyncReport) : report.Extends report :=
  ⟨List.Subset.refl _, List.Subset.refl _, UInt64.le_refl _, UInt64.le_refl _⟩

variable {report later : SyncReport}

theorem SyncReport.Extends.trans (first : report.Extends mid) (second : mid.Extends later) :
    report.Extends later where
  rejected := List.Subset.trans first.rejected second.rejected
  conflicts := List.Subset.trans first.conflicts second.conflicts
  skippedStale := UInt64.le_trans first.skippedStale second.skippedStale
  applied := UInt64.le_trans first.applied second.applied

theorem SyncReport.Accounts.extend (extension : report.Extends later)
    (accounts : report.Accounts seq outcome) :
    later.Accounts seq outcome := by
  cases outcome with
  | rejected => exact extension.rejected accounts
  | conflict => exact extension.conflicts accounts
  | applied => exact UInt64.lt_of_lt_of_le accounts extension.applied
  | skippedStale => exact UInt64.lt_of_lt_of_le accounts extension.skippedStale
  | unchanged => trivial

theorem lt_saturatingSucc {n : UInt64} : n ≤ saturatingSucc n ∧ 0 < saturatingSucc n := by
  unfold saturatingSucc
  split
  · next top =>
    subst top
    decide
  · next => grind

theorem SyncReport.add_spec (report : SyncReport) (seq : UInt64) (outcome : Outcome) :
    report.Extends (report.add seq outcome) ∧ (report.add seq outcome).Accounts seq outcome := by
  have same := SyncReport.Extends.refl report
  cases outcome with
  | rejected =>
    exact ⟨{ same with rejected := subset_append_left _ _ }, mem_append_right _ mem_cons_self⟩
  | conflict =>
    exact ⟨{ same with conflicts := subset_append_left _ _ }, mem_append_right _ mem_cons_self⟩
  | applied =>
    obtain ⟨le, positive⟩ := lt_saturatingSucc
    exact ⟨{ same with applied := le }, positive⟩
  | skippedStale =>
    obtain ⟨le, positive⟩ := lt_saturatingSucc
    exact ⟨{ same with skippedStale := le }, positive⟩
  | unchanged => exact ⟨same, trivial⟩

/-- An object was reported as at or below the cursor, or had its turn and its outcome is
accounted for. -/
def Processed (P : Primitives) (ctx : SyncContext) (report : SyncReport) (turns : List Turn)
    (entry : UInt64 × SyncObject) : Prop :=
  report.Accounts entry.1 (.rejected entry.2.vaultId .belowCursor) ∨
    ∃ turn ∈ turns, (turn.seq, turn.obj) = entry ∧ ∃ outcome,
      valueOf ((processObject P ctx turn.obj).run turn.storage) = .ok outcome ∧
        report.Accounts turn.seq outcome

theorem Processed.mono (extension : report.Extends later) (inside : turns ⊆ more)
    (processed : Processed P ctx report turns entry) : Processed P ctx later more entry := by
  rcases processed with below | ⟨turn, member, same, outcome, ended, accounts⟩
  · exact .inl (below.extend extension)
  · exact .inr ⟨turn, inside member, same, outcome, ended, accounts.extend extension⟩

/-! ## Pages -/

variable {generation : Option UInt64} {floor cursor : UInt64} {page : List (UInt64 × SyncObject)}

theorem pullPage_returns (P : Primitives) (ctx : SyncContext) (floor cursor : UInt64)
    (report : SyncReport) (page : List (UInt64 × SyncObject)) (s : Storage)
    (read : keysetGenFloor s = .ok generation) (inRange : cursor ≤ i64Max) :
    Returns ((pullPage P ctx floor page cursor report).run s) ↔
      ∀ turn ∈ turnsOfPage P ctx floor page cursor s, turn.Storable P ctx := by
  induction page generalizing cursor report s with
  | nil => simp [pullPage, turnsOfPage, returns_ok]
  | cons entry _ ih =>
    obtain ⟨seq, obj⟩ := entry
    unfold pullPage turnsOfPage
    by_cases below : seq ≤ floor
    · rw [if_pos below, if_pos below]
      exact ih cursor _ s read inRange
    · rw [if_neg below, if_neg below, run_bind, forall_mem_cons]
      have storable := processObject_returns (P := P) ctx read obj
      have handled := processObject_handled (P := P) ctx s obj
      cases ran : (processObject P ctx obj).run s with
      | error e mid =>
        have refused : ¬ Returns ((processObject P ctx obj).run s) := by
          rw [ran]
          exact not_returns_error e mid
        simp only [not_returns_error, Turn.Storable, ← storable, refused, false_iff]
        exact fun all => all.1.2
      | ok outcome mid =>
        have fits : ¬ Unstorable P ctx s obj := storable.mp (ran ▸ returns_ok outcome mid)
        have readMid : keysetGenFloor mid = .ok generation := by
          rw [ran] at handled
          have metadata : mid.metaTable = s.metaTable := handled.frame.metadata
          unfold keysetGenFloor Storage.getMeta
          rw [metadata]
          exact read
        dsimp only
        rw [run_bind, passCursor_run]
        by_cases above : cursor < seq
        · rw [if_pos above]
          cases wrote : mid.setSyncCursor (pullCursorKey ctx.tenant) seq with
          | error =>
            have outOfRange : ¬ seq ≤ i64Max := by
              intro within
              cases wrote.symm.trans (setSyncCursor_eq_ok.mpr ⟨⟨seq, within⟩, rfl, rfl⟩)
            simp only [not_returns_error, Turn.Storable, outOfRange, false_and]
          | ok =>
            obtain ⟨n, rfl, rfl⟩ := setSyncCursor_eq_ok.mp wrote
            have here : Turn.Storable P ctx { storage := s, seq := n.toU64, obj } :=
              ⟨n.inRange, fits⟩
            simp only [here, true_and]
            exact ih n.toU64 _ _ readMid n.inRange
        · rw [if_neg above]
          have here : Turn.Storable P ctx { storage := s, seq, obj } :=
            ⟨UInt64.le_trans (UInt64.not_lt.mp above) inRange, fits⟩
          simp only [here, true_and]
          exact ih cursor _ mid readMid inRange

theorem pullPage_processed
    (ran : (pullPage P ctx floor page cursor report).run s = .ok (cursor', report') s') :
    report.Extends report' ∧
      ∀ entry ∈ page, Processed P ctx report' (turnsOfPage P ctx floor page cursor s) entry := by
  induction page generalizing cursor report s with
  | nil =>
    cases ran
    exact ⟨.refl _, nofun⟩
  | cons entry _ ih =>
    obtain ⟨seq, obj⟩ := entry
    unfold pullPage at ran
    unfold turnsOfPage
    by_cases below : seq ≤ floor
    · rw [if_pos below] at ran ⊢
      obtain ⟨extension, all⟩ := ih ran
      refine ⟨(report.add_spec _ _).1.trans extension, ?_⟩
      intro entry member
      rcases mem_cons.mp member with rfl | later
      · exact .inl ((report.add_spec _ _).2.extend extension)
      · exact all entry later
    · rw [if_neg below] at ran ⊢
      obtain ⟨outcome, _, handled, ran⟩ := bind_run_ok ran
      obtain ⟨_, _, moved, ran⟩ := bind_run_ok ran
      obtain ⟨extension, all⟩ := ih ran
      have ended : valueOf ((processObject P ctx obj).run s) = .ok outcome := by rw [handled]; rfl
      rw [handled]
      dsimp only
      rw [moved]
      refine ⟨(report.add_spec _ _).1.trans extension, ?_⟩
      intro entry member
      rcases mem_cons.mp member with rfl | later
      · exact .inr ⟨_, mem_cons_self, rfl, outcome, ended, (report.add_spec _ _).2.extend extension⟩
      · exact (all entry later).mono (.refl _) (subset_cons_self _ _)

/-! ## Whole pulls -/

theorem storedCursor_le : storedCursor s tenant ≤ i64Max := by
  unfold storedCursor Storage.getSyncCursor
  cases s.syncState[pullCursorKey tenant]? with
  | none => decide
  | some n => exact n.inRange

theorem NotRolledBack.keysetGenFloor_eq (kept : NotRolledBack s s') :
    keysetGenFloor s' = keysetGenFloor s := by
  unfold keysetGenFloor Storage.getMeta
  rw [kept.metadata]

/-- The page loop returns exactly when every turn can be stored, and then processed every object. -/
theorem pullPages_returns {τ : Type} (T : SyncTransport τ) (cursor : UInt64) (report : SyncReport)
    (t : τ) (s : Storage) (read : keysetGenFloor s = .ok generation)
    (inStep : storedCursor s ctx.tenant = cursor) :
    (Returns (pullPages P ctx T cursor report t s) ↔
      ∀ round ∈ rounds P ctx T cursor report t s, ∀ turn ∈ round.turns P ctx, turn.Storable P ctx) ∧
    ∀ report' s', pullPages P ctx T cursor report t s = .ok report' s' →
      report.Extends report' ∧ ∀ round ∈ rounds P ctx T cursor report t s,
        ∀ entry ∈ round.delta, Processed P ctx report' (round.turns P ctx) entry := by
  revert read inStep
  induction cursor, report, t, s using pullPages_induction P ctx T with
  | round cursor report t s ih =>
    intro read inStep
    have inRange : cursor ≤ i64Max := inStep ▸ storedCursor_le
    have here := pullPage_returns P ctx cursor cursor report
      (sortDelta (T.deltaSince t cursor).1) s read inRange
    obtain ⟨_, -, trace, after⟩ := pullPage_trace P ctx cursor cursor report
      (sortDelta (T.deltaSince t cursor).1) s inStep
    rw [pullPages_eq, rounds_eq]
    by_cases empty : (T.deltaSince t cursor).1 = []
    · rw [if_pos empty, if_pos empty]
      refine ⟨iff_of_true (returns_ok _ _) (by simp), ?_⟩
      rintro report' s' ⟨⟩
      exact ⟨.refl _, by simp⟩
    · rw [if_neg empty, if_neg empty]
      cases ran : (pullPage P ctx cursor (sortDelta (T.deltaSince t cursor).1) cursor report).run s
        with
      | error e mid =>
        rw [ran] at here
        refine ⟨iff_of_false (not_returns_error e mid) ?_, nofun⟩
        intro all
        exact not_returns_error e mid (here.mpr (all _ mem_cons_self))
      | ok value mid =>
        obtain ⟨cursor', report'⟩ := value
        have stored := here.mp (ran ▸ returns_ok _ _)
        obtain ⟨extension, processed⟩ := pullPage_processed ran
        have sorted : ∀ entry ∈ (T.deltaSince t cursor).1,
            entry ∈ sortDelta (T.deltaSince t cursor).1 :=
          fun entry member => (mem_insertionSort _).mpr member
        dsimp only
        by_cases moved : cursor' = cursor
        · rw [if_pos moved, if_pos moved]
          constructor
          · refine iff_of_true (returns_ok _ _) ?_
            intro round member
            cases mem_singleton.mp member
            exact stored
          · rintro _ _ ⟨⟩
            refine ⟨extension, ?_⟩
            intro round member entry inDelta
            cases mem_singleton.mp member
            exact processed entry (sorted entry inDelta)
        · rw [if_neg moved, if_neg moved]
          rw [ran] at trace
          have readMid : keysetGenFloor mid = .ok generation :=
            trace.notRolledBack.keysetGenFloor_eq.trans read
          obtain ⟨later, laterProcessed⟩ :=
            ih cursor' report' mid ran moved readMid (after cursor' report' mid ran)
          constructor
          · rw [later, forall_mem_cons]
            exact (and_iff_right stored).symm
          · intro last s' returned
            obtain ⟨extension', processed'⟩ := laterProcessed last s' returned
            refine ⟨extension.trans extension', ?_⟩
            intro round member entry inDelta
            rcases mem_cons.mp member with rfl | member
            · exact (processed entry (sorted entry inDelta)).mono extension' (List.Subset.refl _)
            · exact processed' round member entry inDelta

/-- The numbers of an object that reach storage unchecked fit in an `INTEGER` column. -/
def SyncObject.InRange : SyncObject → Prop
  | .vault v => v.version ≤ i64Max ∧ v.keyEpoch ≤ i64Max
  | .item i => i.version ≤ i64Max ∧ i.keyEpoch ≤ i64Max
  | .membershipManifest m => m.keyEpoch ≤ i64Max
  | _ => True

theorem SyncObject.InRange.storable (inRange : obj.InRange) :
    ¬ Unstorable P ctx s obj := by
  cases obj with
  | vault =>
    rintro ⟨-, -, version | keyEpoch⟩
    · exact UInt64.not_lt.mpr inRange.1 version
    · exact UInt64.not_lt.mpr inRange.2 keyEpoch
  | item =>
    rintro ⟨-, -, version | keyEpoch⟩
    · exact UInt64.not_lt.mpr inRange.1 version
    · exact UInt64.not_lt.mpr inRange.2 keyEpoch
  | membershipManifest => exact UInt64.not_lt.mpr inRange
  | _ => exact id

theorem mem_of_mem_turnsOfPage (member : turn ∈ turnsOfPage P ctx floor page cursor s) :
    (turn.seq, turn.obj) ∈ page := by
  induction page generalizing cursor s with
  | nil => exact (not_mem_nil member).elim
  | cons entry _ ih =>
    obtain ⟨_, _⟩ := entry
    unfold turnsOfPage at member
    split at member
    · exact mem_cons_of_mem _ (ih member)
    · rcases mem_cons.mp member with rfl | later
      · exact mem_cons_self
      · split at later
        · exact (not_mem_nil later).elim
        · split at later
          · exact (not_mem_nil later).elim
          · exact mem_cons_of_mem _ (ih later)

theorem rounds_delta {τ : Type} {T : SyncTransport τ} {t : τ} :
    ∀ round ∈ rounds P ctx T cursor report t s, ∃ t cursor,
      round.delta = (T.deltaSince t cursor).1 := by
  induction cursor, report, t, s using pullPages_induction P ctx T with
  | round cursor _ t _ ih =>
    intro round member
    rw [rounds_eq] at member
    split at member
    · exact (not_mem_nil member).elim
    · rcases mem_cons.mp member with rfl | later
      · exact ⟨t, cursor, rfl⟩
      · split at later
        · exact (not_mem_nil later).elim
        · next cursor' report' s' ran =>
          split at later
          · exact (not_mem_nil later).elim
          · next moved => exact ih cursor' report' s' ran moved round later

/-- A server that hands out numbers in range only can abort no pull. -/
theorem pullTurns_storable {τ : Type} {T : SyncTransport τ} {t : τ}
    (inRange : ∀ t cursor, ∀ entry ∈ (T.deltaSince t cursor).1,
      entry.1 ≤ i64Max ∧ entry.2.InRange) :
    ∀ turn ∈ pullTurns P ctx T t s, turn.Storable P ctx := by
  intro _ member
  obtain ⟨round, inRounds, inRound⟩ := mem_flatMap.mp member
  unfold pullRounds at inRounds
  split at inRounds
  · exact (not_mem_nil inRounds).elim
  · obtain ⟨t', cursor, same⟩ := rounds_delta round inRounds
    have delivered := (mem_insertionSort _).mp (mem_of_mem_turnsOfPage inRound)
    rw [same] at delivered
    obtain ⟨seq, obj⟩ := inRange t' cursor _ delivered
    exact ⟨seq, obj.storable⟩

/-- The pull returns, and its report accounts for every object that was handed out. -/
def Completes (P : Primitives) (ctx : SyncContext) {τ : Type} (T : SyncTransport τ) (t : τ)
    (s : Storage) : Prop :=
  ∃ report s', (syncPull P ctx T t).run s = .ok report s' ∧
    ∀ entry ∈ delivered P ctx T t s, Processed P ctx report (pullTurns P ctx T t s) entry

/-- A pull completes exactly when no object carries a number that storage refuses at its turn. -/
theorem syncPull_completes_iff {τ : Type} (T : SyncTransport τ) (t : τ) (s : Storage)
    {generation : Option UInt64} (read : keysetGenFloor s = .ok generation)
    (notBehind : storedCursor s ctx.tenant ≤ T.reportVersion t) :
    Completes P ctx T t s ↔ ∀ turn ∈ pullTurns P ctx T t s, turn.Storable P ctx := by
  have current : ¬ T.reportVersion t < storedCursor s ctx.tenant := UInt64.not_lt.mpr notBehind
  have pull : (syncPull P ctx T t).run s =
      pullPages P ctx T (storedCursor s ctx.tenant) {} t s := if_neg current
  obtain ⟨returns, processed⟩ :=
    pullPages_returns (P := P) T (storedCursor s ctx.tenant) {} t s read rfl
  unfold Completes pullTurns delivered pullRounds
  rw [pull, if_neg current]
  simp only [mem_flatMap]
  constructor
  · rintro ⟨report, s', returned, -⟩ turn ⟨round, member, inRound⟩
    exact returns.mp ⟨report, s', returned⟩ round member turn inRound
  · intro storable
    obtain ⟨report, s', returned⟩ := returns.mpr fun round member turn inRound =>
      storable turn ⟨round, member, inRound⟩
    refine ⟨report, s', returned, ?_⟩
    rintro entry ⟨round, member, inDelta⟩
    refine ((processed report s' returned).2 round member entry inDelta).mono (.refl _) ?_
    intro _ inRound
    exact mem_flatMap.mpr ⟨round, member, inRound⟩

namespace Sample

/-- A server that hands out one page and then nothing. -/
def pageTransport (page : List (UInt64 × SyncObject)) : SyncTransport Unit where
  pushObjects _ _ := (.ok [], ())
  deltaSince _ cursor := (if cursor = 0 then page else [], ())
  reportVersion _ := 2

/-- Unsigned bytes under an epoch that no `INTEGER` column holds. -/
def hostileManifest : MembershipManifest :=
  { vaultId, keyEpoch := 0x8000000000000000, manifestBlob := [], signature := [],
    authorPubkey := [] }

def ownItem : ItemRecord := item owner [5] [4] 1 0

end Sample

open Sample

/-- One unsigned manifest ends the pull, and the owner's item after it is not applied. -/
theorem hostile_manifest_aborts_pull :
    let T := pageTransport [(1, .membershipManifest hostileManifest), (2, .item ownItem)]
    let pulled := (syncPull .transparent context T ()).run {}
    storedCursor {} context.tenant ≤ T.reportVersion () ∧ keysetGenFloor {} = .ok none ∧
      valueOf pulled = .error (.storage .versionOutOfRange) ∧
      (finalState pulled).getItem vaultId [5] = none ∧
      valueOf ((processObject .transparent context (.item ownItem)).run {}) = .ok .applied ∧
      ¬ Completes .transparent context T () {} := by
  intro T pulled
  have aborted : valueOf pulled = .error (.storage .versionOutOfRange) := by
    change valueOf (pullPages .transparent context T 0 {} () {}) = _
    rw [pullPages_eq]
    rfl
  have unstored : (finalState pulled).getItem vaultId [5] = none := by
    change (finalState (pullPages .transparent context T 0 {} () {})).getItem _ _ = _
    rw [pullPages_eq]
    decide +kernel
  refine ⟨by decide, by decide +kernel, aborted, unstored, by decide +kernel, ?_⟩
  rintro ⟨report, _, returned, -⟩
  have failed : valueOf pulled = .ok report := congrArg valueOf returned
  rw [aborted] at failed
  cases failed

/-- Without that manifest the same pull completes. -/
theorem syncPull_completes_own_item :
    Completes .transparent context (pageTransport [(2, .item ownItem)]) ()
      {} := by
  refine (syncPull_completes_iff _ () {} (show keysetGenFloor {} = .ok none by decide)
    (by decide)).mpr (pullTurns_storable ?_)
  intro _ cursor _ member
  by_cases first : cursor = 0
  · simp only [pageTransport, first, if_true, mem_singleton] at member
    subst member
    exact ⟨by decide, by decide, by decide⟩
  · simp [pageTransport, first] at member

end UniSsh
