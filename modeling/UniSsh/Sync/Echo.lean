import UniSsh.Base.Potential
import UniSsh.Sync.Dirty

/-!
# Pulling and pushing in turn

A clean row that a pull wrote is not sent back; a dirty one and every audit entry appended are.
Without audit entries, what the server may be missing is a potential that no pull raises and every
sending push lowers.
-/

namespace UniSsh

open List

open Storage

variable {P : Primitives} {ctx : SyncContext} {s s' : Storage}

/-! ## One pull and the next push -/

variable {tenant : Bytes} {obj : SyncObject}

/-- A row that was clean before a pull is not sent by a push after it, unless it was edited in
between. -/
theorem not_handedBy_of_clean {call : PullCall} {later : Storage} {k : RowKey}
    (clean : ¬ s.IsDirty k) (unedited : SameRow (call.run P s) later k) {τ : Type}
    {T : SyncTransport τ} {t : τ} {own : Option Bytes} {accountWide : Bool}
    (handed : obj ∈ handedBy P T tenant own accountWide later t) : ¬ obj.RowOf k := by
  intro row
  obtain ⟨_, -, trace⟩ := call.run_trace P s
  have dirtyLater : later.IsDirty k := (handedBy_pending handed).isDirty row
  have dirtyPulled : (call.run P s).IsDirty k := unedited.isDirty_iff.mp dirtyLater
  exact clean (trace.noneDirtied k dirtyPulled)

/-- An audit entry that a pull appends to the log. -/
def SyncObject.AcceptedAudit (P : Primitives) (ctx : SyncContext) : SyncObject → Prop
  | .audit a => a.authorPubkey = ctx.genesisOwner ∧
      verifySigned P a.authorPubkey (auditAad a.vaultId) a.entryBlob a.signature = .ok ()
  | _ => False

variable {result : Except SyncError Outcome}

theorem Handled.auditLog (handled : Handled P ctx s obj result s') :
    s'.auditLog = s.auditLog ∨ result = .ok .applied ∧ obj.AcceptedAudit P ctx := by
  by_cases isAudit : ∃ a, obj = .audit a
  · obtain ⟨a, rfl⟩ := isAudit
    cases handled with
    | kept => exact .inl rfl
    | audit _ own signed => exact .inr ⟨rfl, own, signed⟩
  · exact .inl (handled.frame.auditLog fun a same => isAudit ⟨a, same⟩)

/-- A pull that is handed no audit entry it accepts leaves the log as it was. -/
theorem PullCall.run_auditLog {call : PullCall}
    (foreign : ∀ entry ∈ call.objects P s, ¬ entry.2.AcceptedAudit P call.context) :
    (call.run P s).auditLog = s.auditLog := by
  obtain ⟨_, from_, trace⟩ := call.run_trace P s
  rcases trace.last_write Handled.auditLog (fun _ _ => rfl) with same | written
  · exact same
  · obtain ⟨entry, _, _, _, _, processed, -, -, -, accepted, -⟩ := written
    exact (foreign entry (from_ entry _ processed) accepted).elim

/-! ## Account states still to come -/

/-- Whether an object is an account state above a version. -/
def isNewAccount (cursor : UInt64) : SyncObject → Bool
  | .accountState a => cursor < a.version
  | _ => false

/-- How often account states can still be sent: once now, and once for each new one above the
cursor. -/
def accountPotential (tenant : Bytes) (s : Storage) (unseen : List SyncObject) : Nat :=
  2 * unseen.countP (isNewAccount (acctCursor s tenant)) +
    if newAccountStates s tenant = [] then 0 else 1

theorem accountPotential_congr (table : s'.accountState = s.accountState)
    (cursor : acctCursor s' tenant = acctCursor s tenant) (unseen : List SyncObject) :
    accountPotential tenant s' unseen = accountPotential tenant s unseen := by
  have none : newAccountStates s' tenant = [] ↔ newAccountStates s tenant = [] := by
    rw [newAccountStates_eq_nil, newAccountStates_eq_nil, table, cursor]
  unfold accountPotential
  rw [cursor]
  by_cases empty : newAccountStates s tenant = []
  · rw [if_pos empty, if_pos (none.mpr empty)]
  · rw [if_neg empty, if_neg (mt none.mp empty)]

theorem acctCursor_congr (cursors : s'.syncState = s.syncState) (tenant : Bytes) :
    acctCursor s' tenant = acctCursor s tenant := by
  unfold acctCursor Storage.getSyncCursor
  rw [cursors]

theorem Handled.accountState_of_not_applied (handled : Handled P ctx s obj result s')
    (notApplied : result ≠ .ok .applied) : s'.accountState = s.accountState := by
  cases handled with
  | kept => rfl
  | relabelled => rfl
  | floorArmed _ _ _ _ _ _ _ _ raised =>
    obtain ⟨_, _, rfl⟩ := setVaultEpochFloor_eq_ok.mp raised
    rfl
  | _ => exact (notApplied rfl).elim

theorem Handled.accountPotential_le (handled : Handled P ctx s obj result s') (tenant : Bytes)
    (rest : List SyncObject) :
    accountPotential tenant s' rest ≤ accountPotential tenant s (obj :: rest) := by
  have cursor := acctCursor_congr handled.frame.cursors tenant
  have drops : accountPotential tenant s rest ≤ accountPotential tenant s (obj :: rest) := by
    unfold accountPotential
    rw [countP_cons]
    omega
  by_cases isState : ∃ a, obj = .accountState a
  · obtain ⟨a, rfl⟩ := isState
    cases handled with
    | kept => exact drops
    | accountState _ _ _ _ _ set =>
      obtain ⟨n, version, rfl⟩ := setAccountState_eq_ok.mp set
      by_cases new : acctCursor s tenant < a.version
      · -- The share of `a` covers the stored state it may leave to be sent.
        unfold accountPotential
        rw [cursor, countP_cons]
        simp only [isNewAccount, new, decide_true, if_true]
        split <;> omega
      · refine Nat.le_trans ?_ drops
        unfold accountPotential
        rw [cursor]
        apply Nat.add_le_add_left
        split
        · exact Nat.zero_le _
        · next some =>
          have before : newAccountStates s tenant ≠ [] := by
            intro none
            apply some
            rw [newAccountStates_eq_nil] at none ⊢
            intro author row found
            rw [cursor]
            obtain ⟨-, rfl⟩ | ⟨-, found⟩ := Table.of_insert found
            · rw [version]
              exact UInt64.not_lt.mp new
            · exact none author row found
          rw [if_neg before]
  · have table := handled.frame.accountStates fun a same => isState ⟨a, same⟩
    rw [accountPotential_congr table cursor]
    exact drops

/-! ## The audit log -/

theorem Completed.auditsDone {τ : Type} {T : SyncTransport τ} {t : τ} {vaultOut : List Outgoing}
    {push : Push τ} (done : Completed T tenant s t vaultOut push) (numbered : AuditNumbered s) :
    newAuditEntries push.storage tenant = [] := by
  have cursor := done.auditCursor
  rw [lastAudit_auditOutgoing] at cursor
  cases last : (newAuditEntries s tenant).getLast? with
  | none =>
    rw [last] at cursor
    rw [newAuditEntries_congr done.settles.auditLog cursor]
    exact getLast?_eq_none_iff.mp last
  | some final =>
    rw [last] at cursor
    have sent : final ∈ newAuditEntries s tenant := mem_of_getLast? last
    obtain ⟨inside, above⟩ := mem_newAuditEntries sent
    have number : (UInt64.ofNat final.seq).toNat = final.seq := by
      apply UInt64.toNat_ofNat_of_lt'
      exact Nat.lt_of_le_of_lt (numbered.fits final inside) i64Max.toNat_lt
    rw [eq_nil_iff_forall_not_mem]
    intro entry member
    obtain ⟨stored, later⟩ := mem_newAuditEntries member
    rw [cursor] at later
    change (UInt64.ofNat final.seq).toNat < entry.seq at later
    rw [number] at later
    rw [done.settles.auditLog] at stored
    -- A later entry would have been sent too, and would stand behind the last one.
    have new : entry ∈ newAuditEntries s tenant := by
      unfold newAuditEntries Storage.listAudit at sent ⊢
      split at sent
      · cases sent
      · next inRange =>
        rw [if_neg inRange]
        exact mem_filter.mpr ⟨stored, decide_eq_true (Nat.lt_trans above later)⟩
    have ordered : (newAuditEntries s tenant).Pairwise fun a b => a.seq < b.seq := by
      unfold newAuditEntries Storage.listAudit
      split
      · exact List.Pairwise.nil
      · exact numbered.increasing.filter _
    obtain ⟨_, pieces⟩ := getLast?_eq_some_iff.mp last
    rw [pieces] at new ordered
    rcases mem_append.mp new with before | same
    · have less := (pairwise_append.mp ordered).2.2 entry before final mem_cons_self
      omega
    · cases mem_singleton.mp same
      omega

/-! ## Pulling from an honest server -/

variable {N : Numbering}

/-- What a pull that had seen `k` objects and processed `done` leaves, with `rest` not processed. -/
structure Consumed (P : Primitives) (ctx : SyncContext) (N : Numbering) (k : Nat) (s : Storage)
    (done rest : List SyncObject) (s' : Storage) : Prop where
  cursor : storedCursor s' ctx.tenant = N.cursorAt (k + done.length)
  accounts : accountPotential ctx.tenant s' rest ≤ accountPotential ctx.tenant s (done ++ rest)
  auditLog : (∀ obj ∈ done ++ rest, ¬ obj.AcceptedAudit P ctx) → s'.auditLog = s.auditLog
  auditCursor : s'.getSyncCursor (pushCursorKey ctx.tenant) =
    s.getSyncCursor (pushCursorKey ctx.tenant)
  dirty : NoneDirtied s s'

variable {k : Nat}

theorem Consumed.failed (seen : storedCursor s ctx.tenant = N.cursorAt k)
    (ran : Processes P ctx s obj (.error e) s') :
    Consumed P ctx N k s [] (obj :: rest) s' where
  cursor := by rw [ran.handled.storedCursor_eq, seen]; rfl
  accounts := by
    apply Nat.le_of_eq
    apply accountPotential_congr
    · exact ran.handled.accountState_of_not_applied nofun
    · exact acctCursor_congr ran.handled.frame.cursors _
  auditLog := by
    intro _
    rcases ran.handled.auditLog with same | ⟨applied, -⟩
    · exact same
    · cases applied
  auditCursor := by
    unfold Storage.getSyncCursor
    rw [ran.handled.frame.cursors]
  dirty := ran.handled.noneDirtied

theorem Consumed.step (ran : Processes P ctx s obj (.ok outcome) mid)
    (wrote : mid.setSyncCursor (pullCursorKey ctx.tenant) seq = .ok moved)
    (later : Consumed P ctx N (k + 1) moved done rest s') :
    Consumed P ctx N k s (obj :: done) rest s' := by
  have others : ∀ key, key ≠ pullCursorKey ctx.tenant →
      moved.getSyncCursor key = s.getSyncCursor key := by
    intro _ ne
    obtain ⟨n, _, rfl⟩ := setSyncCursor_eq_ok.mp wrote
    rw [getSyncCursor_insert, if_neg (Ne.symm ne)]
    unfold Storage.getSyncCursor
    rw [ran.handled.frame.cursors]
  have tables : moved.accountState = mid.accountState ∧ moved.auditLog = mid.auditLog := by
    obtain ⟨n, _, rfl⟩ := setSyncCursor_eq_ok.mp wrote
    exact ⟨rfl, rfl⟩
  have acct : acctCursor moved ctx.tenant = acctCursor mid ctx.tenant := by
    rw [acctCursor_congr ran.handled.frame.cursors]
    unfold acctCursor
    rw [others _ (acctPushCursorKey_ne _ _)]
  refine ⟨?_, ?_, ?_, ?_, ?_⟩
  · rw [later.cursor, length_cons, Nat.add_assoc, Nat.add_comm 1]
  · calc accountPotential ctx.tenant s' rest
        ≤ accountPotential ctx.tenant moved (done ++ rest) := later.accounts
      _ = accountPotential ctx.tenant mid (done ++ rest) := accountPotential_congr tables.1 acct _
      _ ≤ accountPotential ctx.tenant s (obj :: done ++ rest) :=
          ran.handled.accountPotential_le ctx.tenant (done ++ rest)
  · intro foreign
    rw [later.auditLog fun other member => foreign other (mem_cons_of_mem _ member), tables.2]
    rcases ran.handled.auditLog with same | ⟨-, accepted⟩
    · exact same
    · exact (foreign obj mem_cons_self accepted).elim
  · rw [later.auditCursor, others _ (pushCursorKey_ne _ _)]
  · exact IsTrans.trans _ _ _ ran.handled.noneDirtied
      (IsTrans.trans _ _ _ (setSyncCursor_noneDirtied wrote) later.dirty)

theorem consume_consumed (fits : N.Fits (k + objects.length)) (s : Storage)
    (seen : storedCursor s ctx.tenant = N.cursorAt k) (report : SyncReport) :
    ∃ done rest, objects = done ++ rest ∧ Consumed P ctx N k s done rest
      (finalState ((consume P ctx (N.numberFrom k objects) report).run s)) := by
  induction objects generalizing k s report with
  | nil =>
    refine ⟨[], [], rfl, seen, Nat.le_refl _, fun _ => rfl, rfl, ?_⟩
    exact Std.Refl.refl s
  | cons obj rest ih =>
    rw [length_cons, Nat.add_comm rest.length, ← Nat.add_assoc] at fits
    rw [Numbering.numberFrom, consume, EStateM.run_bind]
    cases ran : (processObject P ctx obj).run s with
    | error e mid =>
      have failed : Processes P ctx s obj (.error e) mid :=
        ⟨congrArg valueOf ran, congrArg finalState ran⟩
      exact ⟨[], obj :: rest, rfl, Consumed.failed seen failed⟩
    | ok outcome mid =>
      have passed : Processes P ctx s obj (.ok outcome) mid :=
        ⟨congrArg valueOf ran, congrArg finalState ran⟩
      have inRange : N.number k ≤ i64Max := Numbering.number_le fits (by omega)
      obtain ⟨moved, wrote⟩ : ∃ moved,
          mid.setSyncCursor (pullCursorKey ctx.tenant) (N.number k) = .ok moved :=
        ⟨_, setSyncCursor_eq_ok.mpr ⟨⟨N.number k, inRange⟩, rfl, rfl⟩⟩
      dsimp only
      rw [EStateM.run_bind, storageWrite_run, wrote]
      obtain ⟨done, rest', rfl, later⟩ := ih fits moved (storedCursor_setSyncCursor wrote)
        (report.add (N.number k) outcome)
      exact ⟨obj :: done, rest', rfl, Consumed.step passed wrote later⟩

end UniSsh
