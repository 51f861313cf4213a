import UniSsh.Sync.Echo
import UniSsh.Sync.SignedFields

/-!
# Exchanges with an honest server

A device pulls from an honest server and pushes to it, without local edits. A pull does not raise
`Exchange.potential` and a push that sends something lowers it, as long as no accepted audit entry
comes back.
-/

namespace UniSsh

open List Storage

/-- A device and what the server holds. -/
structure Exchange where
  storage : Storage
  log : List SyncObject

namespace Exchange

section Cycle

variable (P : Primitives) (ctx : SyncContext) (N : Numbering) (own : Option Bytes)

def pulled (x : Exchange) : Exchange :=
  { x with storage := finalState ((syncPull P ctx N.server x.log).run x.storage) }

/-- The state a push ends in, returned or failed. -/
def push (x : Exchange) : Push (List SyncObject) :=
  finalState ((runPush P N.server ctx.tenant own true).run
    { storage := x.storage, transport := x.log })

def pushed (x : Exchange) : Exchange where
  storage := (x.push P ctx N own).storage
  log := (x.push P ctx N own).transport

/-- One cycle: a pull and then a push. -/
def cycle (x : Exchange) : Exchange := (x.pulled P ctx N).pushed P ctx N own

/-- What the push of a cycle sends. -/
def sent (x : Exchange) : List SyncObject := ((x.pulled P ctx N).push P ctx N own).handed.flatten

/-- The objects behind the device's cursor. -/
def unseen (x : Exchange) : List SyncObject :=
  ((N.numberFrom 0 x.log).filter fun entry => storedCursor x.storage ctx.tenant < entry.1).map
    Prod.snd

/-- No audit entry the device accepts is on its way, and its cursor stands at a server object. -/
structure EchoFree (x : Exchange) : Prop where
  position : ∃ k ≤ x.log.length, storedCursor x.storage ctx.tenant = N.cursorAt k
  foreign : ∀ obj ∈ x.unseen ctx N, ¬ obj.AcceptedAudit P ctx
  unsent : ∀ entry ∈ newAuditEntries x.storage ctx.tenant,
    ¬ (auditOutgoing entry).object.AcceptedAudit P ctx
  numbered : AuditNumbered x.storage

/-- How much is still to be exchanged. -/
def potential (x : Exchange) : Nat :=
  x.storage.dirty.card + accountPotential ctx.tenant x.storage (x.unseen ctx N) +
    if newAuditEntries x.storage ctx.tenant = [] then 0 else 1

end Cycle

variable {P : Primitives} {ctx : SyncContext} {N : Numbering} {own : Option Bytes} {x : Exchange}

theorem numberFrom_objects (n : Nat) (objects : List SyncObject) :
    (N.numberFrom n objects).map Prod.snd = objects := by
  induction objects generalizing n with
  | nil => rfl
  | cons _ _ ih => rw [Numbering.numberFrom, map_cons, ih]

theorem unseen_eq (fits : N.Fits x.log.length) (le : k ≤ x.log.length)
    (seen : storedCursor x.storage ctx.tenant = N.cursorAt k) : x.unseen ctx N = x.log.drop k := by
  unfold unseen
  rw [seen, Numbering.filter_numberFrom fits le, numberFrom_objects]

/-- A pull keeps an exchange free of echoes, leaves the audit log alone and brings nothing new to
exchange. -/
theorem EchoFree.pulled_le (free : x.EchoFree P ctx N) (fits : N.Fits x.log.length) :
    (x.pulled P ctx N).EchoFree P ctx N ∧ (x.pulled P ctx N).potential ctx N ≤ x.potential ctx N ∧
      (x.pulled P ctx N).storage.auditLog = x.storage.auditLog := by
  obtain ⟨k, le, seen⟩ := free.position
  have unseen := unseen_eq fits le seen
  have total : k + (x.log.drop k).length = x.log.length := by
    rw [length_drop]
    omega
  obtain ⟨done, rest, pieces, consumed⟩ :=
    consume_consumed (P := P) (N := N) (total ▸ fits) x.storage seen {}
  rw [← syncPull_honest fits le seen] at consumed
  change Consumed P ctx N k x.storage done rest (x.pulled P ctx N).storage at consumed
  have objects : ∀ obj ∈ done ++ rest, ¬ obj.AcceptedAudit P ctx := by
    rw [← pieces, ← unseen]
    exact free.foreign
  have kept := consumed.auditLog objects
  have sameNew := newAuditEntries_congr kept consumed.auditCursor
  have position : k + done.length ≤ (x.pulled P ctx N).log.length := by
    change k + done.length ≤ x.log.length
    rw [pieces, length_append] at total
    omega
  have unseen' : (x.pulled P ctx N).unseen ctx N = rest := by
    rw [unseen_eq (x := x.pulled P ctx N) fits position consumed.cursor]
    change x.log.drop (k + done.length) = rest
    rw [← drop_drop, pieces, drop_left]
  refine ⟨⟨⟨_, position, consumed.cursor⟩, ?_, ?_, ?_⟩, ?_, kept⟩
  · rw [unseen']
    exact fun obj member => objects obj (mem_append_right done member)
  · rw [sameNew]
    exact free.unsent
  · exact free.numbered.congr kept
  · have dirty := Finset.card_le_card (NoneDirtied.subset consumed.dirty)
    have accounts := consumed.accounts
    unfold potential
    rw [sameNew, unseen', unseen, pieces]
    omega

/-- What a push does to an exchange. -/
structure Lowers (P : Primitives) (ctx : SyncContext) (N : Numbering) (sent : List SyncObject)
    (x z : Exchange) : Prop where
  free : z.EchoFree P ctx N
  le : z.potential ctx N ≤ x.potential ctx N
  lt : sent ≠ [] → z.potential ctx N < x.potential ctx N
  auditLog : z.storage.auditLog = x.storage.auditLog

variable {vaultData : List Queued}

variable {s : Storage} {mid final : Push (List SyncObject)}

/-- Dirty rows that were sent are dirty no more. -/
theorem dirty_card_lt {τ : Type} {T : SyncTransport τ} {t : τ} {mid push : Push τ}
    (queued : (queueVaultData P ctx.tenant own).run { storage := s, transport := t } =
      .ok vaultData mid)
    (done : Completed T ctx.tenant s t (vaultData.filterMap (Queued.load s)) push)
    (some : vaultData.filterMap (Queued.load s) ≠ []) :
    push.storage.dirty.card < s.dirty.card := by
  obtain ⟨outgoing, member⟩ := exists_mem_of_ne_nil _ some
  obtain ⟨k, row⟩ := queueVaultData_row queued member
  have before : k ∈ s.dirty :=
    mem_dirty.mpr ((queueVaultData_pending queued member).1.isDirty row)
  have after : k ∉ push.storage.dirty := by
    intro dirty
    exact (done.settled outgoing member).not_isDirty row (mem_dirty.mp dirty)
  apply Finset.card_lt_card
  exact (Finset.ssubset_iff_of_subset done.settles.noneDirtied.subset).mpr ⟨k, before, after⟩

/-- No account state that was sent is new for a device that sees it come back. -/
theorem countP_sent {τ : Type} {T : SyncTransport τ} {t : τ} {mid push : Push τ}
    (queued : (queueVaultData P ctx.tenant own).run { storage := s, transport := t } =
      .ok vaultData mid)
    (done : Completed T ctx.tenant s t (vaultData.filterMap (Queued.load s)) push) :
    push.handed.flatten.countP (isNewAccount (acctCursor push.storage ctx.tenant)) = 0 := by
  rw [countP_eq_zero, done.objects]
  intro _ member
  rw [map_append, map_map, map_map] at member
  rcases mem_append.mp member with vault | account
  · obtain ⟨outgoing, inside, rfl⟩ := mem_map.mp vault
    obtain ⟨k, row⟩ := queueVaultData_row queued inside
    cases kind : outgoing.object with
    | accountState =>
      rw [kind] at row
      exact row.elim
    | _ => exact Bool.false_ne_true
  · rcases mem_append.mp account with state | audit
    · obtain ⟨st, inside, rfl⟩ := mem_map.mp state
      have covered := done.accountsSent st inside
      change ¬ decide (acctCursor push.storage ctx.tenant < st.version) = true
      rw [decide_eq_true_eq]
      exact UInt64.not_lt.mpr covered
    · obtain ⟨_, _, rfl⟩ := mem_map.mp audit
      exact Bool.false_ne_true

/-- The server takes what is sent to it. -/
theorem pushed_log (x : Exchange) :
    (x.pushed P ctx N own).log = x.log ++ (x.push P ctx N own).handed.flatten := by
  obtain ⟨requests, handed, transport, -⟩ := (runPush_pushes P N.server ctx.tenant own true
    { storage := x.storage, transport := x.log }).hands
  change (x.push P ctx N own).handed = [] ++ requests at handed
  change (x.push P ctx N own).transport = _ at transport
  rw [pushed, transport, handed, nil_append, Numbering.replay_server]

theorem storedCursor_settles (settles : Settles s s') (tenant : Bytes) :
    storedCursor s' tenant = storedCursor s tenant := by
  unfold storedCursor getSyncCursor
  rw [settles.pullCursors]

/-- The objects a completed push sends are no audit entries that the device accepts. -/
theorem EchoFree.sent_foreign (free : x.EchoFree P ctx N)
    (queued : (queueVaultData P ctx.tenant own).run { storage := x.storage, transport := t } =
      .ok vaultData mid) (done : Completed N.server ctx.tenant x.storage t
      (vaultData.filterMap (Queued.load x.storage)) final) :
    ∀ obj ∈ final.handed.flatten, ¬ obj.AcceptedAudit P ctx := by
  rw [done.objects]
  intro _ member accepted
  rw [map_append, map_map, map_map] at member
  rcases mem_append.mp member with vault | account
  · obtain ⟨outgoing, inside, rfl⟩ := mem_map.mp vault
    obtain ⟨k, row⟩ := queueVaultData_row queued inside
    cases kind : outgoing.object with
    | audit =>
      rw [kind] at row
      exact row.elim
    | _ =>
      rw [kind] at accepted
      exact accepted
  · rcases mem_append.mp account with state | audit
    · obtain ⟨_, inside, rfl⟩ := mem_map.mp state
      exact accepted
    · obtain ⟨entry, inside, rfl⟩ := mem_map.mp audit
      exact free.unsent entry inside accepted

/-- A completed push lowers the potential when it sends something. -/
theorem potential_completed {z : Exchange}
    (queued : (queueVaultData P ctx.tenant own).run { storage := x.storage, transport := x.log } =
      .ok vaultData mid)
    (done : Completed N.server ctx.tenant x.storage x.log
      (vaultData.filterMap (Queued.load x.storage)) final) (numbered : AuditNumbered x.storage)
    (storage : z.storage = final.storage)
    (unseen : z.unseen ctx N = x.unseen ctx N ++ final.handed.flatten) :
    z.potential ctx N ≤ x.potential ctx N ∧
      (final.handed.flatten ≠ [] → z.potential ctx N < x.potential ctx N) := by
  have dirty := Finset.card_le_card done.settles.noneDirtied.subset
  have accounts : accountPotential ctx.tenant final.storage (z.unseen ctx N) ≤
      2 * (x.unseen ctx N).countP (isNewAccount (acctCursor x.storage ctx.tenant)) := by
    unfold accountPotential
    rw [if_pos done.accountsDone, unseen, countP_append, countP_sent queued done]
    apply Nat.mul_le_mul_left
    apply countP_mono_left
    intro obj _ isNew
    cases obj with
    | accountState =>
      apply decide_eq_true
      exact UInt64.lt_of_le_of_lt done.accountCursor (of_decide_eq_true isNew)
    | _ => exact isNew
  have left : z.potential ctx N ≤ final.storage.dirty.card +
      2 * (x.unseen ctx N).countP (isNewAccount (acctCursor x.storage ctx.tenant)) := by
    unfold potential
    rw [storage, if_pos (done.auditsDone numbered)]
    omega
  unfold potential at left ⊢
  unfold accountPotential at left ⊢
  refine ⟨by omega, ?_⟩
  intro sent
  by_cases vault : vaultData.filterMap (Queued.load x.storage) = []
  · by_cases states : newAccountStates x.storage ctx.tenant = []
    · by_cases audits : newAuditEntries x.storage ctx.tenant = []
      · rw [done.objects, vault, states, audits] at sent
        exact (sent rfl).elim
      · rw [if_neg audits]
        omega
    · rw [if_neg states]
      omega
  · have fewer := dirty_card_lt queued done vault
    omega

/-- A push keeps an exchange free of echoes, and lowers the potential when it sends something. -/
theorem EchoFree.push_lowers (free : x.EchoFree P ctx N)
    (fits : N.Fits (x.pushed P ctx N own).log.length) :
    Lowers P ctx N (x.push P ctx N own).handed.flatten x (x.pushed P ctx N own) := by
  obtain ⟨k, le, seen⟩ := free.position
  cases queued : (queueVaultData P ctx.tenant own).run
      { storage := x.storage, transport := x.log } with
  | error e failed =>
    have queues := queueVaultData_queues P ctx.tenant own (τ := List SyncObject)
      { storage := x.storage, transport := x.log }
    rw [queued, finalState_error] at queues
    have ended : x.push P ctx N own = failed := by
      unfold push
      rw [runPush_eq, queued]
      rfl
    have nothing : (x.push P ctx N own).handed = [] := ended ▸ queues.handed
    have same : x.pushed P ctx N own =
        { storage := { x.storage with metaTable := failed.storage.metaTable }, log := x.log } := by
      unfold pushed
      rw [ended, queues.transport, ← queues.storage]
    rw [same, nothing]
    exact ⟨⟨free.position, free.foreign, free.unsent, free.numbered.congr rfl⟩,
      Nat.le_refl _, fun sent => (sent rfl).elim, rfl⟩
  | ok vaultData mid =>
    obtain ⟨_, final, ran, done⟩ := runPush_completed P N.server_accepts queued
      free.numbered.auditsFit
    have ended : x.push P ctx N own = final := by
      unfold push
      rw [ran]
      rfl
    have storage : (x.pushed P ctx N own).storage = final.storage := by rw [pushed, ended]
    have log : (x.pushed P ctx N own).log = x.log ++ final.handed.flatten := by
      rw [pushed_log, ended]
    have longer : x.log.length ≤ (x.pushed P ctx N own).log.length := by
      rw [log, length_append]
      exact Nat.le_add_right _ _
    have seen' : storedCursor (x.pushed P ctx N own).storage ctx.tenant = N.cursorAt k := by
      rw [storage, storedCursor_settles done.settles, seen]
    have unseen : (x.pushed P ctx N own).unseen ctx N = x.unseen ctx N ++ final.handed.flatten := by
      rw [unseen_eq fits (Nat.le_trans le longer) seen', unseen_eq (fits.mono longer) le seen, log,
        drop_append_of_le_length le]
    obtain ⟨notMore, less⟩ := potential_completed queued done free.numbered storage unseen
    have kept : (x.pushed P ctx N own).storage.auditLog = x.storage.auditLog := by
      rw [storage, done.settles.auditLog]
    rw [ended]
    refine ⟨⟨⟨k, Nat.le_trans le longer, seen'⟩, ?_, ?_, ?_⟩, notMore, less, kept⟩
    · rw [unseen]
      intro obj member
      rcases mem_append.mp member with before | sent
      · exact free.foreign obj before
      · exact free.sent_foreign queued done obj sent
    · rw [storage, done.auditsDone free.numbered]
      exact nofun
    · exact free.numbered.congr kept

/-! ## Cycles -/

/-- A cycle that sends something leaves less to exchange. -/
theorem EchoFree.cycle_lowers (free : x.EchoFree P ctx N)
    (fits : N.Fits (x.cycle P ctx N own).log.length) :
    Lowers P ctx N (x.sent P ctx N own) x (x.cycle P ctx N own) := by
  have longer : x.log.length ≤ (x.cycle P ctx N own).log.length := by
    rw [cycle, pushed_log, length_append]
    exact Nat.le_add_right _ _
  obtain ⟨freePulled, le, kept⟩ := free.pulled_le (fits.mono longer)
  have lowers := freePulled.push_lowers fits
  refine ⟨lowers.free, Nat.le_trans lowers.le le, ?_, lowers.auditLog.trans kept⟩
  intro sent
  exact Nat.lt_of_lt_of_le (lowers.lt sent) le

/-- The exchange after some cycles. -/
def after (P : Primitives) (ctx : SyncContext) (N : Numbering) (own : Option Bytes)
    (x : Exchange) (n : Nat) : Exchange :=
  (cycle P ctx N own)^[n] x

theorem after_succ (x : Exchange) (n : Nat) :
    x.after P ctx N own (n + 1) = (x.after P ctx N own n).cycle P ctx N own :=
  Function.iterate_succ_apply' _ n x

variable {n : Nat}

theorem after_log_le (le : i ≤ n) :
    (x.after P ctx N own i).log.length ≤ (x.after P ctx N own n).log.length := by
  induction le with
  | refl => exact Nat.le_refl _
  | @step n _ ih =>
    rw [after_succ, cycle, pushed_log, length_append]
    exact Nat.le_trans ih (Nat.le_add_right _ _)

theorem EchoFree.after_free (free : x.EchoFree P ctx N)
    (fits : N.Fits (x.after P ctx N own n).log.length) :
    (x.after P ctx N own n).EchoFree P ctx N ∧
      (x.after P ctx N own n).storage.auditLog = x.storage.auditLog := by
  induction n with
  | zero => exact ⟨free, rfl⟩
  | succ n ih =>
    obtain ⟨before, kept⟩ := ih (fits.mono (after_log_le (Nat.le_succ n)))
    rw [after_succ] at fits ⊢
    have lowers := before.cycle_lowers fits
    exact ⟨lowers.free, lowers.auditLog.trans kept⟩

theorem EchoFree.after_lowers (free : x.EchoFree P ctx N)
    (fits : N.Fits (x.after P ctx N own (n + 1)).log.length) :
    Lowers P ctx N ((x.after P ctx N own n).sent P ctx N own) (x.after P ctx N own n)
      (x.after P ctx N own (n + 1)) := by
  have before := (free.after_free (fits.mono (after_log_le (Nat.le_succ n)))).1
  rw [after_succ] at fits ⊢
  exact before.cycle_lowers fits

/-- As many cycles send something as there is to exchange, at most. -/
theorem EchoFree.countP_sent_le (free : x.EchoFree P ctx N)
    (fits : N.Fits (x.after P ctx N own n).log.length) :
    (List.range n).countP (fun i => (x.after P ctx N own i).sent P ctx N own ≠ []) ≤
      x.potential ctx N := by
  let remaining (i : Nat) := (x.after P ctx N own i).potential ctx N
  have fitsAt : ∀ i < n, N.Fits (x.after P ctx N own (i + 1)).log.length :=
    fun i below => fits.mono (after_log_le below)
  have counted := @countP_active_le remaining
    (fun i => (x.after P ctx N own i).sent P ctx N own ≠ []) _ n
    (fun i below => (free.after_lowers (fitsAt i below)).le)
    fun i below => (free.after_lowers (fitsAt i below)).lt
  exact Nat.le_trans (Nat.le_add_right _ _) counted

/-- From some cycle on nothing is sent. -/
theorem EchoFree.eventually_silent (free : x.EchoFree P ctx N)
    (fits : ∀ n, N.Fits (x.after P ctx N own n).log.length) :
    ∃ start, ∀ n, start ≤ n → (x.after P ctx N own n).sent P ctx N own = [] := by
  let remaining (i : Nat) := (x.after P ctx N own i).potential ctx N
  obtain ⟨start, silent⟩ := @eventually_inactive remaining
    (fun i => (x.after P ctx N own i).sent P ctx N own ≠ []) _
    (fun i => (free.after_lowers (fits (i + 1))).le)
    fun i => (free.after_lowers (fits (i + 1))).lt
  exact ⟨start, fun n later => not_not.mp (silent n later)⟩

/-! ## An audit entry that comes back -/

variable {tenant : Bytes}

/-- A device without dirty rows has no vault data to send. -/
theorem queueVaultData_clean {τ : Type} {t : τ} (clean : s.dirty = ∅) :
    ∃ mid, (queueVaultData P tenant own).run { storage := s, transport := t } = .ok [] mid := by
  have none : ∀ k, ¬ s.IsDirty k := by
    intro k dirty
    rw [← mem_dirty, clean] at dirty
    exact Finset.notMem_empty k dirty
  have vaults : s.listDirtyBoundVaults tenant = [] := by
    rw [eq_nil_iff_forall_not_mem]
    intro v listed
    have pending : (SyncObject.vault v).Pending s tenant := listed
    exact none (.vault v.vaultId) (pending.isDirty rfl)
  have manifests : s.listDirtyBoundManifests tenant = [] := by
    rw [eq_nil_iff_forall_not_mem]
    intro m listed
    have pending : (SyncObject.membershipManifest m).Pending s tenant := listed
    obtain ⟨⟨key, row⟩, -, rfl⟩ := mem_map.mp listed
    exact none (.manifest key.1 key.2) (pending.isDirty ⟨rfl, rfl⟩)
  have grants : s.listDirtyBoundGrants tenant = [] := by
    rw [eq_nil_iff_forall_not_mem]
    intro g listed
    have pending : (SyncObject.membershipGrant g).Pending s tenant := listed
    obtain ⟨⟨key, row⟩, -, rfl⟩ := mem_map.mp listed
    exact none (.grant key.1 key.2.1 key.2.2) (pending.isDirty ⟨rfl, rfl, rfl⟩)
  have items : s.listDirtyBoundItemVersions tenant = [] := by
    rw [eq_nil_iff_forall_not_mem]
    intro _ listed
    obtain ⟨⟨key, row⟩, filtered, rfl⟩ := mem_map.mp listed
    obtain ⟨stored, chosen⟩ := mem_filter.mp filtered
    exact none (.item key.1 key.2) ⟨row,
      mem_toList_iff_getElem?_eq_some.mp stored, (of_decide_eq_true chosen).2⟩
  unfold queueVaultData forgetSettled
  simp only [EStateM.run_bind, EStateM.run_get, items, queueItems, EStateM.run_pure,
    Push.write_run, beforeItems, vaults, manifests, grants, map_nil, append_nil]
  have saved : ∀ key s, saveRefused key [] s = .ok (s.setMeta key []) :=
    fun _ _ => rfl
  have saved' : ∀ key s, saveForbidden key [] s = .ok (s.setMeta key []) :=
    fun _ _ => rfl
  have unrefused : serverRefused [] = [] := rfl
  simp only [unrefused, saved, saved', ← apply_ite Except.ok]
  exact ⟨_, rfl⟩

/-- Everything is exchanged but one audit entry, which the server holds last. -/
structure Looping (ctx : SyncContext) (N : Numbering) (a : AuditObject) (x : Exchange) : Prop where
  clean : x.storage.dirty = ∅
  states : newAccountStates x.storage ctx.tenant = []
  audits : newAuditEntries x.storage ctx.tenant = []
  numbered : AuditNumbered x.storage
  highest : ∀ entry ∈ x.storage.auditLog, entry.seq ≤ x.storage.auditSeq
  cursor : ((x.storage.getSyncCursor (pushCursorKey ctx.tenant)).getD 0).toNat ≤
    x.storage.auditSeq
  seen : ∃ k, k + 1 = x.log.length ∧ storedCursor x.storage ctx.tenant = N.cursorAt k ∧
    x.log.drop k = [.audit a]

variable {a : AuditObject}

theorem processObject_accepted (accepted : (SyncObject.audit a).AcceptedAudit P ctx) (s : Storage) :
    (processObject P ctx (.audit a)).run s =
      .ok .applied (s.appendAudit a.entryBlob a.signature a.authorPubkey) := by
  obtain ⟨own, signed⟩ := accepted
  obtain ⟨author, parsed, verified⟩ : ∃ author, verifyingKeyFromBytes P a.authorPubkey = .ok author ∧
      verifyVersion P author (.fromContent P (auditAad a.vaultId) a.entryBlob) a.signature = .ok () := by
    unfold verifySigned at signed
    split at signed
    · cases signed
    · next author parsed =>
      split at signed
      · cases signed
      · next verified => exact ⟨author, parsed, verified⟩
  change (processAudit P ctx a).run s = _
  unfold processAudit
  rw [parsed]
  dsimp only
  rw [if_neg (not_not.mpr own), verified]
  rfl

/-- The storage after a pull that appended one audit entry. -/
def appended (tenant : Bytes) (a : AuditObject) (cursor : SqlInt) (s : Storage) : Storage :=
  { s.appendAudit a.entryBlob a.signature a.authorPubkey with
    syncState := s.syncState.insert (pullCursorKey tenant) cursor }

theorem appended_getSyncCursor (other : key ≠ pullCursorKey tenant) :
    (appended tenant a cursor s).getSyncCursor key = s.getSyncCursor key := by
  unfold getSyncCursor appended
  rw [Table.getElem?_insert, if_neg (Ne.symm other)]

/-- A pull appends the entry once more. -/
theorem Looping.pulled (loop : x.Looping ctx N a) (fits : N.Fits x.log.length)
    (accepted : (SyncObject.audit a).AcceptedAudit P ctx) :
    ∃ cursor : SqlInt, cursor.toU64 = N.cursorAt x.log.length ∧
      x.pulled P ctx N = { x with storage := appended ctx.tenant a cursor x.storage } := by
  obtain ⟨k, last, seen, unseen⟩ := loop.seen
  have inRange : N.number k ≤ i64Max := Numbering.number_le fits (by omega)
  refine ⟨⟨N.number k, inRange⟩, by rw [← last]; rfl, ?_⟩
  unfold Exchange.pulled
  rw [syncPull_honest fits (by omega) seen, unseen, Numbering.numberFrom,
    Numbering.numberFrom, consume, EStateM.run_bind, processObject_accepted accepted]
  dsimp only
  rw [EStateM.run_bind, storageWrite_run, setSyncCursor_eq_ok.mpr
    ⟨⟨N.number k, inRange⟩, rfl, rfl⟩]
  rfl

theorem Looping.newAuditEntries_appended (cursor : SqlInt) (loop : x.Looping ctx N a)
    (room : x.storage.auditSeq < i64Max.toNat) :
    newAuditEntries (appended ctx.tenant a cursor x.storage) ctx.tenant =
      [{ seq := x.storage.auditSeq + 1, entryBlob := a.entryBlob, signature := a.signature,
         authorPubkey := a.authorPubkey, recordedAt := x.storage.now }] := by
  have below := loop.cursor
  have inRange : ¬ i64Max < (x.storage.getSyncCursor (pushCursorKey ctx.tenant)).getD 0 := by
    rw [UInt64.not_lt, UInt64.le_iff_toNat_le]
    omega
  have nothing := loop.audits
  unfold newAuditEntries listAudit at nothing ⊢
  rw [if_neg inRange] at nothing
  rw [appended_getSyncCursor (pushCursorKey_ne _ _), if_neg inRange]
  change (x.storage.auditLog ++ [_]).filter _ = _
  rw [filter_append, nothing, nil_append, filter_eq_self]
  intro _ same
  cases mem_singleton.mp same
  exact decide_eq_true (Nat.lt_succ_of_le below)

/-- A looping exchange sends the entry back, and the next cycle finds it again. -/
theorem Looping.cycle (loop : x.Looping ctx N a)
    (accepted : (SyncObject.audit a).AcceptedAudit P ctx) (unscoped : a.vaultId = [])
    (fits : N.Fits (x.log.length + 1)) (room : x.storage.auditSeq < i64Max.toNat) :
    x.sent P ctx N own = [.audit a] ∧ (x.cycle P ctx N own).Looping ctx N a ∧
      (x.cycle P ctx N own).storage.auditLog.length = x.storage.auditLog.length + 1 ∧
      (x.cycle P ctx N own).storage.auditSeq = x.storage.auditSeq + 1 ∧
      (x.cycle P ctx N own).log.length = x.log.length + 1 := by
  obtain ⟨cursor, atEnd, pulled⟩ := loop.pulled (fits.mono (Nat.le_succ _)) accepted
  let s := appended ctx.tenant a cursor x.storage
  have numbered : AuditNumbered s :=
    (loop.numbered.appendAudit loop.highest room a.entryBlob a.signature a.authorPubkey).congr rfl
  have new := loop.newAuditEntries_appended cursor room
  have states : newAccountStates s ctx.tenant = [] := by
    have none := newAccountStates_eq_nil.mp loop.states
    rw [newAccountStates_eq_nil]
    unfold acctCursor at none ⊢
    rw [appended_getSyncCursor (acctPushCursorKey_ne _ _)]
    exact none
  have clean : s.dirty = ∅ := loop.clean
  obtain ⟨_, queued⟩ := @queueVaultData_clean P own s ctx.tenant _ x.log clean
  obtain ⟨_, final, ran, done⟩ := runPush_completed P N.server_accepts queued
    numbered.auditsFit
  have ended : (x.pulled P ctx N).push P ctx N own = final := by
    rw [pulled]
    exact congrArg finalState ran
  have sent : final.handed.flatten = [.audit a] := by
    rw [done.objects, states, new]
    change [SyncObject.audit _] = _
    rw [← unscoped]
  have log : (x.cycle P ctx N own).log = x.log ++ [.audit a] := by
    rw [Exchange.cycle, pushed_log, ended, sent, pulled]
  have storage : (x.cycle P ctx N own).storage = final.storage := by
    rw [Exchange.cycle, pushed, ended]
  have auditLog : final.storage.auditLog = s.auditLog := done.settles.auditLog
  have auditSeq : final.storage.auditSeq = x.storage.auditSeq + 1 := done.settles.auditSeq
  have length : s.auditLog.length = x.storage.auditLog.length + 1 := by
    change (x.storage.auditLog ++ [_]).length = _
    rw [length_append, length_singleton]
  refine ⟨by rw [Exchange.sent, ended, sent], ?_, ?_, ?_, ?_⟩
  · have stored : storedCursor s ctx.tenant = N.cursorAt x.log.length := by
      rw [← atEnd]
      change (((x.storage.syncState.insert (pullCursorKey ctx.tenant) cursor)[_]?).map _).getD 0 = _
      rw [Table.getElem?_insert, if_pos rfl]
      rfl
    have pushCursor : final.storage.getSyncCursor (pushCursorKey ctx.tenant) =
        some (.ofNat (x.storage.auditSeq + 1)) := by
      rw [done.auditCursor, new]
      rfl
    have small : x.storage.auditSeq + 1 < 2 ^ 64 := Nat.lt_of_le_of_lt room i64Max.toNat_lt
    refine
      { clean := ?_
        states := storage ▸ done.accountsDone
        audits := storage ▸ done.auditsDone numbered
        numbered := numbered.congr (storage ▸ auditLog)
        highest := ?_
        cursor := ?_
        seen := ⟨x.log.length, ?_, ?_, ?_⟩ }
    · rw [storage, ← Finset.subset_empty, ← clean]
      exact done.settles.noneDirtied.subset
    · rw [storage, auditLog, auditSeq]
      intro entry listed
      rcases mem_append.mp listed with before | same
      · exact Nat.le_succ_of_le (loop.highest entry before)
      · cases mem_singleton.mp same
        exact Nat.le_refl _
    · rw [storage, pushCursor, auditSeq]
      exact Nat.le_of_eq (UInt64.toNat_ofNat_of_lt' small)
    · rw [log, length_append, length_singleton]
    · rw [storage, storedCursor_settles done.settles, stored]
    · rw [log, drop_left]
  · rw [storage, auditLog, length]
  · rw [storage, auditSeq]
  · rw [log, length_append, length_singleton]

/-- The entry is sent in every cycle, and every cycle appends it to the log. -/
theorem Looping.forever (loop : x.Looping ctx N a)
    (accepted : (SyncObject.audit a).AcceptedAudit P ctx) (unscoped : a.vaultId = []) (n : Nat)
    (fits : N.Fits (x.log.length + n + 1)) (room : x.storage.auditSeq + n < i64Max.toNat) :
    (x.after P ctx N own n).sent P ctx N own = [.audit a] ∧
      (x.after P ctx N own n).storage.auditLog.length = x.storage.auditLog.length + n := by
  have reached : ∀ i ≤ n, (x.after P ctx N own i).Looping ctx N a ∧
      (x.after P ctx N own i).log.length = x.log.length + i ∧
      (x.after P ctx N own i).storage.auditSeq = x.storage.auditSeq + i ∧
      (x.after P ctx N own i).storage.auditLog.length = x.storage.auditLog.length + i := by
    intro i _
    induction i with
    | zero => exact ⟨loop, rfl, rfl, rfl⟩
    | succ _ ih =>
      obtain ⟨before, log, seq, entries⟩ := ih (by omega)
      obtain ⟨-, looping, _, _, _⟩ := @Looping.cycle P ctx N own _ a before accepted
        unscoped (fits.mono (by omega)) (by omega)
      rw [after_succ]
      exact ⟨looping, by omega, by omega, by omega⟩
  obtain ⟨looping, log, seq, entries⟩ := reached n (Nat.le_refl n)
  exact ⟨(looping.cycle accepted unscoped (log ▸ fits) (seq ▸ room)).1, entries⟩

/-! ## Nothing left to exchange -/

/-- Where nothing is left, nothing is sent. -/
theorem push_silent (numbered : AuditNumbered x.storage) (nothing : x.potential ctx N = 0) :
    (x.push P ctx N own).handed.flatten = [] := by
  unfold potential accountPotential at nothing
  have clean : x.storage.dirty = ∅ := Finset.card_eq_zero.mp (by omega)
  have states : newAccountStates x.storage ctx.tenant = [] := by
    by_contra some
    rw [if_neg some] at nothing
    omega
  have audits : newAuditEntries x.storage ctx.tenant = [] := by
    by_contra some
    rw [if_neg some] at nothing
    omega
  obtain ⟨_, queued⟩ := @queueVaultData_clean P own x.storage ctx.tenant _ x.log clean
  obtain ⟨_, _, ran, done⟩ := runPush_completed P N.server_accepts queued
    numbered.auditsFit
  unfold push
  rw [ran, finalState_ok, done.objects, states, audits]
  rfl

theorem EchoFree.silent (free : x.EchoFree P ctx N) (fits : N.Fits x.log.length)
    (nothing : x.potential ctx N = 0) (n : Nat) : (x.after P ctx N own n).log = x.log := by
  have stays : (x.after P ctx N own n).EchoFree P ctx N ∧
      (x.after P ctx N own n).potential ctx N = 0 ∧ (x.after P ctx N own n).log = x.log := by
    induction n with
    | zero => exact ⟨free, nothing, rfl⟩
    | succ n ih =>
      obtain ⟨before, still, same⟩ := ih
      rw [← same] at fits
      obtain ⟨pulled, _, -⟩ := before.pulled_le fits
      have silent := @push_silent P ctx N own _ pulled.numbered (by omega)
      have log : (x.after P ctx N own (n + 1)).log = (x.after P ctx N own n).log := by
        rw [after_succ, Exchange.cycle, pushed_log, silent, append_nil]
        rfl
      rw [← log, after_succ] at fits
      have lowers := before.cycle_lowers fits
      rw [log, same, after_succ]
      exact ⟨lowers.free, Nat.le_zero.mp (still ▸ lowers.le), rfl⟩
  exact stays.2.2

end Exchange

/-- A clean row is not sent back unless it was edited since, and a pull without accepted audit
entries appends none. Without such entries only finitely many cycles send something. -/
theorem pulled_not_pushed_back (P : Primitives) :
    (∀ (s later : Storage) (call : PullCall) (k : RowKey) (τ : Type) (T : SyncTransport τ) (t : τ)
      (own : Option Bytes) (accountWide : Bool),
      ¬ s.IsDirty k → SameRow (call.run P s) later k →
        ∀ obj ∈ handedBy P T call.context.tenant own accountWide later t, ¬ obj.RowOf k) ∧
    (∀ (s : Storage) (call : PullCall),
      (∀ entry ∈ call.objects P s, ¬ entry.2.AcceptedAudit P call.context) →
        (call.run P s).auditLog = s.auditLog) ∧
    (∀ (ctx : SyncContext) (N : Numbering) (own : Option Bytes) (x : Exchange), x.EchoFree P ctx N →
        (∀ n, N.Fits (x.after P ctx N own n).log.length →
          (x.after P ctx N own n).storage.auditLog = x.storage.auditLog ∧
          (List.range n).countP (fun i => (x.after P ctx N own i).sent P ctx N own ≠ []) ≤
            x.potential ctx N) ∧
        ((∀ n, N.Fits (x.after P ctx N own n).log.length) →
          ∃ start, ∀ n, start ≤ n → (x.after P ctx N own n).sent P ctx N own = [])) := by
  refine ⟨?_, ?_, ?_⟩
  · intro s _ call k τ T t own _ clean unedited _ handed
    exact not_handedBy_of_clean clean unedited handed
  · intro s _ foreign
    exact PullCall.run_auditLog foreign
  · intro _ N _ x free
    refine ⟨fun n fits => ⟨(free.after_free fits).2, free.countP_sent_le fits⟩, ?_⟩
    exact free.eventually_silent

namespace Sample

/-- Objects are numbered from one and handed out one at a time. -/
def numbering : Numbering where
  seqOf n := n + 1
  increasing := fun _ _ less => Nat.succ_lt_succ less
  positive := Nat.one_pos
  page _ := 1
  pages := fun _ => Nat.one_pos

/-- A fresh device and a server that holds one item of its account. -/
def itemExchange : Exchange := { storage := {}, log := [.item liveItem] }

theorem itemExchange_echoFree : itemExchange.EchoFree .transparent context numbering where
  position := ⟨0, Nat.zero_le _, rfl⟩
  foreign := by
    have unseen : itemExchange.unseen context numbering = [.item liveItem] := rfl
    rw [unseen]
    intro _ member accepted
    cases mem_singleton.mp member
    exact accepted
  unsent := nofun
  numbered := AuditNumbered.empty rfl

def auditEntry : AuditObject where
  vaultId := []
  entryBlob := [3]
  signature := signature owner (auditAad []) [3]
  authorPubkey := ownerKey

/-- A fresh device and a server that holds one audit entry of its account. -/
def auditExchange : Exchange := { storage := {}, log := [.audit auditEntry] }

/-- An item edited on two devices: the first version is not pushed when the second arrives. -/
def newerItem : ItemRecord := item owner [5] [6] 2 0

def editedDevice : Storage :=
  let edited : Except StorageError Storage := do
    let s ← ({} : Storage).putVault liveVault
    let s := s.setVaultTenant vaultId context.tenant
    let s ← s.putItem liveItem
    .ok (s.markItemDirty vaultId [5])
  edited.toOption.getD {}

/-- The device after the second version arrived. -/
def overwrittenDevice : Storage :=
  (PullCall.applyPulledObjects context [(1, .item newerItem)]).run .transparent editedDevice

end Sample

open Sample

/-- An own audit entry returns in every cycle, and so does a version pulled over an unsent edit. -/
theorem pulled_content_is_pushed_back :
    (∀ n, n + 1 < i64Max.toNat →
      let x := auditExchange.after .transparent context numbering none n
      x.sent .transparent context numbering none = [.audit auditEntry] ∧
        x.storage.auditLog.length = n) ∧
    (editedDevice.getItem vaultId [5] = some liveItem ∧
      overwrittenDevice.getItem vaultId [5] = some newerItem ∧
      .item newerItem ∈ handedBy .transparent numbering.server
        context.tenant none true overwrittenDevice []) := by
  refine ⟨?_, ?_⟩
  · intro n _
    have fits : numbering.Fits (1 + n + 1) := by
      intro i _
      change i + 1 ≤ _
      omega
    have empty : auditExchange.storage.auditSeq = 0 := rfl
    have looping : auditExchange.Looping context numbering auditEntry :=
      ⟨rfl, rfl, rfl, .empty rfl, nofun, Nat.zero_le _, 0, rfl, rfl, rfl⟩
    obtain ⟨sent, grown⟩ := @Exchange.Looping.forever .transparent context numbering
      none _ _ looping ⟨rfl, by decide +kernel⟩ rfl n fits (by omega)
    refine ⟨sent, ?_⟩
    rw [grown]
    exact Nat.zero_add n
  · refine ⟨?_, ?_, ?_⟩
    all_goals decide +kernel

/-- The item a fresh device pulled is not sent back, and the device falls silent. -/
theorem pulled_not_pushed_back_item :
    let call := PullCall.applyPulledObjects context [(1, .item liveItem)]
    let pulled := call.run .transparent {}
    let after := itemExchange.after .transparent context numbering none
    pulled.getItem vaultId [5] = some liveItem ∧
      .item liveItem ∉ handedBy .transparent numbering.server context.tenant none true pulled [] ∧
      pulled.auditLog = [] ∧
      (∀ n, (after n).storage.auditLog = []) ∧
      ∃ start, ∀ n, start ≤ n → (after n).sent .transparent context numbering none = [] := by
  intro call pulled after
  obtain ⟨rows, entries, cycles⟩ := pulled_not_pushed_back .transparent
  have clean : ¬ ({} : Storage).IsDirty (.item vaultId [5]) := by
    rintro ⟨_, found, -⟩
    cases found
  have fits : ∀ n, numbering.Fits (after n).log.length := by
    have nothing : itemExchange.potential context numbering = 0 := rfl
    have first : numbering.Fits 1 := by
      intro i below
      cases Nat.lt_one_iff.mp below
      decide
    intro n
    have same : (after n).log = itemExchange.log :=
      itemExchange_echoFree.silent first nothing n
    rw [same]
    exact first
  obtain ⟨kept, silent⟩ := cycles _ _ none _ itemExchange_echoFree
  refine ⟨by decide +kernel, ?_, ?_, fun n => (kept n (fits n)).1, silent fits⟩
  · intro handed
    exact rows {} pulled call _ _ _ _ _ _ clean rfl _ handed ⟨rfl, rfl⟩
  · apply entries {} call
    intro _ member accepted
    cases mem_singleton.mp member
    exact accepted

/-! ## A log that grows between pulls -/

/-- Page sizes a server may choose. -/
abbrev PageSizes := { page : UInt64 → Nat // ∀ cursor, 0 < page cursor }

/-- The same numbers in other pages. -/
def Numbering.inPages (N : Numbering) (sizes : PageSizes) : Numbering :=
  { N with page := sizes, pages := sizes.2 }

section Growing

variable (P : Primitives) (ctx : SyncContext) (N : Numbering)

/-- Pulls while the log grows part by part, each pull getting pages of its own sizes. -/
def pullGrowing (log : List SyncObject) : List (PageSizes × List SyncObject) → SyncM Unit
  | [] => pure ()
  | (sizes, more) :: parts => do
    let _ ← syncPull P ctx (N.inPages sizes).server (log ++ more)
    pullGrowing (log ++ more) parts

variable {P ctx N} {k : Nat}

theorem numberFrom_inPages (sizes : PageSizes) (k : Nat) (objects : List SyncObject) :
    (N.inPages sizes).numberFrom k objects = N.numberFrom k objects := by
  induction objects generalizing k with
  | nil => rfl
  | cons _ _ ih => exact congrArg ((N.number k, _) :: ·) (ih (k + 1))

theorem consume_cursor (seen : storedCursor s ctx.tenant = N.cursorAt k)
    (ran : (consume P ctx (N.numberFrom k objects) report).run s = .ok report' s') :
    storedCursor s' ctx.tenant = N.cursorAt (k + objects.length) := by
  induction objects generalizing k s report with
  | nil =>
    cases ran
    exact seen
  | cons _ rest ih =>
    rw [length_cons, Nat.add_comm rest.length, ← Nat.add_assoc]
    obtain ⟨_, _, -, ran⟩ := bind_run_ok ran
    obtain ⟨_, _, wrote, ran⟩ := bind_run_ok ran
    have moved := mapError_eq_ok.mp (writeM_run_ok wrote)
    exact ih (storedCursor_setSyncCursor moved) ran

/-- What was reported before does not change what a pull does. -/
theorem consume_bind_of_report (report report' : SyncReport) (next : SyncM Unit) :
    (consume P ctx entries report >>= fun _ => next) =
      consume P ctx entries report' >>= fun _ => next := by
  induction entries generalizing report report' with
  | nil => rfl
  | cons _ _ ih =>
    simp only [consume, bind_assoc]
    congr 1
    funext outcome
    congr 1
    funext
    exact congrFun (ih _ _) _

/-- However a log that grows is pulled, the device ends as after one pull of the whole log. -/
theorem growing_log_pulled_at_once {log : List SyncObject} {parts : List (PageSizes × List SyncObject)}
    {s : Storage} (fits : N.Fits (log ++ (parts.map Prod.snd).flatten).length)
    (seen : storedCursor s ctx.tenant = N.cursorAt log.length) :
    (pullGrowing P ctx N log parts).run s =
      (do let _ ← syncPull P ctx N.server (log ++ (parts.map Prod.snd).flatten)).run s := by
  rw [EStateM.run_bind, syncPull_honest fits (by simp) seen, drop_left, ← EStateM.run_bind]
  -- each pull consumes its part and leaves the cursor where the next part begins
  induction parts generalizing log s with
  | nil => rfl
  | cons part parts ih =>
    obtain ⟨sizes, more⟩ := part
    rw [map_cons, flatten_cons, ← append_assoc] at fits
    have pulled : (syncPull P ctx (N.inPages sizes).server (log ++ more)).run s =
        (consume P ctx (N.numberFrom log.length more) {}).run s := by
      have inRange : (N.inPages sizes).Fits (log ++ more).length := fits.mono (by simp)
      rw [syncPull_honest inRange (by simp) seen, drop_left, numberFrom_inPages]
    rw [map_cons, flatten_cons, Numbering.numberFrom_append, consume_append, bind_assoc, pullGrowing,
      EStateM.run_bind, EStateM.run_bind, pulled]
    cases ran : (consume P ctx (N.numberFrom log.length more) {}).run s with
    | error => rfl
    | ok report mid =>
      have seen' := consume_cursor seen ran
      rw [← length_append] at seen' ⊢
      dsimp only
      rw [ih fits seen', consume_bind_of_report]

end Growing

/-- An item and an audit entry, pulled one after the other or together. -/
theorem two_pulls_as_one :
    let threes : PageSizes := ⟨fun _ => 3, fun _ => Nat.succ_pos 2⟩
    (pullGrowing .transparent context numbering []
        [(threes, [.item liveItem]), (threes, [.audit auditEntry])]).run {} =
      (do let _ ← syncPull .transparent context numbering.server
            [.item liveItem, .audit auditEntry]).run {} :=
  growing_log_pulled_at_once (fun _ below => Nat.le_trans below (by decide)) rfl

end UniSsh
