import UniSsh.Sync.Pushed

/-!
# Pushing to a server that accepts everything

Such a push hands over its whole queue in order, clears every flag of it and moves both cursors to
the last of what was sent (`send_delivers`).
-/

namespace UniSsh

open List

open EStateM (run_bind run_get run_modify run_pure)

open Storage

/-! ## Settled objects -/

/-- The row an object came from is not dirty. -/
def SyncObject.Settled (s : Storage) : SyncObject → Prop
  | .vault v => ∀ row, s.vaults[v.vaultId]? = some row → row.dirty = false
  | .item i => ∀ row, s.items[(i.vaultId, i.itemId)]? = some row → row.dirty = false
  | .membershipManifest m => ∀ (n : SqlInt) row, n.toU64 = m.keyEpoch →
      s.membershipManifests[(m.vaultId, n)]? = some row → row.dirty = false
  | .membershipGrant g => ∀ (n : SqlInt) row, n.toU64 = g.keyEpoch →
      s.membershipGrants[(g.vaultId, g.memberPubkey, n)]? = some row → row.dirty = false
  | .audit _ => True
  | .keyset _ => True
  | .accountState _ => True

variable {s s' : Storage}

theorem clean_of_pointwise {K V : Type} [Ord K] [Std.TransOrd K] {t t' : Table K V} {k : K}
    {clear : V → V} {dirty : V → Bool} (clears : ∀ row, dirty (clear row) = false)
    (related : Table.Pointwise (Cleared clear) t t')
    (clean : ∀ row, t[k]? = some row → dirty row = false) :
    ∀ row, t'[k]? = some row → dirty row = false := by
  intro _ found'
  have here := related k
  rw [found'] at here
  cases found : t[k]? with
  | none =>
    rw [found] at here
    cases here
  | some row =>
    rw [found] at here
    cases here with
    | some cleared =>
      rcases cleared with rfl | rfl
      · exact clean _ found
      · exact clears row

variable {obj : SyncObject}

theorem SyncObject.Settled.mono (settled : obj.Settled s) (settles : Settles s s') :
    obj.Settled s' := by
  cases obj with
  | vault => exact clean_of_pointwise (fun _ => rfl) settles.vaults settled
  | item => exact clean_of_pointwise (fun _ => rfl) settles.items settled
  | membershipManifest =>
    intro n row epoch
    exact clean_of_pointwise (fun _ => rfl) settles.manifests
      (fun row found => settled n row epoch found) row
  | membershipGrant =>
    intro n row epoch
    exact clean_of_pointwise (fun _ => rfl) settles.grants
      (fun row found => settled n row epoch found) row
  | _ => trivial

/-- Clearing the flag of one key of a table. -/
theorem clean_of_updateWhere {K V : Type} [Ord K] [Std.TransOrd K] [Std.LawfulEqOrd K]
    [DecidableEq K] {t : Table K V} {k : K} {clear : V → V} {dirty : V → Bool}
    (clears : ∀ row, dirty (clear row) = false) :
    ∀ row, (t.updateWhere (fun a _ => decide (a = k)) clear)[k]? = some row → dirty row = false := by
  intro _ found
  rw [Table.getElem?_updateWhere] at found
  obtain ⟨old, -, rfl⟩ := map_eq_some_iff.mp found
  simpa using clears old

theorem clearDirty_settled (cleared : clearDirty s obj = .ok s') : obj.Settled s' := by
  cases obj with
  | vault =>
    cases cleared
    exact clean_of_updateWhere fun _ => rfl
  | item =>
    cases cleared
    exact clean_of_updateWhere fun _ => rfl
  | audit => trivial
  | keyset => trivial
  | accountState => trivial
  | _ =>
    obtain ⟨epoch, same, rfl⟩ := checkedWrite_eq_ok.mp cleared
    intro n row isEpoch
    obtain rfl : n = epoch := SqlInt.ext (isEpoch.trans same.symm)
    exact clean_of_updateWhere (fun _ => rfl) row

/-! ## What can be settled -/

/-- The numbers of an object fit their columns. -/
def Outgoing.Settleable (outgoing : Outgoing) : Prop :=
  match outgoing.sent, outgoing.object with
  | .dirty, .membershipManifest m => ∃ n : SqlInt, n.toU64 = m.keyEpoch
  | .dirty, .membershipGrant g => ∃ n : SqlInt, n.toU64 = g.keyEpoch
  | .audit seq, _ => ∃ n : SqlInt, n.toU64 = .ofNat seq
  | _, _ => True

variable {outgoing : Outgoing} {part : List Outgoing}

theorem settleOne_ok (settleable : outgoing.Settleable) :
    ∃ s', settleOne s outgoing = .ok s' ∧ s'.syncState = s.syncState ∧
      (outgoing.sent = .dirty → outgoing.object.Settled s') := by
  obtain ⟨object, sent⟩ := outgoing
  cases sent with
  | dirty =>
    obtain ⟨s', cleared, cursors⟩ : ∃ s', clearDirty s object = .ok s' ∧
        s'.syncState = s.syncState := by
      cases object with
      | membershipManifest =>
        obtain ⟨n, same⟩ := settleable
        exact ⟨_, checkedWrite_eq_ok.mpr ⟨n, same, rfl⟩, rfl⟩
      | membershipGrant =>
        obtain ⟨n, same⟩ := settleable
        exact ⟨_, checkedWrite_eq_ok.mpr ⟨n, same, rfl⟩, rfl⟩
      | _ => exact ⟨_, rfl, rfl⟩
    exact ⟨s', cleared, cursors, fun _ => clearDirty_settled cleared⟩
  | _ => exact ⟨s, rfl, rfl, nofun⟩

/-- A part whose numbers fit is settled as a whole. -/
theorem foldlM_settleOne (settleable : ∀ outgoing ∈ part, outgoing.Settleable) (s : Storage) :
    ∃ s', part.foldlM settleOne s = .ok s' ∧ s'.syncState = s.syncState ∧
      ∀ outgoing ∈ part, outgoing.sent = .dirty → outgoing.object.Settled s' := by
  induction part generalizing s with
  | nil => exact ⟨s, rfl, rfl, nofun⟩
  | cons outgoing _ ih =>
    obtain ⟨mid, settled, cursors, here⟩ := settleOne_ok (settleable outgoing mem_cons_self)
    obtain ⟨s', later, cursors', there⟩ :=
      ih (fun other member => settleable other (mem_cons_of_mem _ member)) mid
    refine ⟨s', ?_, cursors'.trans cursors, ?_⟩
    · rw [foldlM_cons, settled, ok_bind, later]
    · intro other member dirty
      rcases mem_cons.mp member with rfl | member
      · exact (here dirty).mono (foldlM_settles later)
      · exact there other member dirty

/-! ## Delivery -/

section Push

variable {τ : Type}

/-- How many account states a list of objects holds. -/
def accountsIn (out : List Outgoing) : Nat :=
  out.countP fun outgoing => outgoing.sent = .account

/-- Whether a push whose account states are not all accepted yet still expects some. -/
def Push.Expecting (push : Push τ) : Prop :=
  push.acctVersion ≠ none → push.acctLeft ≠ 0

/-- The account-state cursor has not moved, or moved to their highest version. -/
structure AccountsSettled (tenant : Bytes) (accounts : Nat) (push push' : Push τ) : Prop where
  left : push'.acctLeft = push.acctLeft - accounts
  cursor : (push'.acctVersion = push.acctVersion ∧
      push'.storage.getSyncCursor (acctPushCursorKey tenant) =
        push.storage.getSyncCursor (acctPushCursorKey tenant)) ∨
    (push'.acctVersion = none ∧ push.acctVersion ≠ none ∧
      push'.storage.getSyncCursor (acctPushCursorKey tenant) = push.acctVersion)
  expecting : push.Expecting → push'.Expecting

variable {tenant : Bytes} {n : Nat} {push' : Push τ} {push mid : Push τ}

theorem AccountsSettled.trans (first : AccountsSettled tenant m push mid)
    (second : AccountsSettled tenant n mid push') :
    AccountsSettled tenant (m + n) push push' where
  left := by rw [second.left, first.left, Nat.sub_sub]
  cursor := by
    rcases first.cursor with ⟨version, cursor⟩ | ⟨moved, some, cursor⟩
    · rcases second.cursor with ⟨version', cursor'⟩ | ⟨moved', some', cursor'⟩
      · exact .inl ⟨version'.trans version, cursor'.trans cursor⟩
      · exact .inr ⟨moved', version ▸ some', cursor'.trans version⟩
    · rcases second.cursor with ⟨version', cursor'⟩ | ⟨_, some', cursor'⟩
      · exact .inr ⟨version'.trans moved, some, cursor'.trans cursor⟩
      · exact (some' moved).elim
  expecting := fun expects => second.expecting (first.expecting expects)

theorem setCursor_run (inRange : v ≤ i64Max) :
    (setCursor key v).run push = .ok ()
      { push with
        storage := { push.storage with
          syncState := push.storage.syncState.insert key ⟨v, inRange⟩ } } := by
  have wrote : push.storage.setSyncCursor key v = .ok
      { push.storage with syncState := push.storage.syncState.insert key ⟨v, inRange⟩ } :=
    setSyncCursor_eq_ok.mpr ⟨⟨v, inRange⟩, rfl, rfl⟩
  unfold setCursor
  rw [Push.write_run, wrote]
  rfl

theorem getSyncCursor_insert (s : Storage) (key other : Bytes) (n : SqlInt) :
    ({ s with syncState := s.syncState.insert key n } : Storage).getSyncCursor other =
      if key = other then some n.toU64 else s.getSyncCursor other := by
  unfold Storage.getSyncCursor
  rw [Table.getElem?_insert]
  split <;> rfl

theorem pushCursorKey_ne_acct : acctPushCursorKey tenant ≠ pushCursorKey tenant :=
  tenantKey_ne (by decide) (by decide) (by decide)

/-- Settling accepted account states moves their cursor when the last one was accepted. -/
theorem settleAccounts_settled (tenant : Bytes) (accounts : Nat) (push : Push τ)
    (inRange : ∀ v, push.acctVersion = some v → v ≤ i64Max) :
    ∃ push', (settleAccounts tenant accounts).run push = .ok () push' ∧
      push'.transport = push.transport ∧ push'.handed = push.handed ∧
      Settles push.storage push'.storage ∧
      push'.storage.getSyncCursor (pushCursorKey tenant) =
        push.storage.getSyncCursor (pushCursorKey tenant) ∧
      AccountsSettled tenant accounts push push' := by
  cases version : push.acctVersion with
  | none =>
    refine ⟨{ push with acctLeft := push.acctLeft - accounts }, ?_, rfl, rfl, .refl _, rfl, rfl,
      .inl ⟨rfl, rfl⟩, fun _ some => (some version).elim⟩
    unfold settleAccounts
    simp only [run_bind, run_modify, run_get, version, run_pure]
  | some v =>
    by_cases done : push.acctLeft - accounts = 0
    · let moved : Push τ :=
        { push with
          acctLeft := push.acctLeft - accounts
          acctVersion := none
          storage := { push.storage with
            syncState := push.storage.syncState.insert (acctPushCursorKey tenant)
              ⟨v, inRange v version⟩ } }
      refine ⟨moved, ?_, rfl, rfl, setSyncCursor_settles (acctPushCursorKey_ne tenant)
        (setSyncCursor_eq_ok.mpr ⟨⟨v, inRange v version⟩, rfl, rfl⟩), ?_, rfl,
        .inr ⟨rfl, by simp [version], ?_⟩, fun _ some => (some rfl).elim⟩
      · unfold settleAccounts
        simp only [run_bind, run_modify, run_get, version, done, if_true,
          setCursor_run (inRange v version), moved]
      · exact (getSyncCursor_insert _ _ _ _).trans (if_neg pushCursorKey_ne_acct)
      · rw [version]
        exact (getSyncCursor_insert _ _ _ _).trans (if_pos rfl)
    · refine ⟨{ push with acctLeft := push.acctLeft - accounts }, ?_, rfl, rfl, .refl _, rfl, rfl,
        .inl ⟨rfl, rfl⟩, fun _ _ => done⟩
      unfold settleAccounts
      simp only [run_bind, run_modify, run_get, version, done, if_false, run_pure]

/-- `out` was handed over in order and accepted, and everything about it is settled. -/
structure Delivered (T : SyncTransport τ) (tenant : Bytes) (out : List Outgoing)
    (push push' : Push τ) : Prop where
  settles : Settles push.storage push'.storage
  hands : ∃ requests, push'.handed = push.handed ++ requests ∧
    push'.transport = replay T push.transport requests ∧
    requests.flatten = out.map Outgoing.object
  settled : ∀ outgoing ∈ out, outgoing.sent = .dirty → outgoing.object.Settled push'.storage
  auditCursor : push'.storage.getSyncCursor (pushCursorKey tenant) =
    ((lastAudit out).map UInt64.ofNat).or (push.storage.getSyncCursor (pushCursorKey tenant))
  accounts : AccountsSettled tenant (accountsIn out) push push'

theorem lastAudit_append (first second : List Outgoing) :
    lastAudit (first ++ second) = (lastAudit second).or (lastAudit first) := by
  unfold lastAudit
  rw [filterMap_append, getLast?_append]

namespace Delivered

variable {T : SyncTransport τ} {tenant : Bytes} {out later : List Outgoing}
  {push mid push' : Push τ}

theorem nil (T : SyncTransport τ) (tenant : Bytes) (push : Push τ) :
    Delivered T tenant [] push push where
  settles := .refl _
  hands := ⟨[], by simp, rfl, rfl⟩
  settled := nofun
  auditCursor := rfl
  accounts := ⟨rfl, .inl ⟨rfl, rfl⟩, id⟩

theorem append (first : Delivered T tenant out push mid) (second : Delivered T tenant later mid push') :
    Delivered T tenant (out ++ later) push push' where
  settles := first.settles.trans second.settles
  hands := by
    obtain ⟨requests, handed, transport, objects⟩ := first.hands
    obtain ⟨requests', handed', transport', objects'⟩ := second.hands
    refine ⟨requests ++ requests', ?_, ?_, ?_⟩
    · rw [handed', handed, append_assoc]
    · rw [transport', transport, replay, replay, replay, foldl_append]
    · rw [flatten_append, objects, objects', map_append]
  settled := by
    intro outgoing member dirty
    rcases mem_append.mp member with left | right
    · exact (first.settled outgoing left dirty).mono second.settles
    · exact second.settled outgoing right dirty
  auditCursor := by
    rw [second.auditCursor, first.auditCursor, lastAudit_append]
    cases lastAudit later <;> rfl
  accounts := by
    have all := first.accounts.trans second.accounts
    rwa [accountsIn, accountsIn, ← countP_append] at all

end Delivered

/-- A request is empty when nothing is left to send only. -/
theorem fill_nil (empty : (fill s [] queue).1 = []) :
    (fill s [] queue).2 = [] := by
  have nonempty : ∀ queue request, request ≠ [] → (fill s request queue).1 ≠ [] := by
    intro queue
    induction queue with
    | nil => exact fun _ given => given
    | cons _ _ ih =>
      intro request given
      unfold fill
      split
      · exact ih request given
      · split
        · exact ih _ (by simp)
        · exact given
  induction queue with
  | nil => rfl
  | cons _ rest ih =>
    unfold fill at empty ⊢
    split at empty
    · exact ih empty
    · next outgoing _ =>
      have opens : fits [] outgoing = true := by simp [fits]
      rw [if_pos opens] at empty
      exact (nonempty rest ([] ++ [outgoing]) (by simp) empty).elim

/-- A transport that accepts every request. -/
def SyncTransport.Accepts (T : SyncTransport τ) : Prop :=
  ∀ t objects, ∃ seqs, (T.pushObjects t objects).1 = .ok seqs

theorem lastAudit_mem (last : lastAudit part = some seq) :
    ∃ outgoing ∈ part, outgoing.sent = .audit seq := by
  obtain ⟨outgoing, member, chosen⟩ := mem_filterMap.mp (mem_of_getLast? last)
  refine ⟨outgoing, member, ?_⟩
  split at chosen
  · next sent => rw [sent, Option.some.inj chosen]
  · cases chosen
  · cases chosen

/-- Settling the audit entries of a part moves the audit cursor and nothing else. -/
theorem settleAudit_run (tenant : Bytes) (push : Push τ)
    (settleable : ∀ outgoing ∈ part, outgoing.Settleable) :
    ∃ noted, (settleAudit tenant part).run push = .ok () { push with storage := noted } ∧
      Settles push.storage noted ∧
      noted.getSyncCursor (pushCursorKey tenant) = ((lastAudit part).map UInt64.ofNat).or
          (push.storage.getSyncCursor (pushCursorKey tenant)) ∧
      noted.getSyncCursor (acctPushCursorKey tenant) =
        push.storage.getSyncCursor (acctPushCursorKey tenant) := by
  unfold settleAudit
  cases last : lastAudit part with
  | none => exact ⟨push.storage, rfl, .refl _, rfl, rfl⟩
  | some seq =>
    obtain ⟨outgoing, member, isAudit⟩ := lastAudit_mem last
    have fits := settleable outgoing member
    rw [Outgoing.Settleable, isAudit] at fits
    obtain ⟨n, same⟩ := fits
    have inRange : UInt64.ofNat seq ≤ i64Max := same ▸ n.inRange
    refine ⟨_, setCursor_run inRange, ?_, ?_, ?_⟩
    · exact setSyncCursor_settles (pushCursorKey_ne tenant)
        (setSyncCursor_eq_ok.mpr ⟨⟨_, inRange⟩, rfl, rfl⟩)
    · rw [getSyncCursor_insert, if_pos rfl]
      rfl
    · rw [getSyncCursor_insert, if_neg pushCursorKey_ne_acct.symm]

/-- Settling an accepted part whose numbers fit succeeds. -/
theorem settle_run (tenant : Bytes) (push : Push τ)
    (settleable : ∀ outgoing ∈ part, outgoing.Settleable)
    (inRange : ∀ v, push.acctVersion = some v → v ≤ i64Max) :
    ∃ push', (settle tenant part).run push = .ok () push' ∧
      push'.transport = push.transport ∧ push'.handed = push.handed ∧
      Settles push.storage push'.storage ∧
      (∀ outgoing ∈ part, outgoing.sent = .dirty → outgoing.object.Settled push'.storage) ∧
      push'.storage.getSyncCursor (pushCursorKey tenant) = ((lastAudit part).map UInt64.ofNat).or
          (push.storage.getSyncCursor (pushCursorKey tenant)) ∧
      AccountsSettled tenant (accountsIn part) push push' := by
  obtain ⟨cleared, folded, cursors, flags⟩ := foldlM_settleOne settleable push.storage
  have kept : ∀ key, cleared.getSyncCursor key = push.storage.getSyncCursor key := by
    intro _
    unfold Storage.getSyncCursor
    rw [cursors]
  obtain ⟨noted, wroteAudit, settlesAudit, cursorAudit, otherCursor⟩ :=
    settleAudit_run tenant { push with storage := cleared } settleable
  obtain ⟨push', ran, transport, handed, settles, cursor, accounts⟩ :=
    settleAccounts_settled tenant (accountsIn part) { push with storage := noted } inRange
  refine ⟨push', ?_, transport, handed,
    (foldlM_settles folded).trans (settlesAudit.trans settles), ?_, ?_, ?_⟩
  · unfold settle
    rw [run_bind, Push.write_run, folded]
    change ((settleAudit tenant part >>= fun _ => settleAccounts tenant (accountsIn part)) :
      PushM τ Unit).run { push with storage := cleared } = _
    rw [run_bind, wroteAudit]
    exact ran
  · intro outgoing member dirty
    exact ((flags outgoing member dirty).mono settlesAudit).mono settles
  · rw [cursor, cursorAudit, kept]
  · refine { accounts with cursor := ?_ }
    have before := otherCursor.trans (kept _)
    rcases accounts.cursor with ⟨version, same⟩ | ⟨moved, some, set⟩
    · exact .inl ⟨version, same.trans before⟩
    · exact .inr ⟨moved, some, set⟩

/-- The account-state version still to be written fits its column. -/
def Push.VersionFits (push : Push τ) : Prop :=
  ∀ v, push.acctVersion = some v → v ≤ i64Max

theorem AccountsSettled.versionFits (settled : AccountsSettled tenant n push push')
    (fits : push.VersionFits) : push'.VersionFits := by
  intro v version
  rcases settled.cursor with ⟨same, -⟩ | ⟨moved, -, -⟩
  · exact fits v (same ▸ version)
  · rw [moved] at version
    cases version

variable {T : SyncTransport τ}

theorem sendPart_delivers (accepts : T.Accepts) (tenant : Bytes) (push : Push τ)
    (settleable : ∀ outgoing ∈ part, outgoing.Settleable) (fits : push.VersionFits) :
    ∃ push', (sendPart T tenant part).run push = .ok part.length push' ∧
      Delivered T tenant part push push' := by
  obtain ⟨seqs, accepted⟩ := accepts push.transport (part.map Outgoing.object)
  let handedOver : Push τ :=
    { push with
      transport := (T.pushObjects push.transport (part.map Outgoing.object)).2
      handed := push.handed ++ [part.map Outgoing.object] }
  have hands : (handOver T (part.map Outgoing.object)).run push = .ok (.ok seqs) handedOver := by
    rw [← accepted]
    rfl
  obtain ⟨push', ran, transport, handed, settles, settled, cursor, accounts⟩ :=
    settle_run tenant handedOver settleable fits
  refine ⟨push', ?_, settles, ⟨[part.map Outgoing.object], handed, transport, by simp⟩, settled,
    cursor, ⟨accounts.left, accounts.cursor, accounts.expecting⟩⟩
  rw [sendPart, run_bind, hands]
  change (settle tenant part >>= fun _ => pure part.length : PushM τ Nat).run handedOver = _
  rw [run_bind, ran]
  rfl

/-- A queue whose numbers fit is delivered as a whole and in order, however it is cut into
requests. -/
theorem send_delivers (accepts : T.Accepts)
    (settleable : ∀ outgoing ∈ queue.filterMap (Queued.load push.storage), outgoing.Settleable)
    (fits : push.VersionFits) :
    ∃ push', send T tenant queue push =
        .ok (queue.filterMap (Queued.load push.storage)).length push' ∧
      Delivered T tenant (queue.filterMap (Queued.load push.storage)) push push' := by
  revert settleable fits
  induction queue, push using send_induction with
  | request queue push ih =>
    intro settleable fits
    have loads := fill_load push.storage [] queue
    rw [nil_append] at loads
    rw [send_eq, ← loads]
    split
    · next empty =>
      have nothing : (fill push.storage [] queue).2 = [] := fill_nil empty
      rw [empty, nothing]
      exact ⟨push, rfl, .nil T tenant push⟩
    · next nonempty =>
      obtain ⟨mid, ran, first⟩ := sendPart_delivers accepts tenant push
        (fun outgoing member =>
          settleable outgoing (loads ▸ mem_append_left _ member)) fits
      obtain ⟨push', ran', second⟩ := ih mid nonempty
        (fun outgoing member => by
          rw [funext first.settles.load_eq] at member
          exact settleable outgoing (loads ▸ mem_append_right _ member))
        (first.accounts.versionFits fits)
      rw [funext first.settles.load_eq] at ran' second
      refine ⟨push', ?_, first.append second⟩
      rw [ran]
      dsimp only
      rw [ran', length_append]

/-! ## A completed push -/

theorem expect_version (versions : List UInt64) :
    versions.foldl (fun highest version => max highest (some version)) none = versions.max? := by
  have joined (rest : List UInt64) (start : UInt64) :
      rest.foldl (fun highest version => max highest (some version)) (some start) =
        some (rest.foldl max start) := by
    induction rest generalizing start with
    | nil => rfl
    | cons version _ ih => exact ih (max start version)
  cases versions with
  | nil => rfl
  | cons version rest => exact joined rest version

/-- The version up to which a tenant's server has the account states. -/
def acctCursor (s : Storage) (tenant : Bytes) : UInt64 :=
  (s.getSyncCursor (acctPushCursorKey tenant)).getD 0

theorem newAccountStates_eq_nil :
    newAccountStates s tenant = [] ↔ ∀ (author : Bytes) row,
      s.accountState[author]? = some row → row.version.toU64 ≤ acctCursor s tenant := by
  unfold newAccountStates Storage.listAccountStates
  rw [filter_eq_nil_iff]
  constructor
  · intro none author row found
    have listed := mem_toList_iff_getElem?_eq_some.mpr found
    have notAbove := none _ (mem_map.mpr ⟨(author, row), listed, rfl⟩)
    exact UInt64.not_lt.mp (of_decide_eq_false (Bool.eq_false_iff.mpr notAbove))
  · intro all _ member
    obtain ⟨⟨author, row⟩, listed, rfl⟩ := mem_map.mp member
    have found := mem_toList_iff_getElem?_eq_some.mp listed
    rw [decide_eq_true_eq, UInt64.not_lt]
    exact all author row found

theorem newAccountStates_version (member : st ∈ newAccountStates s tenant) :
    st.version ≤ i64Max := by
  obtain ⟨listed, -⟩ := mem_filter.mp member
  obtain ⟨⟨_, row⟩, -, rfl⟩ := mem_map.mp listed
  exact row.version.inRange

/-- The numbers of a pending row fit their columns. -/
theorem SyncObject.Pending.settleable (pending : outgoing.object.Pending s tenant)
    (dirty : outgoing.sent = .dirty) : outgoing.Settleable := by
  obtain ⟨object, _⟩ := outgoing
  subst dirty
  cases object with
  | membershipManifest =>
    obtain ⟨⟨key, row⟩, -, rfl⟩ := mem_map.mp pending
    exact ⟨key.2, rfl⟩
  | membershipGrant =>
    obtain ⟨⟨key, _⟩, -, rfl⟩ := mem_map.mp pending
    exact ⟨key.2.2, rfl⟩
  | _ => trivial

variable {own : Option Bytes} {queue : List Queued}

/-- `vaultOut`, the account states and the audit entries are delivered in this order and settled. -/
structure Completed (T : SyncTransport τ) (tenant : Bytes) (s : Storage) (t : τ)
    (vaultOut : List Outgoing) (push : Push τ) : Prop where
  settles : Settles s push.storage
  objects : push.handed.flatten = vaultOut.map Outgoing.object ++
    ((newAccountStates s tenant).map accountOutgoing ++
      (newAuditEntries s tenant).map auditOutgoing).map Outgoing.object
  transport : push.transport = replay T t push.handed
  settled : ∀ outgoing ∈ vaultOut, outgoing.object.Settled push.storage
  accountsSent : ∀ st ∈ newAccountStates s tenant, st.version ≤ acctCursor push.storage tenant
  accountCursor : acctCursor s tenant ≤ acctCursor push.storage tenant
  auditCursor : push.storage.getSyncCursor (pushCursorKey tenant) =
    ((lastAudit ((newAuditEntries s tenant).map auditOutgoing)).map UInt64.ofNat).or
      (s.getSyncCursor (pushCursorKey tenant))

variable {t : τ}

theorem Completed.accountsDone (done : Completed T tenant s t vaultOut push) :
    newAccountStates push.storage tenant = [] := by
  rw [newAccountStates_eq_nil]
  intro author row found
  rw [done.settles.accountStates] at found
  by_cases new : acctCursor s tenant < row.version.toU64
  · refine done.accountsSent (mapAccountStateRow author row) (mem_filter.mpr ⟨?_, ?_⟩)
    · exact mem_map.mpr ⟨(author, row), mem_toList_iff_getElem?_eq_some.mpr found, rfl⟩
    · exact decide_eq_true new
  · exact UInt64.le_trans (UInt64.not_lt.mp new) done.accountCursor

theorem lastAudit_eq_none (others : ∀ outgoing ∈ part, ∀ seq, outgoing.sent ≠ .audit seq) :
    lastAudit part = none := by
  cases last : lastAudit part with
  | none => rfl
  | some seq =>
    obtain ⟨outgoing, member, isAudit⟩ := lastAudit_mem last
    exact (others outgoing member seq isAudit).elim

theorem expect_versionFits (fresh : push.acctVersion = none) (fits : ∀ v ∈ versions, v ≤ i64Max) :
    (push.expect versions).VersionFits := by
  intro v version
  change versions.foldl _ push.acctVersion = some v at version
  rw [fresh, expect_version] at version
  exact fits v (max?_mem version)

theorem accounts_done {count : Nat} (fresh : push.acctVersion = none) (zero : push.acctLeft = 0)
    (settled : AccountsSettled tenant count (push.expect versions) push')
    (all : versions.length ≤ count) (above : ∀ v ∈ versions, acctCursor push.storage tenant < v) :
    (∀ v ∈ versions, v ≤ acctCursor push'.storage tenant) ∧
      acctCursor push.storage tenant ≤ acctCursor push'.storage tenant := by
  have left : push'.acctLeft = 0 := by
    rw [settled.left]
    change push.acctLeft + versions.length - count = 0
    omega
  have version : (push.expect versions).acctVersion = versions.max? := by
    rw [← expect_version, ← fresh]
    rfl
  cases highest : versions.max? with
  | none =>
    rcases settled.cursor with ⟨-, cursor⟩ | ⟨-, some, -⟩
    · refine ⟨fun v member => ?_, ?_⟩
      · rw [max?_eq_none_iff.mp highest] at member
        cases member
      · unfold acctCursor
        rw [cursor]
        exact UInt64.le_refl _
    · exact (some (version.trans highest)).elim
  | some v =>
    obtain ⟨inside, largest⟩ := max?_eq_some_iff.mp highest
    have expecting : (push.expect versions).Expecting := by
      intro _ empty
      have := length_pos_of_mem inside
      change push.acctLeft + versions.length = 0 at empty
      omega
    have moved : push'.acctVersion = none := by
      by_contra some
      exact settled.expecting expecting some left
    rcases settled.cursor with ⟨same, -⟩ | ⟨-, -, cursor⟩
    · rw [moved, version, highest] at same
      cases same
    · have reached : acctCursor push'.storage tenant = v := by
        unfold acctCursor
        rw [cursor, version, highest]
        rfl
      rw [reached]
      exact ⟨largest, UInt64.le_of_lt (above v inside)⟩

/-! ### The outbox of a push -/

/-- Everything a push sends, in order, once its vault data is queued. -/
def outbox (s : Storage) (tenant : Bytes) (vaultData : List Queued) : List Outgoing :=
  vaultData.filterMap (Queued.load s) ++
    ((newAccountStates s tenant).map accountOutgoing ++
      (newAuditEntries s tenant).map auditOutgoing)

section Outbox

variable {P : Primitives} {tenant : Bytes} {own : Option Bytes} {s : Storage} {t : τ}
  {vaultData : List Queued} {mid : Push τ}

theorem load_outbox (queues : Queues { storage := s, transport := t } mid) :
    (vaultData ++ accountQueue mid.storage tenant).filterMap (Queued.load mid.storage) =
      outbox s tenant vaultData := by
  have rest : accountQueue mid.storage tenant =
      ((newAccountStates s tenant).map accountOutgoing ++
        (newAuditEntries s tenant).map auditOutgoing).map Queued.loaded := by
    rw [queues.storage, map_append, map_map, map_map]
    rfl
  rw [filterMap_append, rest, filterMap_map, funext (Settles.of_onlyMeta queues.storage).load_eq,
    outbox]
  exact congrArg _ filterMap_some

theorem outbox_settleable
    (queued : (queueVaultData P tenant own).run { storage := s, transport := t } =
      .ok vaultData mid)
    (auditsFit : ∀ entry ∈ newAuditEntries s tenant, ∃ n : SqlInt, n.toU64 = .ofNat entry.seq) :
    ∀ outgoing ∈ outbox s tenant vaultData, outgoing.Settleable := by
  intro _ member
  rcases mem_append.mp member with vault | account
  · obtain ⟨pending, dirty⟩ := queueVaultData_pending queued vault
    exact pending.settleable dirty
  · rcases mem_append.mp account with account | audit
    · obtain ⟨_, -, rfl⟩ := mem_map.mp account
      trivial
    · obtain ⟨entry, inside, rfl⟩ := mem_map.mp audit
      exact auditsFit entry inside

theorem outbox_lastAudit
    (dirty : ∀ outgoing ∈ vaultData.filterMap (Queued.load s), outgoing.sent = .dirty) :
    lastAudit (outbox s tenant vaultData) =
      lastAudit ((newAuditEntries s tenant).map auditOutgoing) := by
  have first : lastAudit (vaultData.filterMap (Queued.load s)) = none := by
    apply lastAudit_eq_none
    intro outgoing member seq isAudit
    rw [dirty outgoing member] at isAudit
    cases isAudit
  have second : lastAudit ((newAccountStates s tenant).map accountOutgoing) = none := by
    apply lastAudit_eq_none
    intro _ member _ isAudit
    obtain ⟨_, -, rfl⟩ := mem_map.mp member
    cases isAudit
  rw [outbox, lastAudit_append, lastAudit_append, first, second, Option.or_none, Option.or_none]

theorem outbox_accounts :
    (newAccountStates s tenant).length ≤ accountsIn (outbox s tenant vaultData) := by
  have counted : accountsIn ((newAccountStates s tenant).map accountOutgoing) =
      (newAccountStates s tenant).length := by
    rw [accountsIn, countP_map, countP_eq_length.mpr]
    intro _ _
    rfl
  unfold accountsIn at counted ⊢
  rw [outbox, countP_append, countP_append, counted]
  omega

end Outbox

theorem sendAndReport_run (ran : send T tenant queue push = .ok n final) :
    (sendAndReport T tenant queue).run push =
      .ok { pushed := n, tooLarge := final.tooLarge, unpushable := final.unpushable } final := by
  change sendAndReport T tenant queue push = _
  rw [sendAndReport, ran]

theorem runPush_completed (P : Primitives) (accepts : T.Accepts)
    (queued : (queueVaultData P tenant own).run { storage := s, transport := t } =
      .ok vaultData mid)
    (auditsFit : ∀ entry ∈ newAuditEntries s tenant, ∃ n : SqlInt, n.toU64 = .ofNat entry.seq) :
    ∃ report push, (runPush P T tenant own true).run { storage := s, transport := t } =
        .ok report push ∧
      Completed T tenant s t (vaultData.filterMap (Queued.load s)) push := by
  have queues : Queues { storage := s, transport := t } mid := by
    have kept := queueVaultData_queues P tenant own (τ := τ) { storage := s, transport := t }
    rwa [queued] at kept
  let versions := (newAccountStates s tenant).map AccountStateRecord.version
  have sameStates : newAccountStates mid.storage tenant = newAccountStates s tenant := by
    rw [queues.storage]
    rfl
  have sameCursors : ∀ key, mid.storage.getSyncCursor key = s.getSyncCursor key := by
    intro _
    rw [queues.storage]
    rfl
  have fits : (mid.expect versions).VersionFits := by
    apply expect_versionFits queues.acctVersion
    intro v member
    obtain ⟨st, inside, rfl⟩ := mem_map.mp member
    exact newAccountStates_version inside
  -- The queue is sent from a state whose storage is the one the queue was loaded from.
  have loads : (vaultData ++ accountQueue mid.storage tenant).filterMap
      (Queued.load (mid.expect versions).storage) = outbox s tenant vaultData := by
    have loaded := @load_outbox τ tenant s t vaultData mid queues
    exact loaded
  obtain ⟨push, ran, delivered⟩ := send_delivers accepts
    (loads ▸ outbox_settleable queued auditsFit) fits
  rw [loads] at delivered
  obtain ⟨requests, handed, transport, objects⟩ := delivered.hands
  have allHanded : push.handed = requests := by
    rw [handed]
    change mid.handed ++ requests = requests
    rw [queues.handed, nil_append]
  obtain ⟨sent, cursor⟩ := accounts_done queues.acctVersion queues.acctLeft delivered.accounts
    (by rw [length_map]; exact outbox_accounts) (by
      intro v member
      obtain ⟨st, inside, rfl⟩ := mem_map.mp member
      unfold acctCursor
      rw [sameCursors]
      exact of_decide_eq_true (mem_filter.mp inside).2)
  have sends : (runPush P T tenant own true).run { storage := s, transport := t } =
      (sendAndReport T tenant (vaultData ++ accountQueue mid.storage tenant)).run
        (mid.expect versions) := by
    rw [runPush_eq, queued]
    change (sendAndReport T tenant (vaultData ++ accountQueue mid.storage tenant)).run
      (mid.expect ((newAccountStates mid.storage tenant).map AccountStateRecord.version)) = _
    rw [sameStates]
  refine ⟨_, push, sends.trans (sendAndReport_run ran),
    { settles := (Settles.of_onlyMeta queues.storage).trans delivered.settles
      objects := ?_
      transport := ?_
      settled := fun outgoing member => delivered.settled outgoing (mem_append_left _ member)
        (queueVaultData_pending queued member).2
      accountsSent := fun st member => sent _ (mem_map.mpr ⟨st, member, rfl⟩)
      accountCursor := ?_
      auditCursor := ?_ }⟩
  · rw [allHanded, objects, outbox, map_append]
  · rw [allHanded, transport]
    change replay T mid.transport requests = _
    rw [queues.transport]
  · unfold acctCursor at cursor ⊢
    rwa [sameCursors] at cursor
  · rw [delivered.auditCursor, outbox_lastAudit fun _ member => (queueVaultData_pending queued member).2]
    change (_ : Option UInt64).or (mid.storage.getSyncCursor _) = _
    rw [sameCursors]

end Push

/-! ## The audit log -/

/-- Audit entries stand in the order of their numbers, which fit their column. -/
structure AuditNumbered (s : Storage) : Prop where
  increasing : s.auditLog.Pairwise fun a b => a.seq < b.seq
  fits : ∀ entry ∈ s.auditLog, entry.seq ≤ i64Max.toNat

theorem AuditNumbered.empty (none : s.auditLog = []) : AuditNumbered s where
  increasing := by rw [none]; exact List.Pairwise.nil
  fits := by rw [none]; exact nofun

theorem AuditNumbered.congr (numbered : AuditNumbered s) (same : s'.auditLog = s.auditLog) :
    AuditNumbered s' :=
  ⟨same ▸ numbered.increasing, same ▸ numbered.fits⟩

theorem AuditNumbered.appendAudit (numbered : AuditNumbered s)
    (highest : ∀ entry ∈ s.auditLog, entry.seq ≤ s.auditSeq) (room : s.auditSeq < i64Max.toNat)
    (entryBlob signature authorPubkey : Bytes) :
    AuditNumbered (s.appendAudit entryBlob signature authorPubkey) where
  increasing := by
    refine pairwise_append.mpr ⟨numbered.increasing, pairwise_singleton _ _, ?_⟩
    intro before listed _ same
    cases mem_singleton.mp same
    exact Nat.lt_succ_of_le (highest before listed)
  fits := by
    intro entry listed
    rcases mem_append.mp listed with before | same
    · exact numbered.fits entry before
    · cases mem_singleton.mp same
      exact room

variable {tenant : Bytes}

theorem newAuditEntries_congr (log : s'.auditLog = s.auditLog)
    (cursor : s'.getSyncCursor (pushCursorKey tenant) = s.getSyncCursor (pushCursorKey tenant)) :
    newAuditEntries s' tenant = newAuditEntries s tenant := by
  unfold newAuditEntries Storage.listAudit
  rw [log, cursor]

theorem mem_newAuditEntries (member : entry ∈ newAuditEntries s tenant) :
    entry ∈ s.auditLog ∧ ((s.getSyncCursor (pushCursorKey tenant)).getD 0).toNat < entry.seq := by
  unfold newAuditEntries Storage.listAudit at member
  split at member
  · cases member
  · obtain ⟨inside, above⟩ := mem_filter.mp member
    exact ⟨inside, of_decide_eq_true above⟩

theorem AuditNumbered.auditsFit (numbered : AuditNumbered s) :
    ∀ entry ∈ newAuditEntries s tenant, ∃ n : SqlInt, n.toU64 = .ofNat entry.seq := by
  intro entry member
  have bound := numbered.fits entry (mem_newAuditEntries member).1
  have small : entry.seq < 2 ^ 64 := Nat.lt_of_le_of_lt bound i64Max.toNat_lt
  refine ⟨⟨.ofNat entry.seq, ?_⟩, rfl⟩
  rw [UInt64.le_iff_toNat_le, UInt64.toNat_ofNat_of_lt' small]
  exact bound

theorem lastAudit_auditOutgoing (entries : List AuditEntry) :
    lastAudit (entries.map auditOutgoing) = entries.getLast?.map AuditEntry.seq := by
  unfold lastAudit
  rw [filterMap_map, ← getLast?_map]
  congr 1
  exact congrFun (filterMap_eq_map (f := AuditEntry.seq)) entries

end UniSsh
