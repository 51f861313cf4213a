import UniSsh.Sync.Dirty

/-!
# Accounting of a push

Accepted requests are a subsequence of the queue, and exactly their rows lose the dirty flag
(`Accounted`); a push that returns has accepted or reported all of its queue (`Reported`).
-/

namespace UniSsh

open List Storage

variable {s s' : Storage}

/-! ## Flags that stay -/

/-- Clearing the flag of a key leaves the flags of the others. -/
theorem dirty_updateWhere {K V : Type} [Ord K] [Std.TransOrd K] [Std.LawfulEqOrd K]
    {t : Table K V} {dirty : V → Bool} {cond : K → V → Bool} {set : V → V} {k : K}
    (others : ∀ row, cond k row = false) (found : ∃ row, t[k]? = some row ∧ dirty row = true) :
    ∃ row, (t.updateWhere cond set)[k]? = some row ∧ dirty row = true := by
  obtain ⟨row, stored, isDirty⟩ := found
  refine ⟨row, ?_, isDirty⟩
  rw [Table.getElem?_updateWhere, stored, map_some, others, if_neg Bool.false_ne_true]

variable {k : RowKey}

theorem clearDirty_keeps (cleared : clearDirty s obj = .ok s') (other : ¬ obj.RowOf k)
    (dirty : s.IsDirty k) : s'.IsDirty k := by
  cases obj with
  | vault =>
    cases cleared
    cases k with
    | vault => exact dirty_updateWhere (fun _ => decide_eq_false fun same => other same.symm) dirty
    | _ => exact dirty
  | item =>
    cases cleared
    cases k with
    | item =>
      refine dirty_updateWhere (fun _ => decide_eq_false fun same => other ?_) dirty
      cases same
      exact ⟨rfl, rfl⟩
    | _ => exact dirty
  | membershipManifest =>
    obtain ⟨n, isEpoch, rfl⟩ := checkedWrite_eq_ok.mp cleared
    cases k with
    | manifest =>
      refine dirty_updateWhere (fun _ => decide_eq_false fun same => other ?_) dirty
      cases same
      exact ⟨rfl, isEpoch⟩
    | _ => exact dirty
  | membershipGrant =>
    obtain ⟨n, isEpoch, rfl⟩ := checkedWrite_eq_ok.mp cleared
    cases k with
    | grant =>
      refine dirty_updateWhere (fun _ => decide_eq_false fun same => other ?_) dirty
      cases same
      exact ⟨rfl, rfl, isEpoch⟩
    | _ => exact dirty
  | _ =>
    cases cleared
    exact dirty

/-- Every dirty row that none of `out` is the content of stays dirty. -/
def KeepsOthers (out : List Outgoing) (s s' : Storage) : Prop :=
  ∀ k, (∀ outgoing ∈ out, ¬ outgoing.object.RowOf k) → s.IsDirty k → s'.IsDirty k

variable {out later : List Outgoing}

theorem KeepsOthers.trans (first : KeepsOthers out s mid) (second : KeepsOthers later mid s') :
    KeepsOthers (out ++ later) s s' := fun k others dirty =>
  second k (fun outgoing member => others outgoing (mem_append_right _ member))
    (first k (fun outgoing member => others outgoing (mem_append_left _ member)) dirty)

/-- A write to neither of the four tables. -/
theorem KeepsOthers.of_tables (out : List Outgoing) (vaults : s'.vaults = s.vaults)
    (items : s'.items = s.items) (manifests : s'.membershipManifests = s.membershipManifests)
    (grants : s'.membershipGrants = s.membershipGrants) : KeepsOthers out s s' := by
  intro k _
  cases k <;> simp only [Storage.IsDirty, vaults, items, manifests, grants] <;> exact id

variable {outgoing : Outgoing} {part : List Outgoing}

theorem settleOne_keeps (settled : settleOne s outgoing = .ok s') :
    KeepsOthers [outgoing] s s' := by
  unfold settleOne at settled
  split at settled
  · exact fun k others => clearDirty_keeps settled (others outgoing (mem_singleton_self _))
  · cases settled
    exact .of_tables _ rfl rfl rfl rfl
  · cases settled
    exact .of_tables _ rfl rfl rfl rfl

theorem foldlM_keeps (settled : part.foldlM settleOne s = .ok s') : KeepsOthers part s s' := by
  induction part generalizing s with
  | nil =>
    cases settled
    exact .of_tables _ rfl rfl rfl rfl
  | cons _ _ ih =>
    rw [foldlM_cons] at settled
    obtain ⟨_, first, later⟩ := bind_eq_ok.mp settled
    exact (settleOne_keeps first).trans (ih later)

section Push

variable {τ : Type}

/-- No row of the four tables changed. -/
def SameTables (push push' : Push τ) : Prop :=
  push'.storage.vaults = push.storage.vaults ∧ push'.storage.items = push.storage.items ∧
    push'.storage.membershipManifests = push.storage.membershipManifests ∧
    push'.storage.membershipGrants = push.storage.membershipGrants

instance : Std.Refl (SameTables (τ := τ)) := ⟨fun _ => ⟨rfl, rfl, rfl, rfl⟩⟩

instance : IsTrans (Push τ) SameTables where
  trans _ _ _ first second :=
    ⟨second.1.trans first.1, second.2.1.trans first.2.1, second.2.2.1.trans first.2.2.1,
      second.2.2.2.trans first.2.2.2⟩

variable {push' : Push τ} {tenant : Bytes} {push : Push τ}

theorem SameTables.keeps (same : SameTables push push') (out : List Outgoing) :
    KeepsOthers out push.storage push'.storage :=
  .of_tables out same.1 same.2.1 same.2.2.1 same.2.2.2

theorem setCursor_sameTables :
    Preserves SameTables (setCursor key v : PushM τ Unit) := by
  intro push
  rw [setCursor, Push.write_run]
  cases ran : (push.storage.setSyncCursor key v).mapError SyncError.storage with
  | error => exact refl push
  | ok =>
    obtain ⟨_, -, rfl⟩ := setSyncCursor_eq_ok.mp (mapError_eq_ok.mp ran)
    exact ⟨rfl, rfl, rfl, rfl⟩

theorem settleAudit_sameTables (tenant : Bytes) (part : List Outgoing) :
    Preserves SameTables (settleAudit tenant part : PushM τ Unit) := by
  unfold settleAudit
  split
  · exact setCursor_sameTables
  · exact .pure _

theorem settleAccounts_sameTables (tenant : Bytes) (accounts : Nat) :
    Preserves SameTables (settleAccounts tenant accounts : PushM τ Unit) := by
  refine .bind (fun push => ⟨rfl, rfl, rfl, rfl⟩) fun _ => ?_
  refine .bind (fun push => refl push) fun push => ?_
  cases push.acctVersion with
  | none => exact .pure _
  | some =>
    refine .ite (.bind (fun push => ⟨rfl, rfl, rfl, rfl⟩) fun _ => ?_) (.pure _)
    exact setCursor_sameTables

theorem settle_keeps (ran : (settle tenant part).run push = .ok () push') :
    KeepsOthers part push.storage push'.storage := by
  obtain ⟨_, _, wrote, ran⟩ := bind_run_ok ran
  rw [Push.write_run] at wrote
  cases folded : (part.foldlM settleOne push.storage).mapError SyncError.storage with
  | error =>
    rw [folded] at wrote
    cases wrote
  | ok storage =>
    rw [folded] at wrote
    cases wrote
    have booked : SameTables { push with storage } push' := by
      have last := Preserves.bind (settleAudit_sameTables tenant part)
        (fun _ => settleAccounts_sameTables tenant
          (part.countP fun outgoing => outgoing.sent = .account)) { push with storage }
      rwa [ran] at last
    have all := (foldlM_keeps (mapError_eq_ok.mp folded)).trans (booked.keeps [])
    rwa [append_nil] at all

/-! ## Accepted requests -/

/-- The requests a transport accepts, of those it is handed from a state on. -/
def acceptedRequests (T : SyncTransport τ) : τ → List (List SyncObject) → List (List SyncObject)
  | _, [] => []
  | t, request :: rest =>
    match T.pushObjects t request with
    | (.ok _, t') => request :: acceptedRequests T t' rest
    | (.error _, t') => acceptedRequests T t' rest

theorem acceptedRequests_append (T : SyncTransport τ) (t : τ)
    (first second : List (List SyncObject)) :
    acceptedRequests T t (first ++ second) =
      acceptedRequests T t first ++ acceptedRequests T (replay T t first) second := by
  induction first generalizing t with
  | nil => rfl
  | cons request rest ih =>
    have replayed : replay T t (request :: rest) = replay T (T.pushObjects t request).2 rest := rfl
    rw [replayed]
    simp only [cons_append, acceptedRequests]
    split
    · next accepted => rw [ih, accepted, cons_append]
    · next refused => rw [ih, refused]

/-- The accepted requests took objects of `out` in order; their rows, and no others, were cleared. -/
structure Accounted (T : SyncTransport τ) (tenant : Bytes) (out : List Outgoing)
    (accepted : List (List Outgoing)) (push push' : Push τ) : Prop where
  settles : Settles push.storage push'.storage
  hands : ∃ requests, push'.handed = push.handed ++ requests ∧
    push'.transport = replay T push.transport requests ∧
    acceptedRequests T push.transport requests = accepted.map (List.map Outgoing.object)
  inOrder : accepted.flatten.Sublist out
  settled : ∀ outgoing ∈ accepted.flatten, outgoing.sent = .dirty →
    outgoing.object.Settled push'.storage
  keeps : KeepsOthers accepted.flatten push.storage push'.storage
  auditCursor : push'.storage.getSyncCursor (pushCursorKey tenant) =
    ((lastAudit accepted.flatten).map UInt64.ofNat).or
      (push.storage.getSyncCursor (pushCursorKey tenant))
  version : push'.acctVersion = push.acctVersion ∨ push'.acctVersion = none

/-- All of `out` was accepted but `refused` items, each of which got one entry in the report. -/
structure Reported (out accepted : List Outgoing) (refused : List ItemRecord)
    (push push' : Push τ) : Prop where
  complete : ∃ rest, out.Perm (accepted ++ rest) ∧
    rest.map Outgoing.object = refused.map SyncObject.item
  mentioned : push'.mentioned.Perm
    (push.mentioned ++ refused.map fun i => (i.vaultId, i.itemId))

namespace Accounted

variable {T : SyncTransport τ} {tenant : Bytes} {out later : List Outgoing}
  {accepted accepted' : List (List Outgoing)} {push mid push' : Push τ}

/-- Nothing was handed over, and only the remembered lists changed. -/
theorem of_queues (queues : Queues push push') (out : List Outgoing) :
    Accounted T tenant out [] push push' where
  settles := .of_onlyMeta queues.storage
  hands := ⟨[], by rw [queues.handed, append_nil], queues.transport, rfl⟩
  inOrder := nil_sublist _
  settled := nofun
  keeps := by
    rw [queues.storage]
    exact .of_tables _ rfl rfl rfl rfl
  auditCursor := by
    rw [queues.storage]
    rfl
  version := .inl queues.acctVersion

theorem append (first : Accounted T tenant out accepted push mid)
    (second : Accounted T tenant later accepted' mid push') :
    Accounted T tenant (out ++ later) (accepted ++ accepted') push push' where
  settles := first.settles.trans second.settles
  hands := by
    obtain ⟨requests, handed, transport, objects⟩ := first.hands
    obtain ⟨requests', handed', transport', objects'⟩ := second.hands
    refine ⟨requests ++ requests', ?_, ?_, ?_⟩
    · rw [handed', handed, append_assoc]
    · rw [transport', transport, replay, replay, replay, foldl_append]
    · rw [acceptedRequests_append, objects, ← transport, objects', map_append]
  inOrder := by
    rw [flatten_append]
    exact first.inOrder.append second.inOrder
  settled := by
    intro outgoing member dirty
    rw [flatten_append] at member
    rcases mem_append.mp member with left | right
    · exact (first.settled outgoing left dirty).mono second.settles
    · exact second.settled outgoing right dirty
  keeps := by
    rw [flatten_append]
    exact first.keeps.trans second.keeps
  auditCursor := by
    rw [second.auditCursor, first.auditCursor, flatten_append, lastAudit_append]
    cases lastAudit accepted'.flatten <;> rfl
  version := by
    rcases second.version with same | none
    · rw [same]
      exact first.version
    · exact .inr none

theorem versionFits (done : Accounted T tenant out accepted push push') (fits : push.VersionFits) :
    push'.VersionFits := by
  intro v version
  rcases done.version with same | none
  · exact fits v (same ▸ version)
  · rw [none] at version
    cases version

end Accounted

namespace Reported

variable {out later accepted accepted' : List Outgoing} {refused refused' : List ItemRecord}
  {push mid push' : Push τ}

theorem all_accepted (same : push'.mentioned = push.mentioned) :
    Reported out out [] push push' where
  complete := ⟨[], by rw [append_nil], rfl⟩
  mentioned := by rw [same, map_nil, append_nil]

theorem append (first : Reported out accepted refused push mid)
    (second : Reported later accepted' refused' mid push') :
    Reported (out ++ later) (accepted ++ accepted') (refused ++ refused') push push' where
  complete := by
    obtain ⟨rest, whole, objects⟩ := first.complete
    obtain ⟨rest', whole', objects'⟩ := second.complete
    refine ⟨rest ++ rest', (whole.append whole').trans ?_, ?_⟩
    · simp only [append_assoc]
      exact (perm_append_comm_assoc rest accepted' rest').append_left accepted
    · rw [map_append, map_append, objects, objects']
  mentioned := by
    refine second.mentioned.trans ?_
    rw [map_append, ← append_assoc]
    exact first.mentioned.append_right _

end Reported

/-! ## Sending -/

variable {T : SyncTransport τ}

theorem refuse_queues : Preserves Queues (refuse tenant part : PushM τ Unit) := by
  unfold refuse
  split
  · refine .bind (report_queues fun _ => ⟨rfl, rfl, rfl, rfl, rfl⟩) fun _ => ?_
    refine .bind (fun push => refl push) fun push => ?_
    exact remember_queues fun _ _ => saveRemembered_onlyMeta
  · exact .throw _

theorem forbid_queues : Preserves Queues (forbid tenant part : PushM τ Unit) := by
  unfold forbid
  split
  · refine .bind (report_queues fun _ => ⟨rfl, rfl, rfl, rfl, rfl⟩) fun _ => ?_
    refine .bind (fun push => refl push) fun push => ?_
    exact remember_queues fun _ _ => saveRemembered_onlyMeta
  · exact .throw _

variable {f : Storage → Except SyncError Storage}

theorem write_run_ok (ran : (Push.write f).run push = .ok () push') :
    ∃ storage, f push.storage = .ok storage ∧ push' = { push with storage } := by
  rw [Push.write_run] at ran
  split at ran
  · next storage wrote =>
    cases ran
    exact ⟨storage, wrote, rfl⟩
  · cases ran

/-- The report is as it was. -/
def SameReport (push push' : Push τ) : Prop := push'.mentioned = push.mentioned

instance : Std.Refl (SameReport (τ := τ)) := ⟨fun _ => rfl⟩
instance : IsTrans (Push τ) SameReport := ⟨fun _ _ _ first second => Eq.trans second first⟩

theorem write_sameReport : Preserves SameReport (Push.write f : PushM τ Unit) := by
  intro push
  rw [Push.write_run]
  cases f push.storage <;> exact rfl

theorem settle_sameReport (tenant : Bytes) (part : List Outgoing) :
    Preserves SameReport (settle tenant part : PushM τ Unit) := by
  refine .bind write_sameReport fun _ => Preserves.bind ?_ fun _ => ?_
  · unfold settleAudit
    split
    · exact write_sameReport
    · exact .pure _
  · unfold settleAccounts
    refine .bind (fun push => rfl) fun _ => Preserves.bind (fun push => rfl) fun push => ?_
    cases push.acctVersion with
    | none => exact .pure _
    | some =>
      exact .ite (.bind (fun push => rfl) fun _ => write_sameReport) (.pure _)

variable {t : τ}

/-- An accepted part. -/
theorem settle_accounted
    (answer : T.pushObjects push.transport (part.map Outgoing.object) = (.ok seqs, t))
    (settleable : ∀ outgoing ∈ part, outgoing.Settleable) (fits : push.VersionFits) :
    ∃ push', (settle tenant part).run
        { push with transport := t, handed := push.handed ++ [part.map Outgoing.object] } =
        .ok () push' ∧
      Accounted T tenant part [part] push push' ∧ Reported part part [] push push' := by
  obtain ⟨push', ran, transport, handed, settles, _, cursor, accounts⟩ := settle_run tenant
    { push with transport := t, handed := push.handed ++ [part.map Outgoing.object] }
    settleable fits
  have flat : [part].flatten = part := by simp
  have report := settle_sameReport tenant part
    { push with transport := t, handed := push.handed ++ [part.map Outgoing.object] }
  rw [ran] at report
  refine ⟨push', ran, ⟨settles, ⟨[part.map Outgoing.object], handed, ?_, ?_⟩, ?_, ?_, ?_, ?_, ?_⟩,
    .all_accepted report⟩
  · rw [transport, replay, foldl_cons, answer]
    rfl
  · simp only [acceptedRequests, answer, map_cons, map_nil]
  · rw [flat]
  · rwa [flat]
  · rw [flat]
    have kept := settle_keeps ran
    exact kept
  · rw [flat]
    exact cursor
  · exact accounts.cursor.imp And.left And.left

/-- The state in which the answer to a request is handled. -/
def Push.afterHanding (push : Push τ) (part : List Outgoing) (t : τ) : Push τ :=
  { push with transport := t, handed := push.handed ++ [part.map Outgoing.object] }

variable {e : SyncError}

/-- A request that was not accepted. -/
theorem Accounted.of_refusal
    (answer : T.pushObjects push.transport (part.map Outgoing.object) = (.error e, t)) :
    Accounted T tenant [] [] push (push.afterHanding part t) where
  settles := .refl _
  hands := by
    refine ⟨[part.map Outgoing.object], rfl, ?_, ?_⟩
    · rw [replay, foldl_cons, answer]
      rfl
    · simp only [acceptedRequests, answer, map_nil]
  inOrder := List.Sublist.refl _
  settled := nofun
  keeps := .of_tables _ rfl rfl rfl rfl
  auditCursor := rfl
  version := .inl rfl

/-- What `sendPart` returned accounts for its part. -/
def PartDone (T : SyncTransport τ) (tenant : Bytes) (part : List Outgoing) (push : Push τ)
    (result : EStateM.Result SyncError (Push τ) Nat) : Prop :=
  ∃ accepted, Accounted T tenant part accepted push (finalState result) ∧
    ∀ n push', result = .ok n push' → n = accepted.flatten.length ∧
      ∃ refused, Reported part accepted.flatten refused push push'

theorem PartDone.of_error (done : Accounted T tenant part accepted push push') :
    PartDone T tenant part push (.error e push') :=
  ⟨accepted, done, nofun⟩

/-- One part after another; the second is not sent when the first fails. -/
def andThen (result : EStateM.Result SyncError (Push τ) Nat)
    (next : Push τ → EStateM.Result SyncError (Push τ) Nat) :
    EStateM.Result SyncError (Push τ) Nat :=
  match result with
  | .error e failed => .error e failed
  | .ok sent mid =>
    match next mid with
    | .error e failed => .error e failed
    | .ok more final => .ok (sent + more) final

variable {result : EStateM.Result SyncError (Push τ) Nat}

theorem PartDone.andThen (first : PartDone T tenant part push result)
    (next : Push τ → EStateM.Result SyncError (Push τ) Nat)
    (second : ∀ n mid, result = .ok n mid → PartDone T tenant later mid (next mid)) :
    PartDone T tenant (part ++ later) push (andThen result next) := by
  obtain ⟨accepted, accounted, complete⟩ := first
  cases result with
  | error =>
    -- the rest of the queue was not reached
    exact .of_error { accounted with inOrder := accounted.inOrder.trans (sublist_append_left _ _) }
  | ok sent mid =>
    obtain ⟨rfl, refused, reported⟩ := complete sent mid rfl
    obtain ⟨accepted', accounted', complete'⟩ := second _ mid rfl
    have both := Accounted.append accounted accounted'
    unfold UniSsh.andThen
    dsimp only
    cases ran : next mid with
    | error =>
      rw [ran] at both
      exact .of_error both
    | ok more final =>
      rw [ran] at both
      obtain ⟨rfl, refused', reported'⟩ := complete' more final ran
      refine ⟨accepted ++ accepted', both, fun n push' same => ?_⟩
      cases same
      refine ⟨by rw [flatten_append, length_append], refused ++ refused', ?_⟩
      rw [flatten_append]
      exact reported.append reported'

/-- Whatever follows a refused request accounts for it too. -/
theorem PartDone.after_refusal
    (answer : T.pushObjects push.transport (part.map Outgoing.object) = (.error e, t))
    (done : PartDone T tenant part (push.afterHanding part t) result) :
    PartDone T tenant part push result := by
  obtain ⟨accepted, accounted, complete⟩ := done
  refine ⟨accepted, (Accounted.of_refusal answer).append accounted, fun n push' same => ?_⟩
  obtain ⟨counted, refused, reported⟩ := complete n push' same
  exact ⟨counted, refused, reported.complete, reported.mentioned⟩

theorem run_add (x y : PushM τ Nat) (push : Push τ) :
    (do let first ← x; let second ← y; pure (first + second) : PushM τ Nat).run push =
      andThen (x.run push) fun mid => y.run mid := by
  rw [EStateM.run_bind]
  unfold andThen
  cases x.run push with
  | error => rfl
  | ok _ mid =>
    dsimp only
    rw [EStateM.run_bind]
    cases y.run mid <;> rfl

/-- An object that is left out alone. -/
theorem PartDone.of_refused (single : part.length ≤ 1) (queues : Preserves Queues x)
    (entered : ∀ push', x.run push = .ok () push' → ∃ it sent rest,
      part = ⟨.item it, sent⟩ :: rest ∧
        push'.mentioned.Perm (push.mentioned ++ [(it.vaultId, it.itemId)])) :
    PartDone T tenant part push ((do x; pure 0 : PushM τ Nat).run push) := by
  have noted := queues push
  rw [EStateM.run_bind]
  cases ran : x.run push with
  | error =>
    rw [ran] at noted
    exact .of_error (.of_queues noted part)
  | ok _ push' =>
    rw [ran] at noted
    refine ⟨[], .of_queues noted part, fun n final same => ?_⟩
    cases same
    obtain ⟨it, _, rest, rfl, mentioned⟩ := entered push' ran
    obtain rfl : rest = [] := length_eq_zero_iff.mp (by simpa using single)
    exact ⟨rfl, [it], ⟨⟨_, List.Perm.refl _, rfl⟩, mentioned⟩⟩

theorem sendPart_done (tenant : Bytes) (part : List Outgoing) (push : Push τ)
    (settleable : ∀ outgoing ∈ part, outgoing.Settleable) (fits : push.VersionFits) :
    PartDone T tenant part push ((sendPart T tenant part).run push) := by
  induction size : part.length using Nat.strongRecOn generalizing part push with
  | ind n ih =>
    obtain ⟨result, t, answer⟩ : ∃ result t,
        T.pushObjects push.transport (part.map Outgoing.object) = (result, t) := ⟨_, _, rfl⟩
    have handed : (handOver T (part.map Outgoing.object)).run push =
        .ok result (push.afterHanding part t) := by
      change EStateM.Result.ok _ _ = _
      rw [answer]
      rfl
    rw [sendPart, EStateM.run_bind, handed]
    cases result with
    | ok =>
      obtain ⟨push', ran, accounted, reported⟩ := settle_accounted answer settleable fits
      have returned : (settle tenant part >>= fun _ => pure part.length : PushM τ Nat).run
          (push.afterHanding part t) = .ok part.length push' := by
        rw [EStateM.run_bind, Push.afterHanding, ran]
        rfl
      change PartDone T tenant part push ((settle tenant part >>= fun _ => pure part.length :
        PushM τ Nat).run (push.afterHanding part t))
      rw [returned]
      refine ⟨[part], accounted, fun n final same => ?_⟩
      cases same
      rw [flatten_singleton]
      exact ⟨rfl, [], reported⟩
    | error =>
      refine .after_refusal answer ?_
      dsimp only
      split
      · next =>
        have first := ih _ (by rw [length_take]; omega) (part.take (part.length / 2))
          (push.afterHanding part t)
          (fun outgoing member => settleable outgoing (mem_of_mem_take member)) fits rfl
        have whole := first.andThen
          (fun mid => (sendPart T tenant (part.drop (part.length / 2))).run mid)
          fun n mid ran => by
            obtain ⟨_, accounted, -⟩ := first
            rw [ran] at accounted
            exact ih _ (by rw [length_drop]; omega) (part.drop (part.length / 2)) mid
              (fun outgoing member => settleable outgoing (mem_of_mem_drop member))
              (accounted.versionFits fits) rfl
        rw [take_append_drop] at whole
        rw [run_add]
        exact whole
      · next alone =>
        -- a refused object is an item that gets an entry
        split
        · have single : part.length ≤ 1 := Nat.le_of_not_lt fun more => alone ⟨rfl, more⟩
          refine .of_refused single refuse_queues fun push' ran => ?_
          unfold refuse at ran
          split at ran
          · obtain ⟨_, -, rfl⟩ := write_run_ok ran
            exact ⟨_, _, _, rfl, (push.afterHanding _ t).mentioned_tooLarge _⟩
          · cases ran
        · have single : part.length ≤ 1 := Nat.le_of_not_lt fun more => alone ⟨rfl, more⟩
          refine .of_refused single forbid_queues fun push' ran => ?_
          unfold forbid at ran
          split at ran
          · obtain ⟨_, -, rfl⟩ := write_run_ok ran
            exact ⟨_, _, _, rfl, (push.afterHanding _ t).mentioned_unpushable _⟩
          · cases ran
        · exact .of_error (.of_queues (refl _) part)

/-- The whole queue, request by request. -/
theorem send_done (tenant : Bytes) (queue : List Queued) (push : Push τ)
    (settleable : ∀ outgoing ∈ queue.filterMap (Queued.load push.storage), outgoing.Settleable)
    (fits : push.VersionFits) :
    PartDone T tenant (queue.filterMap (Queued.load push.storage)) push
      (send T tenant queue push) := by
  revert settleable fits
  induction queue, push using send_induction with
  | request queue push ih =>
    intro settleable fits
    have loads := fill_load push.storage [] queue
    rw [nil_append] at loads
    rw [send_eq, ← loads]
    split
    · next empty =>
      rw [empty, fill_nil empty]
      refine ⟨[], .of_queues (refl push) _, fun n push' same => ?_⟩
      cases same
      exact ⟨rfl, [], .all_accepted rfl⟩
    · next nonempty =>
      have first := sendPart_done (T := T) tenant (fill push.storage [] queue).1 push
        (fun outgoing member => settleable outgoing (loads ▸ mem_append_left _ member)) fits
      refine first.andThen (fun mid => send T tenant (fill push.storage [] queue).2 mid)
        fun n mid ran => ?_
      obtain ⟨_, accounted, -⟩ := first
      rw [ran, finalState_ok] at accounted
      have later := ih mid nonempty (fun outgoing member => by
        rw [funext accounted.settles.load_eq] at member
        exact settleable outgoing (loads ▸ mem_append_right _ member))
        (accounted.versionFits fits)
      rwa [funext accounted.settles.load_eq] at later

/-! ## The queue -/

/-- The dirty items a push sends. -/
def queuedItems (P : Primitives) (s : Storage) (tenant : Bytes) (own : Option Bytes) :
    List ItemVersion :=
  (s.listDirtyBoundItemVersions tenant).filter
    (sendable P s own (loadRefused s (pushRefusedKey tenant))
      (loadForbidden s (pushForbiddenKey tenant)))

/-- The queue of a push: manifests, vault records, grants, items, account states and audit
entries. -/
def pushQueue (P : Primitives) (s : Storage) (tenant : Bytes) (own : Option Bytes) :
    List Outgoing :=
  (s.listDirtyBoundManifests tenant).map (fun m => ⟨.membershipManifest m, .dirty⟩) ++
    (s.listDirtyBoundVaults tenant).map (fun v => ⟨.vault v, .dirty⟩) ++
    (s.listDirtyBoundGrants tenant).map (fun g => ⟨.membershipGrant g, .dirty⟩) ++
    ((queuedItems P s tenant own).filterMap fun head => s.getItem head.vaultId head.itemId).map
      (fun i => ⟨.item i, .dirty⟩) ++
    (newAccountStates s tenant).map accountOutgoing ++
    (newAuditEntries s tenant).map auditOutgoing

variable {P : Primitives} {own : Option Bytes} {queue : List Queued}

/-- The dirty items a push does not send. -/
def leftOut (P : Primitives) (s : Storage) (tenant : Bytes) (own : Option Bytes) :
    List ItemVersion :=
  (s.listDirtyBoundItemVersions tenant).filter fun head =>
    !sendable P s own (loadRefused s (pushRefusedKey tenant))
      (loadForbidden s (pushForbiddenKey tenant)) head

theorem queueVaultData_run_ok
    (ran : (queueVaultData P tenant own).run { storage := s, transport := t } = .ok queue mid) :
    queue = beforeItems s tenant ++
        (queuedItems P s tenant own).map (fun head => .item head.vaultId head.itemId) ∧
      mid.mentioned.Perm ((leftOut P s tenant own).map fun head => (head.vaultId, head.itemId)) := by
  obtain ⟨_, _, got, ran⟩ := bind_run_ok ran
  cases got
  obtain ⟨_, listed, ranItems, ran⟩ := bind_run_ok ran
  obtain ⟨_, _, forgot, ran⟩ := bind_run_ok ran
  cases ran
  obtain ⟨rfl, mentioned⟩ := queueItems_run_ok ranItems
  have forgets : Preserves SameReport (forgetSettled tenant (loadRefused s (pushRefusedKey tenant))
      (loadForbidden s (pushForbiddenKey tenant)) : PushM τ Unit) :=
    .bind (fun _ => rfl) fun _ => .bind write_sameReport fun _ => write_sameReport
  have same := forgets listed
  rw [forgot, finalState_ok] at same
  have mentioned' := same.symm ▸ mentioned
  exact ⟨rfl, mentioned'⟩

theorem outbox_eq_pushQueue (P : Primitives) (s : Storage) (tenant : Bytes) (own : Option Bytes) :
    outbox s tenant (beforeItems s tenant ++
      (queuedItems P s tenant own).map fun head => .item head.vaultId head.itemId) =
      pushQueue P s tenant own := by
  have items : ((queuedItems P s tenant own).map
      fun head => Queued.item head.vaultId head.itemId).filterMap (Queued.load s) =
      ((queuedItems P s tenant own).filterMap fun head => s.getItem head.vaultId head.itemId).map
        fun i => ⟨.item i, .dirty⟩ := by
    rw [filterMap_map, map_filterMap]
    rfl
  have loaded {α : Type} (l : List α) (f : α → Outgoing) :
      (l.map fun a => Queued.loaded (f a)).filterMap (Queued.load s) = l.map f := by
    rw [filterMap_map, ← filterMap_eq_map]
    rfl
  simp only [outbox, beforeItems, filterMap_append, items, loaded, pushQueue, append_assoc]

/-! ## Nothing is queued twice -/

theorem dirtyHeads_nodup :
    ((s.listDirtyBoundItemVersions tenant).map fun head => (head.vaultId, head.itemId)).Nodup := by
  unfold listDirtyBoundItemVersions
  rw [map_map]
  exact Table.nodup_map_toList _ _ fun a b same => same

/-- A queued item is read back under its own key. -/
theorem queuedItems_load :
    ((queuedItems P s tenant own).filterMap fun head => s.getItem head.vaultId head.itemId).map
        (fun i => (i.vaultId, i.itemId)) =
      (queuedItems P s tenant own).map fun head => (head.vaultId, head.itemId) := by
  rw [map_filterMap, ← filterMap_eq_map]
  refine filterMap_congr fun head queued => ?_
  obtain ⟨⟨_, _⟩, listed, rfl⟩ := mem_map.mp (mem_of_mem_filter queued)
  have found := mem_toList_iff_getElem?_eq_some.mp (mem_of_mem_filter listed)
  simp only [getItem, Prod.mk.eta, found, map_some, Function.comp_apply]
  rfl

/-- The position of an object's kind in a queue. -/
def SyncObject.rank : SyncObject → Nat
  | .membershipManifest _ => 0
  | .vault _ => 1
  | .membershipGrant _ => 2
  | .item _ => 3
  | .accountState _ => 4
  | .audit _ => 5
  | .keyset _ => 6

/-- Objects of the first kinds, each once. -/
def RankedBelow (n : Nat) (out : List Outgoing) : Prop :=
  out.Nodup ∧ ∀ o ∈ out, o.object.rank < n

/-- The objects of the next kind follow. -/
theorem RankedBelow.append {α : Type} {n : Nat} (ranked : RankedBelow n out) {rest : List α}
    {f : α → Outgoing} (nodup : (rest.map f).Nodup) (kind : ∀ a, (f a).object.rank = n) :
    RankedBelow (n + 1) (out ++ rest.map f) := by
  have ofKind : ∀ o ∈ rest.map f, o.object.rank = n := by
    intro o member
    obtain ⟨a, -, rfl⟩ := mem_map.mp member
    exact kind a
  refine ⟨nodup_append.mpr ⟨ranked.1, nodup, fun a inFirst b inSecond same => ?_⟩, ?_⟩
  · have lt := ranked.2 a inFirst
    rw [same, ofKind b inSecond] at lt
    exact Nat.lt_irrefl n lt
  · intro o member
    rcases mem_append.mp member with inFirst | inSecond
    · exact Nat.lt_succ_of_lt (ranked.2 o inFirst)
    · exact Nat.lt_succ_of_le (Nat.le_of_eq (ofKind o inSecond))

theorem newAuditEntries_increasing (numbered : AuditNumbered s) :
    (newAuditEntries s tenant).Pairwise fun a b => a.seq < b.seq := by
  unfold newAuditEntries listAudit
  split
  · exact List.Pairwise.nil
  · exact numbered.increasing.filter _

theorem pushQueue_nodup (numbered : AuditNumbered s) : (pushQueue P s tenant own).Nodup := by
  have manifests : ((s.listDirtyBoundManifests tenant).map
      fun m => (⟨.membershipManifest m, .dirty⟩ : Outgoing)).Nodup := by
    unfold listDirtyBoundManifests
    rw [map_map]
    refine Table.nodup_map_toList _ _ fun a b same => ?_
    cases a
    cases b
    simp only [Function.comp_apply, Outgoing.mk.injEq, SyncObject.membershipManifest.injEq,
      mapManifestRow, MembershipManifest.mk.injEq] at same
    exact Prod.ext same.1.1 (SqlInt.ext same.1.2.1)
  have vaults : ((s.listDirtyBoundVaults tenant).map
      fun v => (⟨.vault v, .dirty⟩ : Outgoing)).Nodup := by
    unfold listDirtyBoundVaults
    rw [map_map]
    refine Table.nodup_map_toList _ _ fun a b same => ?_
    simp only [Function.comp_apply, Outgoing.mk.injEq, SyncObject.vault.injEq, mapVaultRow,
      VaultRecord.mk.injEq] at same
    exact same.1.1
  have grants : ((s.listDirtyBoundGrants tenant).map
      fun g => (⟨.membershipGrant g, .dirty⟩ : Outgoing)).Nodup := by
    unfold listDirtyBoundGrants
    rw [map_map]
    refine Table.nodup_map_toList _ _ fun a b same => ?_
    simp only [Function.comp_apply, Outgoing.mk.injEq, SyncObject.membershipGrant.injEq,
      mapGrantRow, MembershipGrant.mk.injEq] at same
    exact Prod.ext same.1.1 (Prod.ext same.1.2.1 (SqlInt.ext same.1.2.2.1))
  have items : (((queuedItems P s tenant own).filterMap fun head =>
      s.getItem head.vaultId head.itemId).map fun i => (⟨.item i, .dirty⟩ : Outgoing)).Nodup := by
    refine List.Nodup.map (fun i j same => ?_) (List.Nodup.of_map (fun i => (i.vaultId, i.itemId)) ?_)
    · cases same
      rfl
    · rw [queuedItems_load]
      exact dirtyHeads_nodup.sublist (filter_sublist.map _)
  have accounts : ((newAccountStates s tenant).map accountOutgoing).Nodup := by
    unfold newAccountStates listAccountStates
    rw [filter_map, map_map]
    refine Table.nodup_map_toList _ _ fun a b same => ?_
    simp only [Function.comp_apply, accountOutgoing, Outgoing.mk.injEq,
      SyncObject.accountState.injEq, mapAccountStateRow, AccountStateObject.mk.injEq] at same
    exact same.1.1
  have audits : ((newAuditEntries s tenant).map auditOutgoing).Nodup := by
    refine List.Nodup.of_map Outgoing.sent ?_
    rw [map_map, List.Nodup, pairwise_map]
    refine (newAuditEntries_increasing numbered).imp fun below same => ?_
    exact Nat.ne_of_lt below (Sent.audit.inj same)
  have start : RankedBelow 0 [] := ⟨nodup_nil, by simp⟩
  have ranked := ((((start.append manifests fun _ => rfl).append vaults fun _ => rfl).append grants
    fun _ => rfl).append items fun _ => rfl).append accounts fun _ => rfl
  exact (ranked.append audits fun _ => rfl).1

/-! ## The whole push -/

/-- The number of an audit entry. -/
def Outgoing.auditSeq (outgoing : Outgoing) : Option Nat :=
  match outgoing.sent with
  | .audit seq => some seq
  | .dirty => none
  | .account => none

theorem getLast?_eq_max? {numbers : List Nat} (increasing : numbers.Pairwise (· < ·)) :
    numbers.getLast? = numbers.max? := by
  cases last : numbers.getLast? with
  | none =>
    rw [getLast?_eq_none_iff.mp last]
    rfl
  | some n =>
    obtain ⟨_, rfl⟩ := getLast?_eq_some_iff.mp last
    refine (max?_eq_some_iff.mpr ⟨mem_append_right _ (mem_singleton_self n), ?_⟩).symm
    intro m member
    rcases mem_append.mp member with earlier | same
    · exact Nat.le_of_lt ((pairwise_append.mp increasing).2.2 m earlier n (mem_singleton_self n))
    · exact Nat.le_of_eq (mem_singleton.mp same)

/-- The audit numbers of a queue increase. -/
theorem pushQueue_auditSeqs (numbered : AuditNumbered s) :
    ((pushQueue P s tenant own).filterMap Outgoing.auditSeq).Pairwise (· < ·) := by
  have others {α : Type} (l : List α) (f : α → Outgoing) (other : ∀ a, (f a).auditSeq = none) :
      (l.map f).filterMap Outgoing.auditSeq = [] := by
    simp [filterMap_map, other]
  have audits : ((newAuditEntries s tenant).map auditOutgoing).filterMap Outgoing.auditSeq =
      (newAuditEntries s tenant).map AuditEntry.seq := by
    rw [filterMap_map, ← filterMap_eq_map]
    rfl
  unfold pushQueue
  simp only [filterMap_append]
  rw [others _ _ fun _ => rfl, others _ _ fun _ => rfl, others _ _ fun _ => rfl,
    others _ _ fun _ => rfl, others _ _ fun _ => rfl, audits]
  simp only [nil_append, pairwise_map]
  exact newAuditEntries_increasing numbered

theorem sendAndReport_run_ok (ran : (sendAndReport T tenant queue).run push = .ok report push') :
    ∃ n, send T tenant queue push = .ok n push' ∧
      report = { pushed := n, tooLarge := push'.tooLarge, unpushable := push'.unpushable } := by
  change sendAndReport T tenant queue push = _ at ran
  unfold sendAndReport at ran
  split at ran
  · cases ran
  · next n _ sent =>
    cases ran
    exact ⟨n, sent, rfl⟩

/-- How a push ends, from the state `start` in which its queue is known. -/
structure Ends (P : Primitives) (T : SyncTransport τ) (tenant : Bytes) (own : Option Bytes)
    (s : Storage) (t : τ) (start : Push τ) (accepted : List (List Outgoing))
    (result : EStateM.Result SyncError (Push τ) PushReport) : Prop where
  storage : start.storage = { s with metaTable := start.storage.metaTable }
  transport : start.transport = t
  handed : start.handed = []
  accounted : Accounted T tenant (pushQueue P s tenant own) accepted start (finalState result)
  complete : ∀ report push, result = .ok report push →
    report = { pushed := accepted.flatten.length, tooLarge := push.tooLarge,
               unpushable := push.unpushable } ∧
    start.mentioned.Perm ((leftOut P s tenant own).map fun head => (head.vaultId, head.itemId)) ∧
    ∃ refused, Reported (pushQueue P s tenant own) accepted.flatten refused start push

theorem runPush_ends (numbered : AuditNumbered s) :
    ∃ start accepted, Ends P T tenant own s t start accepted
      ((runPush P T tenant own true).run { storage := s, transport := t }) := by
  have queues := queueVaultData_queues P tenant own (τ := τ) { storage := s, transport := t }
  rw [runPush_eq]
  cases queued : (queueVaultData P tenant own).run { storage := s, transport := t } with
  | error =>
    rw [queued] at queues
    exact ⟨{ storage := s, transport := t }, [],
      { storage := rfl
        transport := rfl
        handed := rfl
        accounted := .of_queues queues _
        complete := nofun }⟩
  | ok vaultData mid =>
    rw [queued, finalState_ok] at queues
    obtain ⟨isQueue, mentioned⟩ := queueVaultData_run_ok queued
    let start := mid.expect ((newAccountStates mid.storage tenant).map AccountStateRecord.version)
    have loads : (vaultData ++ accountQueue mid.storage tenant).filterMap
        (Queued.load start.storage) = pushQueue P s tenant own := by
      rw [← outbox_eq_pushQueue, ← isQueue]
      have loaded := @load_outbox τ tenant s t vaultData mid queues
      exact loaded
    have fits : start.VersionFits := by
      apply expect_versionFits queues.acctVersion
      intro v member
      obtain ⟨_, inside, rfl⟩ := mem_map.mp member
      exact newAccountStates_version inside
    have done := send_done (T := T) tenant (vaultData ++ accountQueue mid.storage tenant) start
      (by
        rw [loads, ← outbox_eq_pushQueue, ← isQueue]
        exact outbox_settleable queued numbered.auditsFit) fits
    rw [loads] at done
    obtain ⟨accepted, accounted, complete⟩ := done
    refine ⟨start, accepted,
      { storage := queues.storage
        transport := queues.transport
        handed := queues.handed
        accounted := ?_
        complete := fun report push same => ?_ }⟩
    · dsimp only [accountPart]
      rw [finalState_sendAndReport]
      exact accounted
    · obtain ⟨n, sent, rfl⟩ := sendAndReport_run_ok same
      obtain ⟨rfl, refused, reported⟩ := complete n push sent
      exact ⟨rfl, mentioned, refused, reported⟩

/-! ## What is accepted and what is left -/

/-- The ids of an item. -/
def Outgoing.itemIds (outgoing : Outgoing) : Option (Bytes × Bytes) :=
  match outgoing.object with
  | .item i => some (i.vaultId, i.itemId)
  | _ => none

theorem pushQueue_itemIds (P : Primitives) (s : Storage) (tenant : Bytes) (own : Option Bytes) :
    (pushQueue P s tenant own).filterMap Outgoing.itemIds =
      (queuedItems P s tenant own).map fun head => (head.vaultId, head.itemId) := by
  have others {α : Type} (l : List α) (f : α → Outgoing) (other : ∀ a, (f a).itemIds = none) :
      (l.map f).filterMap Outgoing.itemIds = [] := by
    simp [filterMap_map, other]
  have items (l : List ItemRecord) :
      (l.map fun i => (⟨.item i, .dirty⟩ : Outgoing)).filterMap Outgoing.itemIds =
        l.map fun i => (i.vaultId, i.itemId) := by
    rw [filterMap_map, ← filterMap_eq_map]
    rfl
  unfold pushQueue
  simp only [filterMap_append]
  rw [others _ _ fun _ => rfl, others _ _ fun _ => rfl, others _ _ fun _ => rfl, items,
    others _ _ fun _ => rfl, others _ _ fun _ => rfl, queuedItems_load]
  simp

theorem pushQueue_row (queued : outgoing ∈ pushQueue P s tenant own)
    (row : outgoing.object.RowOf k) : s.IsDirty k ∧ outgoing.sent = .dirty := by
  have pending : outgoing.object.Pending s tenant → s.IsDirty k := fun pending =>
    pending.isDirty row
  simp only [pushQueue, mem_append, mem_map] at queued
  rcases queued with ((((⟨m, listed, rfl⟩ | ⟨v, listed, rfl⟩) | ⟨g, listed, rfl⟩) |
    ⟨i, loaded, rfl⟩) | ⟨st, -, rfl⟩) | ⟨entry, -, rfl⟩
  · exact ⟨pending listed, rfl⟩
  · exact ⟨pending listed, rfl⟩
  · exact ⟨pending listed, rfl⟩
  · obtain ⟨head, chosen, stored⟩ := mem_filterMap.mp loaded
    refine ⟨pending (listedItem_pending (List.Subset.refl _) (mem_filterMap.mpr
      ⟨.item head.vaultId head.itemId, mem_map_of_mem (mem_of_mem_filter chosen), ?_⟩)),
      rfl⟩
    rw [Queued.load, stored, map_some]
  · exact row.elim
  · exact row.elim

/-- The items a report names, entry by entry. -/
def PushReport.mentioned (report : PushReport) : List (Bytes × Bytes) :=
  report.tooLarge.map (fun r => (r.vaultId, r.itemId)) ++
    report.unpushable.map fun u => (u.vaultId, u.itemId)

section Ends

variable {P : Primitives} {T : SyncTransport τ} {tenant : Bytes} {own : Option Bytes} {t : τ}
  {start push : Push τ} {accepted : List (List Outgoing)} {report : PushReport}
  {result : EStateM.Result SyncError (Push τ) PushReport}

theorem Ends.isDirty_iff (ends : Ends P T tenant own s t start accepted result) :
    start.storage.IsDirty k ↔ s.IsDirty k := by
  rw [ends.storage]
  cases k <;> exact Iff.rfl

section

variable (ends : Ends P T tenant own s t start accepted (.ok report push))
include ends

theorem Ends.items_perm : (accepted.flatten.filterMap Outgoing.itemIds ++ report.mentioned).Perm
      ((s.listDirtyBoundItemVersions tenant).map fun head => (head.vaultId, head.itemId)) := by
  obtain ⟨rfl, left, refused, reported⟩ := ends.complete report push rfl
  obtain ⟨rest, whole, objects⟩ := reported.complete
  have ofRest : rest.filterMap Outgoing.itemIds = refused.map fun i => (i.vaultId, i.itemId) := by
    have viaObject : rest.filterMap Outgoing.itemIds = (rest.map Outgoing.object).filterMap
        fun obj => (⟨obj, .dirty⟩ : Outgoing).itemIds := by
      rw [filterMap_map]
      rfl
    rw [viaObject, objects, filterMap_map, ← filterMap_eq_map]
    rfl
  have queued := whole.filterMap Outgoing.itemIds
  rw [pushQueue_itemIds, filterMap_append, ofRest] at queued
  calc accepted.flatten.filterMap Outgoing.itemIds ++ push.mentioned
      _ |>.Perm (accepted.flatten.filterMap Outgoing.itemIds ++
          ((leftOut P s tenant own).map (fun head => (head.vaultId, head.itemId)) ++
            refused.map fun i => (i.vaultId, i.itemId))) :=
        (reported.mentioned.trans (left.append_right _)).append_left _
      _ |>.Perm ((accepted.flatten.filterMap Outgoing.itemIds ++
          refused.map fun i => (i.vaultId, i.itemId)) ++
            (leftOut P s tenant own).map fun head => (head.vaultId, head.itemId)) := by
        rw [append_assoc]
        exact perm_append_comm.append_left _
      _ |>.Perm ((queuedItems P s tenant own).map (fun head => (head.vaultId, head.itemId)) ++
            (leftOut P s tenant own).map fun head => (head.vaultId, head.itemId)) :=
        queued.symm.append_right _
      _ |>.Perm ((s.listDirtyBoundItemVersions tenant).map fun head =>
            (head.vaultId, head.itemId)) := by
        rw [← map_append]
        exact (filter_append_perm _ _).map _

theorem Ends.mentioned_once (mentioned : (vaultId, itemId) ∈ report.mentioned) :
    report.mentioned.count (vaultId, itemId) = 1 ∧ push.storage.IsDirty (.item vaultId itemId) := by
  have nodup := ends.items_perm.nodup_iff.mpr dirtyHeads_nodup
  obtain ⟨-, once, disjoint⟩ := nodup_append.mp nodup
  refine ⟨count_eq_one_of_mem once mentioned, ?_⟩
  refine ends.accounted.keeps _ (fun other member row => ?_) (ends.isDirty_iff.mpr ?_)
  · obtain ⟨object, _⟩ := other
    cases object with
    | item j =>
      obtain ⟨rfl, rfl⟩ := row
      exact disjoint (j.vaultId, j.itemId) (mem_filterMap.mpr ⟨_, member, rfl⟩) _ mentioned rfl
    | _ => exact row.elim
  · have listed := ends.items_perm.mem_iff.mp (mem_append_right _ mentioned)
    obtain ⟨_, inside, same⟩ := mem_map.mp listed
    obtain ⟨⟨key, row⟩, filtered, rfl⟩ := mem_map.mp inside
    obtain ⟨stored, chosen⟩ := mem_filter.mp filtered
    obtain rfl : key = (vaultId, itemId) := same
    exact ⟨row, mem_toList_iff_getElem?_eq_some.mp stored, (of_decide_eq_true chosen).2⟩

theorem Ends.not_accepted
    (queued : outgoing ∈ pushQueue P s tenant own) (not : outgoing ∉ accepted.flatten) :
    ∃ i, outgoing.object = .item i ∧ (i.vaultId, i.itemId) ∈ report.mentioned := by
  obtain ⟨rfl, _, refused, reported⟩ := ends.complete report push rfl
  obtain ⟨rest, whole, objects⟩ := reported.complete
  have inRest : outgoing ∈ rest := (mem_append.mp (whole.mem_iff.mp queued)).resolve_left not
  have isRefused : outgoing.object ∈ refused.map SyncObject.item := by
    rw [← objects]
    exact mem_map_of_mem inRest
  obtain ⟨i, inside, isItem⟩ := mem_map.mp isRefused
  exact ⟨i, isItem.symm,
    reported.mentioned.mem_iff.mpr (mem_append_right _ (mem_map_of_mem inside))⟩

theorem Ends.leftOut_mentioned {head : ItemVersion} (left : head ∈ leftOut P s tenant own) :
    (head.vaultId, head.itemId) ∈ report.mentioned := by
  obtain ⟨rfl, mentioned, _, reported⟩ := ends.complete report push rfl
  refine reported.mentioned.mem_iff.mpr (mem_append_left _ (mentioned.mem_iff.mpr ?_))
  exact mem_map_of_mem left

end

/-- A dirty row loses its flag exactly when an accepted object is its content. -/
theorem Ends.cleared_iff (ends : Ends P T tenant own s t start accepted result)
    (dirty : s.IsDirty k) :
    ¬ (finalState result).storage.IsDirty k ↔
      ∃ outgoing ∈ accepted.flatten, outgoing.object.RowOf k := by
  constructor
  · intro cleared
    by_contra none
    refine cleared (ends.accounted.keeps k (fun outgoing member row => none ?_)
      (ends.isDirty_iff.mpr dirty))
    exact ⟨outgoing, member, row⟩
  · rintro ⟨outgoing, member, row⟩
    have queued := ends.accounted.inOrder.subset member
    exact (ends.accounted.settled outgoing member (pushQueue_row queued row).2).not_isDirty row

theorem Ends.auditCursor (ends : Ends P T tenant own s t start accepted result)
    (numbered : AuditNumbered s) :
    (finalState result).storage.getSyncCursor (pushCursorKey tenant) =
      ((accepted.flatten.filterMap Outgoing.auditSeq).max?.map UInt64.ofNat).or
        (s.getSyncCursor (pushCursorKey tenant)) := by
  have increasing : (accepted.flatten.filterMap Outgoing.auditSeq).Pairwise (· < ·) :=
    (pushQueue_auditSeqs numbered).sublist (ends.accounted.inOrder.filterMap Outgoing.auditSeq)
  have cursor : start.storage.getSyncCursor (pushCursorKey tenant) =
      s.getSyncCursor (pushCursorKey tenant) := by
    rw [ends.storage]
    rfl
  rw [ends.accounted.auditCursor, ← getLast?_eq_max? increasing, cursor]
  rfl

end Ends

/-- The accepted requests take the queue in order, each object once; a push that returned reports
the rest, still dirty, once each. The audit cursor is the highest entry accepted. -/
structure DeliveryAccounted (P : Primitives) (T : SyncTransport τ) (tenant : Bytes)
    (own : Option Bytes) (s : Storage) (t : τ) (accepted : List (List Outgoing))
    (result : EStateM.Result SyncError (Push τ) PushReport) : Prop where
  requests : acceptedRequests T t (finalState result).handed =
    accepted.map (List.map Outgoing.object)
  once : accepted.flatten.Nodup
  inOrder : accepted.flatten.Sublist (pushQueue P s tenant own)
  pushed : ∀ report push, result = .ok report push → report.pushed = accepted.flatten.length
  notAccepted : ∀ report push, result = .ok report push →
    ∀ outgoing ∈ pushQueue P s tenant own, outgoing ∉ accepted.flatten →
      ∃ i, outgoing.object = .item i ∧ report.mentioned.count (i.vaultId, i.itemId) = 1 ∧
        push.storage.IsDirty (.item i.vaultId i.itemId)
  notQueued : ∀ report push, result = .ok report push → ∀ head ∈ leftOut P s tenant own,
    report.mentioned.count (head.vaultId, head.itemId) = 1 ∧
      push.storage.IsDirty (.item head.vaultId head.itemId)
  cleared : ∀ k, s.IsDirty k → (¬ (finalState result).storage.IsDirty k ↔
    ∃ outgoing ∈ accepted.flatten, outgoing.object.RowOf k)
  auditCursor : (finalState result).storage.getSyncCursor (pushCursorKey tenant) =
    ((accepted.flatten.filterMap Outgoing.auditSeq).max?.map UInt64.ofNat).or
      (s.getSyncCursor (pushCursorKey tenant))

theorem runPush_accounted (numbered : AuditNumbered s) :
    ∃ accepted, DeliveryAccounted P T tenant own s t accepted
      ((runPush P T tenant own true).run { storage := s, transport := t }) := by
  obtain ⟨_, accepted, ends⟩ := runPush_ends numbered
  refine ⟨accepted,
    { requests := ?_
      once := (pushQueue_nodup numbered).sublist ends.accounted.inOrder
      inOrder := ends.accounted.inOrder
      pushed := fun report push same => by rw [(ends.complete report push same).1]
      notAccepted := fun report push same outgoing queued not => ?_
      notQueued := fun report push same head left => ?_
      cleared := fun k => ends.cleared_iff
      auditCursor := ends.auditCursor numbered }⟩
  · obtain ⟨_, handed, -, accepts⟩ := ends.accounted.hands
    rw [handed, ends.handed, nil_append, ← accepts, ends.transport]
  · rw [same] at ends
    obtain ⟨i, isItem, mentioned⟩ := ends.not_accepted queued not
    exact ⟨i, isItem, ends.mentioned_once mentioned⟩
  · rw [same] at ends
    exact ends.mentioned_once (ends.leftOut_mentioned left)

/-- Whatever the transport answers, a push accounts for what it delivered. -/
theorem push_delivery_accounted (P : Primitives) (T : SyncTransport τ) {s : Storage}
    (numbered : AuditNumbered s) (t : τ) :
    (∀ tenant, ∃ accepted, DeliveryAccounted P T tenant none s t accepted
      ((syncPush P T tenant).run { storage := s, transport := t })) ∧
    ∀ ctx : SyncContext, ∃ accepted,
      DeliveryAccounted P T ctx.tenant (some ctx.genesisOwner) s t accepted
        ((syncPushAs P T ctx).run { storage := s, transport := t }) :=
  ⟨fun _ => runPush_accounted numbered, fun _ => runPush_accounted numbered⟩

end Push

/-- A server that takes one object a request, and takes items from nobody. -/
def Sample.strictTransport : SyncTransport Unit where
  pushObjects _ objects :=
    match objects with
    | [.item _] => (.error .forbidden, ())
    | [_] => (.ok [], ())
    | _ => (.error .payloadTooLarge, ())
  deltaSince _ _ := ([], ())
  reportVersion _ := 0

open Sample

/-- A bound vault with an unsent record and item, and an audit entry. -/
def Sample.unsent : Storage :=
  let edited : Except StorageError Storage := do
    let s ← ({} : Storage).putVault (vault owner [4] 1 0)
    let s := s.setVaultTenant vaultId context.tenant
    let s ← s.putItem (item owner [5] [4] 1 0)
    .ok ((s.markItemDirty vaultId [5]).appendAudit [1] [2] [3])
  edited.toOption.getD {}

/-- Three objects in one request, sent again one by one: the item stays behind. -/
theorem push_delivery_accounted_strict :
    let push := (syncPush .transparent strictTransport context.tenant).run
      { storage := unsent, transport := () }
    (∃ accepted, DeliveryAccounted .transparent strictTransport context.tenant none
      unsent () accepted push) ∧
    (match push with
      | .ok report _ => some (report.pushed, report.mentioned)
      | .error _ _ => none) = some (2, [(vaultId, [5])]) := by
  have numbered : AuditNumbered unsent := ⟨by decide +kernel, by decide +kernel⟩
  refine ⟨(push_delivery_accounted .transparent strictTransport numbered ()).1 _, ?_⟩
  decide +kernel

end UniSsh
