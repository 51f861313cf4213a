import UniSsh.Sync.Push
import UniSsh.Sync.Trace

/-!
# What a push does

However a push ends, it clears flags and moves its own cursors and lists (`Settles`), and hands
over only what was pending when it started (`SyncObject.Pending`).
-/

namespace UniSsh

open List Storage

/-! ## Clearing flags -/

/-- The row as it was, or cleared. -/
def Cleared {V : Type} (clear : V → V) (row row' : V) : Prop :=
  row' = row ∨ row' = clear row

instance {V : Type} (clear : V → V) : Std.Refl (Cleared clear) := ⟨fun _ => .inl rfl⟩

theorem Cleared.isTrans {V : Type} {clear : V → V} (once : ∀ row, clear (clear row) = clear row) :
    IsTrans V (Cleared clear) where
  trans a b c first second := by
    rcases first with rfl | rfl
    · exact second
    · rcases second with rfl | rfl
      · exact .inr rfl
      · exact .inr (once a)

def VaultRow.clear (row : VaultRow) : VaultRow := { row with dirty := false }
def ItemRow.clear (row : ItemRow) : ItemRow := { row with dirty := false }
def ManifestRow.clear (row : ManifestRow) : ManifestRow := { row with dirty := false }
def GrantRow.clear (row : GrantRow) : GrantRow := { row with dirty := false }

instance : IsTrans VaultRow (Cleared VaultRow.clear) := Cleared.isTrans fun _ => rfl
instance : IsTrans ItemRow (Cleared ItemRow.clear) := Cleared.isTrans fun _ => rfl
instance : IsTrans ManifestRow (Cleared ManifestRow.clear) := Cleared.isTrans fun _ => rfl
instance : IsTrans GrantRow (Cleared GrantRow.clear) := Cleared.isTrans fun _ => rfl

/-- Only dirty flags, push cursors and remembered lists were written. -/
structure Settles (s s' : Storage) : Prop where
  vaults : Table.Pointwise (Cleared VaultRow.clear) s.vaults s'.vaults
  items : Table.Pointwise (Cleared ItemRow.clear) s.items s'.items
  manifests : Table.Pointwise (Cleared ManifestRow.clear) s.membershipManifests
    s'.membershipManifests
  grants : Table.Pointwise (Cleared GrantRow.clear) s.membershipGrants s'.membershipGrants
  history : s'.itemHistory = s.itemHistory
  auditLog : s'.auditLog = s.auditLog
  auditSeq : s'.auditSeq = s.auditSeq
  floors : s'.vaultEpochFloor = s.vaultEpochFloor
  anchors : s'.vaultTrustAnchor = s.vaultTrustAnchor
  accountStates : s'.accountState = s.accountState
  clock : s'.now = s.now
  pullCursors : ∀ tenant, s'.syncState[pullCursorKey tenant]? = s.syncState[pullCursorKey tenant]?

namespace Settles

theorem refl (s : Storage) : Settles s s :=
  ⟨.refl _, .refl _, .refl _, .refl _, rfl, rfl, rfl, rfl, rfl, rfl, rfl, fun _ => rfl⟩

variable {s s' : Storage}

theorem trans (first : Settles s mid) (second : Settles mid s') : Settles s s' where
  vaults := first.vaults.trans second.vaults
  items := first.items.trans second.items
  manifests := first.manifests.trans second.manifests
  grants := first.grants.trans second.grants
  history := second.history.trans first.history
  auditLog := second.auditLog.trans first.auditLog
  auditSeq := second.auditSeq.trans first.auditSeq
  floors := second.floors.trans first.floors
  anchors := second.anchors.trans first.anchors
  accountStates := second.accountStates.trans first.accountStates
  clock := second.clock.trans first.clock
  pullCursors := fun tenant => (second.pullCursors tenant).trans (first.pullCursors tenant)

/-- A cleared item is the same record. -/
theorem getItem_eq (settles : Settles s s') (vaultId itemId : Bytes) :
    s'.getItem vaultId itemId = s.getItem vaultId itemId := by
  unfold getItem
  have related := settles.items (vaultId, itemId)
  generalize s.items[(vaultId, itemId)]? = row at related ⊢
  generalize s'.items[(vaultId, itemId)]? = row' at related ⊢
  cases related with
  | none => rfl
  | some cleared =>
    rcases cleared with rfl | rfl
    · rfl
    · rfl

theorem load_eq (settles : Settles s s') (queued : Queued) : queued.load s' = queued.load s := by
  cases queued with
  | loaded => rfl
  | item => simp only [Queued.load, settles.getItem_eq]

end Settles

/-! ## The writes of a push -/

variable {s s' : Storage}

theorem clearDirty_settles (cleared : clearDirty s obj = .ok s') :
    Settles s s' := by
  have same := Settles.refl s
  cases obj with
  | vault =>
    cases cleared
    exact { same with vaults := .updateWhere (fun _ _ _ => .inr rfl) _ }
  | item =>
    cases cleared
    exact { same with items := .updateWhere (fun _ _ _ => .inr rfl) _ }
  | membershipManifest =>
    obtain ⟨_, -, rfl⟩ := checkedWrite_eq_ok.mp cleared
    exact { same with manifests := .updateWhere (fun _ _ _ => .inr rfl) _ }
  | membershipGrant =>
    obtain ⟨_, -, rfl⟩ := checkedWrite_eq_ok.mp cleared
    exact { same with grants := .updateWhere (fun _ _ _ => .inr rfl) _ }
  | _ =>
    cases cleared
    exact same

variable {outgoing : Outgoing} {key : Bytes}

theorem settleOne_settles (settled : settleOne s outgoing = .ok s') : Settles s s' := by
  unfold settleOne at settled
  split at settled
  · exact clearDirty_settles settled
  · cases settled
    exact .refl s
  · cases settled
    exact .refl s

variable {part : List Outgoing} {v : UInt64}

theorem foldlM_settles (settled : part.foldlM settleOne s = .ok s') : Settles s s' := by
  induction part generalizing s with
  | nil =>
    cases settled
    exact .refl _
  | cons _ _ ih =>
    rw [foldlM_cons] at settled
    obtain ⟨_, first, later⟩ := bind_eq_ok.mp settled
    exact (settleOne_settles first).trans (ih later)

theorem saveRemembered_onlyMeta {α : Type} {fields : α → List (Except SyncError Bytes)}
    {refused : List α} (saved : saveRemembered fields key refused s = .ok s') :
    s' = { s with metaTable := s'.metaTable } := by
  obtain ⟨_, -, built⟩ := bind_eq_ok.mp saved
  cases built
  rfl

theorem Settles.of_onlyMeta (onlyMeta : s' = { s with metaTable := s'.metaTable }) :
    Settles s s' := by
  rw [onlyMeta]
  exact { Settles.refl s with }

/-- Keys whose names differ in their first nine bytes differ, whatever the tenants. -/
theorem tenantKey_ne (long : 9 ≤ (ascii name).length) (long' : 9 ≤ (ascii other).length)
    (differ : (ascii name).take 9 ≠ (ascii other).take 9) :
    tenantKey name tenant ≠ tenantKey other tenant' := by
  intro same
  apply differ
  calc (ascii name).take 9 = (tenantKey name tenant).take 9 := by
        rw [tenantKey, append_assoc, take_append_of_le_length long]
    _ = (tenantKey other tenant').take 9 := by rw [same]
    _ = (ascii other).take 9 := by
        rw [tenantKey, append_assoc, take_append_of_le_length long']

theorem pushCursorKey_ne (tenant tenant' : Bytes) : pushCursorKey tenant ≠ pullCursorKey tenant' :=
  tenantKey_ne (by decide) (by decide) (by decide)

theorem acctPushCursorKey_ne (tenant tenant' : Bytes) :
    acctPushCursorKey tenant ≠ pullCursorKey tenant' :=
  tenantKey_ne (by decide) (by decide) (by decide)

theorem setSyncCursor_settles (other : ∀ tenant, key ≠ pullCursorKey tenant)
    (wrote : s.setSyncCursor key v = .ok s') : Settles s s' := by
  obtain ⟨n, -, rfl⟩ := setSyncCursor_eq_ok.mp wrote
  refine { Settles.refl s with pullCursors := fun tenant => ?_ }
  rw [Table.getElem?_insert, if_neg (other tenant)]

/-! ## The relation of a push -/

section Push

variable {τ : Type}

/-- The state of the transport after a list of requests. -/
def replay (T : SyncTransport τ) (t : τ) (requests : List (List SyncObject)) : τ :=
  requests.foldl (fun t objects => (T.pushObjects t objects).2) t

/-- A push settled rows and handed over requests of `allowed` objects. -/
structure Pushes (T : SyncTransport τ) (allowed : SyncObject → Prop) (push push' : Push τ) :
    Prop where
  settles : Settles push.storage push'.storage
  hands : ∃ requests, push'.handed = push.handed ++ requests ∧
    push'.transport = replay T push.transport requests ∧
    ∀ request ∈ requests, ∀ obj ∈ request, allowed obj

variable {T : SyncTransport τ} {allowed : SyncObject → Prop}

instance : Std.Refl (Pushes T allowed) where
  refl push := ⟨.refl _, [], by simp, rfl, by simp⟩

instance : IsTrans (Push τ) (Pushes T allowed) where
  trans first mid last before after := by
    obtain ⟨requests, handed, transport, all⟩ := before.hands
    obtain ⟨requests', handed', transport', all'⟩ := after.hands
    refine ⟨before.settles.trans after.settles, requests ++ requests', ?_, ?_, ?_⟩
    · rw [handed', handed, append_assoc]
    · rw [transport', transport, replay, replay, replay, foldl_append]
    · intro request member
      rcases mem_append.mp member with left | right
      · exact all request left
      · exact all' request right

theorem Push.write_run (f : Storage → Except SyncError Storage) (push : Push τ) :
    (Push.write f).run push = match f push.storage with
      | .ok storage => .ok () { push with storage }
      | .error e => .error e push := by
  unfold Push.write
  rw [writeM_run]
  cases f push.storage <;> rfl

/-- A change of the push's own counters and lists. -/
theorem modify_pushes {f : Push τ → Push τ} (storage : ∀ push, (f push).storage = push.storage)
    (transport : ∀ push, (f push).transport = push.transport)
    (handed : ∀ push, (f push).handed = push.handed) :
    Preserves (Pushes T allowed) (modify f : PushM τ PUnit) := by
  intro push
  change Pushes T allowed push (f push)
  refine ⟨?_, [], ?_, transport push, by simp⟩
  · rw [storage]
    exact .refl _
  · rw [handed, append_nil]

theorem get_pushes : Preserves (Pushes T allowed) (get : PushM τ (Push τ)) :=
  fun push => refl push

variable {f : Storage → Except SyncError Storage}

theorem write_pushes (settles : ∀ s s', f s = .ok s' → Settles s s') :
    Preserves (Pushes T allowed) (Push.write f : PushM τ Unit) := by
  intro push
  rw [Push.write_run]
  cases ran : f push.storage with
  | error => exact refl push
  | ok => exact ⟨settles _ _ ran, [], by simp, rfl, by simp⟩

theorem setCursor_pushes (other : ∀ tenant, key ≠ pullCursorKey tenant) :
    Preserves (Pushes T allowed) (setCursor key v : PushM τ Unit) := by
  apply write_pushes
  intro s _ wrote
  cases ran : s.setSyncCursor key v with
  | error => simp [ran, Except.mapError] at wrote
  | ok =>
    simp only [ran, Except.mapError, Except.ok.injEq] at wrote
    subst wrote
    exact setSyncCursor_settles other ran

variable {tenant : Bytes}

theorem settleAccounts_pushes :
    Preserves (Pushes T allowed) (settleAccounts tenant accounts : PushM τ Unit) := by
  refine .bind (modify_pushes (fun _ => rfl) (fun _ => rfl) fun _ => rfl) fun _ => ?_
  refine .bind get_pushes fun push => ?_
  cases push.acctVersion with
  | none => exact .pure _
  | some =>
    dsimp only
    split
    · refine .bind (modify_pushes (fun _ => rfl) (fun _ => rfl) fun _ => rfl) fun _ => ?_
      exact setCursor_pushes (acctPushCursorKey_ne tenant)
    · exact .pure _

theorem settleAudit_pushes :
    Preserves (Pushes T allowed) (settleAudit tenant part : PushM τ Unit) := by
  unfold settleAudit
  split
  · exact setCursor_pushes (pushCursorKey_ne tenant)
  · exact .pure _

theorem settle_pushes : Preserves (Pushes T allowed) (settle tenant part : PushM τ Unit) := by
  have cleared : Preserves (Pushes T allowed)
      (Push.write fun s => (part.foldlM settleOne s).mapError .storage : PushM τ Unit) := by
    apply write_pushes
    intro s _ wrote
    cases ran : part.foldlM settleOne s with
    | error => simp [ran, Except.mapError] at wrote
    | ok =>
      simp only [ran, Except.mapError, Except.ok.injEq] at wrote
      subst wrote
      exact foldlM_settles ran
  apply Preserves.bind cleared
  intro _
  apply Preserves.bind settleAudit_pushes
  intro _
  exact settleAccounts_pushes

theorem refuse_pushes : Preserves (Pushes T allowed) (refuse tenant part : PushM τ Unit) := by
  unfold refuse
  split
  · refine .bind (modify_pushes (fun _ => rfl) (fun _ => rfl) fun _ => rfl) fun _ => ?_
    refine .bind get_pushes fun push => ?_
    exact write_pushes fun _ _ saved => .of_onlyMeta (saveRemembered_onlyMeta saved)
  · exact .throw _

theorem forbid_pushes : Preserves (Pushes T allowed) (forbid tenant part : PushM τ Unit) := by
  unfold forbid
  split
  · refine .bind (modify_pushes (fun _ => rfl) (fun _ => rfl) fun _ => rfl) fun _ => ?_
    refine .bind get_pushes fun push => ?_
    exact write_pushes fun _ _ saved => .of_onlyMeta (saveRemembered_onlyMeta saved)
  · exact .throw _

theorem sendPart_pushes (tenant : Bytes) (part : List Outgoing)
    (all : ∀ outgoing ∈ part, allowed outgoing.object) :
    Preserves (Pushes T allowed) (sendPart T tenant part) := by
  induction size : part.length using Nat.strongRecOn generalizing part with
  | ind _ ih =>
    have objects : ∀ obj ∈ part.map Outgoing.object, allowed obj := by
      intro _ member
      obtain ⟨outgoing, inside, rfl⟩ := mem_map.mp member
      exact all outgoing inside
    rw [sendPart]
    have hands : Preserves (Pushes T allowed) (handOver T (part.map Outgoing.object)) := by
      refine fun _ => ⟨.refl _, [part.map Outgoing.object], rfl, rfl, fun _ member => ?_⟩
      rw [mem_singleton.mp member]
      exact objects
    refine .bind hands fun answer => ?_
    cases answer with
    | ok => exact .bind settle_pushes fun _ => Preserves.pure _
    | error =>
      dsimp only
      split
      · next =>
        have first := ih _ (by rw [length_take]; omega) (part.take (part.length / 2))
          (fun outgoing member => all outgoing (mem_of_mem_take member)) rfl
        have second := ih _ (by rw [length_drop]; omega) (part.drop (part.length / 2))
          (fun outgoing member => all outgoing (mem_of_mem_drop member)) rfl
        exact .bind first fun _ => Preserves.bind second fun _ => Preserves.pure _
      · split
        · exact .bind refuse_pushes fun _ => Preserves.pure _
        · exact .bind forbid_pushes fun _ => Preserves.pure _
        · exact .throw _

theorem fill_load (s : Storage) (request : List Outgoing) (queue : List Queued) :
    (fill s request queue).1 ++ (fill s request queue).2.filterMap (Queued.load s) =
      request ++ queue.filterMap (Queued.load s) := by
  induction queue generalizing request with
  | nil => simp [fill]
  | cons queued _ ih =>
    unfold fill
    cases loaded : queued.load s with
    | none => simpa [loaded] using ih request
    | some outgoing =>
      dsimp only
      split
      · simpa [loaded] using ih (request ++ [outgoing])
      · rw [filterMap_cons_some loaded]
        rfl

theorem send_eq (T : SyncTransport τ) (tenant : Bytes) (queue : List Queued) (push : Push τ) :
    send T tenant queue push =
      if (fill push.storage [] queue).1 = [] then .ok 0 push
      else
        match (sendPart T tenant (fill push.storage [] queue).1).run push with
        | .error e failed => .error e failed
        | .ok sent settled =>
          match send T tenant (fill push.storage [] queue).2 settled with
          | .error e failed => .error e failed
          | .ok later final => .ok (sent + later) final := by
  rw [send]
  split
  · next filled => simp [filled]
  · next filled =>
    rw [filled]
    exact (if_neg (cons_ne_nil _ _)).symm

theorem send_induction {motive : List Queued → Push τ → Prop}
    (request : ∀ queue push, (∀ settled, (fill push.storage [] queue).1 ≠ [] →
        motive (fill push.storage [] queue).2 settled) → motive queue push)
    (queue : List Queued) (push : Push τ) : motive queue push := by
  induction size : queue.length using Nat.strongRecOn generalizing queue push with
  | ind _ ih =>
    apply request
    intro settled nonempty
    have shorter := fill_length push.storage [] queue
    have taken := length_pos_iff.mpr nonempty
    rw [length_nil] at shorter
    exact ih _ (by omega) _ settled rfl

theorem send_pushes
    (all : ∀ outgoing ∈ queue.filterMap (Queued.load push.storage), allowed outgoing.object) :
    Pushes T allowed push (finalState (send T tenant queue push)) := by
  revert all
  induction queue, push using send_induction with
  | request queue push ih =>
    intro all
    have loads := fill_load push.storage [] queue
    rw [nil_append] at loads
    rw [send_eq]
    split
    · exact refl push
    · next nonempty =>
      have here := sendPart_pushes (T := T) tenant (fill push.storage [] queue).1
        (fun outgoing member => all outgoing (loads ▸ mem_append_left _ member)) push
      cases ran : (sendPart T tenant (fill push.storage [] queue).1).run push with
      | error => simpa [ran] using here
      | ok _ settled =>
        rw [ran, finalState_ok] at here
        have later := ih settled nonempty (by
          intro _ member
          apply all
          rw [← loads]
          apply mem_append_right
          rwa [funext here.settles.load_eq] at member)
        dsimp only
        cases ran' : send T tenant (fill push.storage [] queue).2 settled with
        | error =>
          rw [ran'] at later
          exact IsTrans.trans _ _ _ here later
        | ok =>
          rw [ran'] at later
          exact IsTrans.trans _ _ _ here later

/-! ## What is queued -/

/-- Queueing only writes the remembered lists and the report. -/
structure Queues (push push' : Push τ) : Prop where
  storage : push'.storage = { push.storage with metaTable := push'.storage.metaTable }
  transport : push'.transport = push.transport
  handed : push'.handed = push.handed
  acctLeft : push'.acctLeft = push.acctLeft
  acctVersion : push'.acctVersion = push.acctVersion

instance : Std.Refl (Queues (τ := τ)) := ⟨fun _ => ⟨rfl, rfl, rfl, rfl, rfl⟩⟩

instance : IsTrans (Push τ) Queues where
  trans first mid last before after :=
    { storage := by rw [after.storage, before.storage]
      transport := after.transport.trans before.transport
      handed := after.handed.trans before.handed
      acctLeft := after.acctLeft.trans before.acctLeft
      acctVersion := after.acctVersion.trans before.acctVersion }

/-- An entry in the report. -/
theorem report_queues {f : Push τ → Push τ} (kept : ∀ push, Queues push (f push)) :
    Preserves Queues (modify f : PushM τ PUnit) :=
  fun push => kept push

theorem remember_queues
    (onlyMeta : ∀ s s', f s = .ok s' → s' = { s with metaTable := s'.metaTable }) :
    Preserves Queues (Push.write f : PushM τ Unit) := by
  intro push
  rw [Push.write_run]
  cases ran : f push.storage with
  | error => exact refl push
  | ok => exact ⟨onlyMeta _ _ ran, rfl, rfl, rfl, rfl⟩

variable {remembered : List TooLarge} {forbidden : List Unpushable} {heads : List ItemVersion}

theorem queueItems_queues :
    Preserves Queues (queueItems P own remembered forbidden heads : PushM τ (List Queued)) := by
  induction heads with
  | nil => exact .pure _
  | cons _ _ ih =>
    unfold queueItems
    dsimp only
    split
    · exact .bind (report_queues fun _ => ⟨rfl, rfl, rfl, rfl, rfl⟩) fun _ => ih
    · exact .bind (report_queues fun _ => ⟨rfl, rfl, rfl, rfl, rfl⟩) fun _ => ih
    · refine .bind (Preserves.read _) fun sendable => ?_
      split
      · exact .bind ih fun _ => Preserves.pure _
      · exact .bind (report_queues fun _ => ⟨rfl, rfl, rfl, rfl, rfl⟩) fun _ => ih

variable {P : Primitives} {own : Option Bytes} {queue : List Queued} {push' : Push τ}
  {push : Push τ}

/-- The items named by the report of a push, entry by entry. -/
def Push.mentioned (push : Push τ) : List (Bytes × Bytes) :=
  push.tooLarge.map (fun r => (r.vaultId, r.itemId)) ++
    push.unpushable.map fun u => (u.vaultId, u.itemId)

theorem Push.mentioned_tooLarge (push : Push τ) (r : TooLarge) :
    ({ push with tooLarge := push.tooLarge ++ [r] } : Push τ).mentioned.Perm
      (push.mentioned ++ [(r.vaultId, r.itemId)]) := by
  simp only [Push.mentioned, map_append, append_assoc]
  exact perm_append_comm.append_left _

theorem Push.mentioned_unpushable (push : Push τ) (u : Unpushable) :
    ({ push with unpushable := push.unpushable ++ [u] } : Push τ).mentioned.Perm
      (push.mentioned ++ [(u.vaultId, u.itemId)]) := by
  simp only [Push.mentioned, map_append, append_assoc]
  exact List.Perm.refl _

/-- Whether a push sends a dirty item: it was not refused before and its author may write it. -/
def sendable (P : Primitives) (s : Storage) (own : Option Bytes) (remembered : List TooLarge)
    (forbidden : List Unpushable) (head : ItemVersion) : Bool :=
  (remembered.find? fun r =>
      r.vaultId = head.vaultId ∧ r.itemId = head.itemId ∧ r.version = head.version).isNone &&
    (forbidden.find? (·.is head)).isNone && (mayWrite P s own head).toOption == some true

theorem queueItems_run_ok
    (ran : (queueItems P own remembered forbidden heads).run push = .ok queue push') :
    queue = (heads.filter (sendable P push.storage own remembered forbidden)).map
        (fun head => .item head.vaultId head.itemId) ∧
      push'.mentioned.Perm (push.mentioned ++
        (heads.filter fun head => !sendable P push.storage own remembered forbidden head).map
          fun head => (head.vaultId, head.itemId)) := by
  induction heads generalizing queue push with
  | nil =>
    cases ran
    exact ⟨rfl, by simp⟩
  | cons head rest ih =>
    -- An item that is not sent gets an entry before the others are looked at.
    have entered : ∀ {mid : Push τ},
        (queueItems P own remembered forbidden rest).run mid = .ok queue push' →
        mid.storage = push.storage →
        mid.mentioned.Perm (push.mentioned ++ [(head.vaultId, head.itemId)]) →
        sendable P push.storage own remembered forbidden head = false →
        queue = ((head :: rest).filter (sendable P push.storage own remembered forbidden)).map
            (fun head => .item head.vaultId head.itemId) ∧
          push'.mentioned.Perm (push.mentioned ++ ((head :: rest).filter fun head =>
            !sendable P push.storage own remembered forbidden head).map
              fun head => (head.vaultId, head.itemId)) := by
      intro mid ran storage entry not
      obtain ⟨isQueue, mentioned⟩ := ih ran
      rw [storage] at isQueue mentioned
      rw [filter_cons_of_neg (by rw [not]; exact Bool.false_ne_true),
        filter_cons_of_pos (by rw [not]; rfl), map_cons]
      refine ⟨isQueue, mentioned.trans ((entry.append_right _).trans ?_)⟩
      rw [append_assoc, singleton_append]
    unfold queueItems at ran
    dsimp only at ran
    split at ran
    · next known =>
      obtain ⟨_, mid, modified, ran⟩ := bind_run_ok ran
      cases modified
      have isItem := find?_some known
      simp only [decide_eq_true_eq] at isItem
      refine entered ran rfl ?_ (by rw [sendable, known]; rfl)
      rw [← isItem.1, ← isItem.2.1]
      exact push.mentioned_tooLarge _
    · next f isNew refused =>
      obtain ⟨_, mid, modified, ran⟩ := bind_run_ok ran
      cases modified
      have isItem := find?_some refused
      simp only [Unpushable.is, decide_eq_true_eq] at isItem
      refine entered ran rfl ?_ (by rw [sendable, isNew, refused]; rfl)
      rw [← isItem.1, ← isItem.2.1]
      exact push.mentioned_unpushable f
    · next isNew allowed =>
      obtain ⟨_, read, ran⟩ := read_bind_ok ran
      split at ran
      · next yes =>
        obtain ⟨_, mid, first, ran⟩ := bind_run_ok ran
        cases ran
        obtain ⟨isQueue, mentioned⟩ := ih first
        have is : sendable P push.storage own remembered forbidden head = true := by
          rw [sendable, isNew, allowed, read, yes]
          rfl
        rw [filter_cons_of_pos is, filter_cons_of_neg (by rw [is]; decide), map_cons, isQueue]
        exact ⟨rfl, mentioned⟩
      · next no =>
        obtain ⟨_, _, modified, ran⟩ := bind_run_ok ran
        cases modified
        refine entered ran rfl (push.mentioned_unpushable _) ?_
        rw [sendable, isNew, allowed, read, Bool.eq_false_iff.mpr no]
        rfl

theorem forgetSettled_queues :
    Preserves Queues (forgetSettled tenant remembered forbidden : PushM τ Unit) := by
  refine .bind (fun push => refl push) fun push => ?_
  refine .bind (remember_queues ?_) fun _ => remember_queues ?_
  · intro s s' wrote
    split at wrote
    · exact saveRemembered_onlyMeta wrote
    · cases wrote
      rfl
  · intro s _ wrote
    split at wrote
    · exact saveRemembered_onlyMeta wrote
    · cases wrote
      rfl

/-- The dirty rows of the tenant's vaults, and what the account has above the cursors. -/
def SyncObject.Pending (s : Storage) (tenant : Bytes) : SyncObject → Prop
  | .vault v => v ∈ s.listDirtyBoundVaults tenant
  | .item i => ∃ row, s.items[(i.vaultId, i.itemId)]? = some row ∧ row.dirty = true ∧
      s.boundTo tenant i.vaultId = true ∧ i = mapItemRow (i.vaultId, i.itemId) row
  | .membershipManifest m => m ∈ s.listDirtyBoundManifests tenant
  | .membershipGrant g => g ∈ s.listDirtyBoundGrants tenant
  | .audit a => ∃ entry ∈ newAuditEntries s tenant, .audit a = (auditOutgoing entry).object
  | .keyset _ => False
  | .accountState a =>
    ∃ st ∈ newAccountStates s tenant, .accountState a = (accountOutgoing st).object

variable {tenant : Bytes}

theorem listedItem_pending (listed : queue ⊆ (s.listDirtyBoundItemVersions tenant).map
      fun head => .item head.vaultId head.itemId)
    (member : outgoing ∈ queue.filterMap (Queued.load s)) : outgoing.object.Pending s tenant := by
  obtain ⟨_, inside, loaded⟩ := mem_filterMap.mp member
  obtain ⟨_, listed, rfl⟩ := mem_map.mp (listed inside)
  obtain ⟨⟨_, row⟩, filtered, rfl⟩ := mem_map.mp listed
  obtain ⟨stored, chosen⟩ := mem_filter.mp filtered
  obtain ⟨bound, dirty⟩ := of_decide_eq_true chosen
  have found := mem_toList_iff_getElem?_eq_some.mp stored
  simp only [Queued.load, getItem, Prod.mk.eta, found, map_some,
    Option.some.injEq] at loaded
  subst loaded
  exact ⟨row, found, dirty, bound, rfl⟩

theorem queueVaultData_ok (ran : (queueVaultData P tenant own).run push = .ok queue push') :
    ∃ items, queue = beforeItems push.storage tenant ++ items ∧
      items ⊆ (push.storage.listDirtyBoundItemVersions tenant).map
        fun head => .item head.vaultId head.itemId := by
  unfold queueVaultData at ran
  simp only [EStateM.run_bind, EStateM.run_get] at ran
  obtain ⟨items, _, listed, ran⟩ := bind_run_ok ran
  obtain ⟨_, _, _, ran⟩ := bind_run_ok ran
  cases ran
  refine ⟨items, rfl, ?_⟩
  rw [(queueItems_run_ok listed).1]
  exact (filter_sublist.map _).subset

/-- The vault data queued by a push was pending when the push started, and is settled by its
dirty flag. -/
theorem queueVaultData_pending (ran : (queueVaultData P tenant own).run push = .ok queue push')
    (member : outgoing ∈ queue.filterMap (Queued.load push.storage)) :
    outgoing.object.Pending push.storage tenant ∧ outgoing.sent = .dirty := by
  obtain ⟨_, rfl, listed⟩ := queueVaultData_ok ran
  rw [filterMap_append] at member
  rcases mem_append.mp member with before | item
  · obtain ⟨_, listed, loaded⟩ := mem_filterMap.mp before
    simp only [beforeItems, mem_append, mem_map] at listed
    rcases listed with (⟨m, inside, rfl⟩ | ⟨v, inside, rfl⟩) | ⟨g, inside, rfl⟩
    · cases loaded
      exact ⟨inside, rfl⟩
    · cases loaded
      exact ⟨inside, rfl⟩
    · cases loaded
      exact ⟨inside, rfl⟩
  · refine ⟨listedItem_pending listed item, ?_⟩
    obtain ⟨_, inside, loaded⟩ := mem_filterMap.mp item
    obtain ⟨_, -, rfl⟩ := mem_map.mp (listed inside)
    obtain ⟨_, -, rfl⟩ := map_eq_some_iff.mp loaded
    rfl

theorem queueVaultData_queues (P : Primitives) (tenant : Bytes) (own : Option Bytes) :
    Preserves Queues (queueVaultData P tenant own : PushM τ (List Queued)) := by
  refine .bind (fun push => refl push) fun push => ?_
  refine .bind queueItems_queues fun items => ?_
  exact .bind forgetSettled_queues fun _ => Preserves.pure _

theorem Queues.pushes (queues : Queues push push') : Pushes T allowed push push' := by
  exact ⟨.of_onlyMeta queues.storage, [], by rw [queues.handed, append_nil],
    queues.transport, by simp⟩

/-! ## The whole push -/

/-- What is sent after the vault data, and the state it is sent from. -/
def accountPart (tenant : Bytes) (push : Push τ) : Bool → List Queued × Push τ
  | true => (accountQueue push.storage tenant,
      push.expect ((newAccountStates push.storage tenant).map AccountStateRecord.version))
  | false => ([], push)

/-- A push sends the vault data and then, with `accountWide`, what belongs to the account. -/
theorem runPush_eq (P : Primitives) (T : SyncTransport τ) (tenant : Bytes) (own : Option Bytes)
    (accountWide : Bool) (push : Push τ) :
    (runPush P T tenant own accountWide).run push =
      match (queueVaultData P tenant own).run push with
      | .error e failed => .error e failed
      | .ok vaultData mid =>
        (sendAndReport T tenant (vaultData ++ (accountPart tenant mid accountWide).1)).run
          (accountPart tenant mid accountWide).2 := by
  unfold runPush
  rw [EStateM.run_bind]
  cases (queueVaultData P tenant own).run push with
  | error => rfl
  | ok vaultData mid =>
    cases accountWide with
    | true => rfl
    | false =>
      change _ = (sendAndReport T tenant (vaultData ++ [])).run mid
      rw [append_nil]

theorem finalState_sendAndReport (T : SyncTransport τ) (tenant : Bytes) (queue : List Queued)
    (push : Push τ) :
    finalState ((sendAndReport T tenant queue).run push) = finalState (send T tenant queue push) := by
  change finalState (match send T tenant queue push with
    | .error e failed => .error e failed
    | .ok pushed final => .ok _ final) = _
  cases send T tenant queue push <;> rfl

variable {accountWide : Bool}

theorem accountPart_pending (member : outgoing ∈ (accountPart tenant push accountWide).1.filterMap
      (Queued.load push.storage)) : outgoing.object.Pending push.storage tenant := by
  obtain ⟨_, listed, loaded⟩ := mem_filterMap.mp member
  cases accountWide with
  | false => cases listed
  | true =>
    simp only [accountPart, accountQueue, mem_append, mem_map] at listed
    rcases listed with ⟨st, inside, rfl⟩ | ⟨entry, inside, rfl⟩
    · cases loaded
      exact ⟨st, inside, rfl⟩
    · cases loaded
      exact ⟨entry, inside, rfl⟩

theorem accountPart_pushes : Pushes T allowed push (accountPart tenant push accountWide).2 := by
  cases accountWide with
  | false => exact refl push
  | true => exact ⟨.refl _, [], by simp [accountPart, Push.expect], rfl, by simp⟩

/-- Every object a push hands over was pending when it started, whatever way it ends. -/
theorem runPush_pushes (P : Primitives) (T : SyncTransport τ) (tenant : Bytes)
    (own : Option Bytes) (accountWide : Bool) (push : Push τ) :
    Pushes T (SyncObject.Pending push.storage tenant) push
      (finalState ((runPush P T tenant own accountWide).run push)) := by
  have queued := queueVaultData_queues P tenant own push
  rw [runPush_eq]
  cases ran : (queueVaultData P tenant own).run push with
  | error =>
    rw [ran] at queued
    exact queued.pushes
  | ok _ mid =>
    rw [ran, finalState_ok] at queued
    rw [finalState_sendAndReport]
    have ready : Pushes T (SyncObject.Pending push.storage tenant) push
        (accountPart tenant mid accountWide).2 :=
      IsTrans.trans _ _ _ queued.pushes accountPart_pushes
    refine IsTrans.trans _ _ _ ready (send_pushes ?_)
    have stored : (accountPart tenant mid accountWide).2.storage = mid.storage := by
      cases accountWide <;> rfl
    rw [stored, filterMap_append]
    intro _ member
    rcases mem_append.mp member with vault | account
    · rw [funext (Settles.of_onlyMeta queued.storage).load_eq] at vault
      exact (queueVaultData_pending ran vault).1
    · have pending := accountPart_pending account
      rw [queued.storage] at pending
      exact pending

end Push

end UniSsh
