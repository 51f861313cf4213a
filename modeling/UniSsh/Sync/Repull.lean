import UniSsh.Sync.Exchange
import UniSsh.Sync.Revocation
import UniSsh.Sync.StaleHistory
import UniSsh.Vault.Advances

/-!
# Processing an applied object again

An applied object is absorbed: the storage holds it or something newer (`SyncObject.Absorbed`).
Processing it again writes nothing, but for grants and audit entries.
-/

namespace UniSsh

open Table

open Storage

/-- The storage holds the object or something newer, and its vault is bound. -/
def SyncObject.Absorbed (tenant : Bytes) (s : Storage) : SyncObject → Prop
  | .vault v => ∃ row, s.vaults[v.vaultId]? = some row ∧ v.version ≤ row.version.toU64 ∧
      (tenant ≠ [] → row.syncTenant ≠ [])
  | .item i => ∃ row, s.items[(i.vaultId, i.itemId)]? = some row ∧ i.version ≤ row.version.toU64
  | .membershipManifest m => m.keyEpoch ≤ epochFloor s m.vaultId ∧
      ∃ (epoch : SqlInt) (row : ManifestRow), epoch.toU64 = m.keyEpoch ∧
        s.membershipManifests[(m.vaultId, epoch)]? = some row
  | .accountState a => ∃ row, s.accountState[a.authorPubkey]? = some row ∧
      (a.version < row.version.toU64 ∨
        a.version = row.version.toU64 ∧ a.signature ≤ row.signature)
  | .membershipGrant _ | .audit _ | .keyset _ => True

/-- The stored grant of the key is this grant. -/
def Storage.HoldsGrant (s : Storage) (g : MembershipGrant) : Prop :=
  ∃ (epoch : SqlInt) (row : GrantRow), epoch.toU64 = g.keyEpoch ∧
    s.membershipGrants[(g.vaultId, g.memberPubkey, epoch)]? = some row ∧
    mapGrantRow (g.vaultId, g.memberPubkey, epoch) row = g

/-- A grant must be the stored one; an audit entry is always appended again. -/
def SyncObject.Rewritable (s : Storage) : SyncObject → Prop
  | .membershipGrant g => s.HoldsGrant g
  | .audit _ => False
  | _ => True

variable {P : Primitives} {ctx : SyncContext} {s s' : Storage}

/-! ## An applied object is absorbed -/

variable {obj : SyncObject} {tenant : Bytes}

theorem Handled.absorbed (applied : Handled P ctx s obj (.ok .applied) s') :
    obj.Absorbed ctx.tenant s' := by
  cases applied with
  | kept _ _ notApplied => exact (notApplied rfl).elim
  | relabelled _ _ _ notApplied => exact (notApplied rfl).elim
  | vault _ _ _ put =>
    obtain ⟨version, keyEpoch, same, -, -, rfl⟩ := putVault_eq_ok.mp put
    refine ⟨_, getElem?_insert_self, ?_, ?_⟩
    · exact UInt64.le_of_eq same.symm
    · intro named
      unfold Storage.upsertVaultRow
      split
      · rwa [if_neg named]
      · exact named
  | item _ _ _ put =>
    obtain ⟨_, _, same, -, -, rfl⟩ := putItem_eq_ok.mp put
    refine ⟨_, getElem?_insert_self, ?_⟩
    exact UInt64.le_of_eq same.symm
  | manifest _ _ _ _ _ _ stored _ raised =>
    obtain ⟨epoch, same, rfl⟩ := putMembershipManifest_eq_ok.mp stored
    obtain ⟨n, floor, rfl⟩ := setVaultEpochFloor_eq_ok.mp raised
    refine ⟨UInt64.le_of_eq ?_, epoch, _, same, getElem?_insert_self⟩
    simp [epochFloor, Storage.getVaultEpochFloor, floor]
  | grant | audit => exact trivial
  | accountState _ _ _ _ _ set =>
    obtain ⟨n, same, rfl⟩ := setAccountState_eq_ok.mp set
    refine ⟨_, getElem?_insert_self, ?_⟩
    right
    exact ⟨same.symm, List.le_refl _⟩

/-! ## What keeps it absorbed -/

theorem epochFloor_le_of_forward (forward : Forward s s') (vaultId : Bytes) :
    epochFloor s vaultId ≤ epochFloor s' vaultId := by
  unfold epochFloor Storage.getVaultEpochFloor
  cases found : s.vaultEpochFloor[vaultId]? with
  | none => exact UInt64.zero_le
  | some n =>
    obtain ⟨_, found', above⟩ := forward.floors vaultId n found
    rw [found']
    exact above

theorem SyncObject.Absorbed.forward (absorbed : obj.Absorbed tenant s) (forward : Forward s s') :
    obj.Absorbed tenant s' := by
  cases obj with
  | vault =>
    obtain ⟨row, found, version, bound⟩ := absorbed
    obtain ⟨row', found', above, kept⟩ := forward.vaults _ row found
    exact ⟨row', found', UInt64.le_trans version above, kept ∘ bound⟩
  | item =>
    obtain ⟨row, found, version⟩ := absorbed
    obtain ⟨row', found', above⟩ := forward.items _ row found
    exact ⟨row', found', UInt64.le_trans version above⟩
  | membershipManifest =>
    obtain ⟨floor, epoch, row, same, found⟩ := absorbed
    obtain ⟨row', found', -⟩ := forward.manifests _ row found
    exact ⟨UInt64.le_trans floor (epochFloor_le_of_forward forward _), epoch, row', same, found'⟩
  | accountState =>
    obtain ⟨row, found, version⟩ := absorbed
    obtain ⟨row', found', above⟩ := forward.accountStates _ row found
    refine ⟨row', found', ?_⟩
    rcases version with newer | ⟨same, signature⟩
    · rcases above with newer' | ⟨same', -⟩
      · exact .inl (UInt64.lt_trans newer newer')
      · exact .inl (same' ▸ newer)
    · rcases above with newer' | ⟨same', signature'⟩
      · exact .inl (same ▸ newer')
      · exact .inr ⟨same.trans same', List.le_trans signature signature'⟩
  | membershipGrant | audit | keyset => exact trivial

variable {result : Except SyncError Outcome}

/-- Processing any object moves the storage forward. -/
theorem Handled.forward (handled : Handled P ctx s obj result s') : Forward s s' := by
  cases handled with
  | kept => exact Std.Refl.refl s
  | relabelled v => exact (adoptPulledBinding_advances s v.vaultId ctx.tenant).forward
  | vault v _ _ put =>
    have labelled := adoptPulledBinding_advances s v.vaultId ctx.tenant
    exact Advances.forward (IsTrans.trans _ _ _ labelled (putVault_advances put))
  | item _ _ _ put => exact (putItem_advances put).forward
  | manifest m _ _ _ aboveFloor _ stored _ raised =>
    have written := (putMembershipManifest_advances stored).floorSet m.vaultId m.keyEpoch
    refine Ahead.forward_of_le ?_ aboveFloor
    exact IsTrans.trans _ _ _ written (setVaultEpochFloor_floorSet raised)
  | floorArmed _ _ _ _ above _ _ _ raised =>
    exact (setVaultEpochFloor_floorSet raised).forward_of_le (UInt64.le_of_lt above)
  | grant _ _ _ _ _ _ put =>
    exact (putMembershipGrant_advances put).forward
  | audit =>
    apply Advances.forward
    exact .of_tables rfl rfl rfl rfl rfl
  | accountState a _ _ _ newer set =>
    refine (setAccountState_advances ?_ set).forward
    intro stored found
    have notOlder := newer stored found
    simp only [not_or, not_and, UInt64.not_lt, List.not_le] at notOlder
    obtain ⟨le, tie⟩ := notOlder
    by_cases equal : stored.version = a.version
    · exact .inr ⟨equal, List.le_of_lt (tie equal.symm)⟩
    · exact .inl (UInt64.lt_of_le_of_ne le equal)

theorem PullTrace.forward {events : List PullEvent} (trace : PullTrace P ctx s events s') :
    Forward s s' :=
  trace.related Handled.forward fun _ wrote => (setSyncCursor_advances wrote).forward

/-- A push only clears flags. -/
theorem Settles.forward (settles : Settles s s') : Forward s s' := by
  apply Advances.forward
  refine ⟨?_, ?_, ?_, ?_, settles.floors.symm⟩
  · apply settles.vaults.grows
    rintro row _ (rfl | rfl)
    · exact Std.Refl.refl _
    · exact ⟨UInt64.le_refl _, id⟩
  · apply settles.items.grows
    rintro _ _ (rfl | rfl)
    · exact Std.Refl.refl _
    · exact UInt64.le_refl _
  · exact settles.manifests.grows fun _ _ _ => trivial
  · rw [settles.accountStates]
    exact .refl _

/-! ### Operations that take rows or bindings back -/

/-- The operation does not take the object's own row or its vault's binding back. -/
def LocalOperation.Spares (obj : SyncObject) (s : Storage) : LocalOperation → Prop
  | .bindVault vaultId tenant => tenant ≠ [] ∨ ∀ v, obj = .vault v → v.vaultId ≠ vaultId
  | .unbindVault vaultId => ∀ v, obj = .vault v → v.vaultId ≠ vaultId
  | .clearBinding tenant => ∀ v, obj = .vault v → ∀ row, s.vaults[v.vaultId]? = some row →
      row.syncTenant ≠ tenant
  | .purge vaultId _ => obj.vaultId ≠ some vaultId
  | .discardUnpushedItem vaultId itemId _ _ => ∀ i, obj = .item i →
      (i.vaultId, i.itemId) ≠ (vaultId, itemId)
  | _ => True

/-- An object is still absorbed where its own rows are unchanged. -/
theorem SyncObject.Absorbed.congr (absorbed : obj.Absorbed tenant s)
    (vaults : ∀ v, obj = .vault v → s'.vaults[v.vaultId]? = s.vaults[v.vaultId]?)
    (items : ∀ i, obj = .item i →
      s'.items[(i.vaultId, i.itemId)]? = s.items[(i.vaultId, i.itemId)]?)
    (manifests : ∀ m, obj = .membershipManifest m →
      s'.vaultEpochFloor[m.vaultId]? = s.vaultEpochFloor[m.vaultId]? ∧
      ∀ epoch : SqlInt, s'.membershipManifests[(m.vaultId, epoch)]? =
        s.membershipManifests[(m.vaultId, epoch)]?)
    (accountStates : s'.accountState = s.accountState) : obj.Absorbed tenant s' := by
  cases obj with
  | vault v =>
    obtain ⟨row, found, rest⟩ := absorbed
    exact ⟨row, (vaults v rfl).trans found, rest⟩
  | item i =>
    obtain ⟨row, found, rest⟩ := absorbed
    exact ⟨row, (items i rfl).trans found, rest⟩
  | membershipManifest m =>
    obtain ⟨floor, epoch, row, same, found⟩ := absorbed
    obtain ⟨sameFloor, sameRow⟩ := manifests m rfl
    refine ⟨?_, epoch, row, same, (sameRow epoch).trans found⟩
    unfold epochFloor Storage.getVaultEpochFloor at floor ⊢
    rwa [sameFloor]
  | accountState =>
    obtain ⟨row, found, rest⟩ := absorbed
    exact ⟨row, accountStates ▸ found, rest⟩
  | membershipGrant | audit | keyset => exact trivial

theorem LocalOperation.Spares.absorbed {op : LocalOperation} (spares : op.Spares obj s)
    (absorbed : obj.Absorbed tenant s) : obj.Absorbed tenant (op.run P s) := by
  cases op with
  | bindVault vaultId label =>
    rcases spares with named | other
    · exact absorbed.forward (setVaultTenant_advances named).forward
    · refine SyncObject.Absorbed.forward ?_ (setVaultTenant_bound s vaultId label).forward
      refine absorbed.congr ?_ (fun _ _ => rfl) (fun _ _ => ⟨rfl, fun _ => rfl⟩) rfl
      intro v isVault
      simp [other v isVault]
  | unbindVault =>
    refine absorbed.congr ?_ (fun _ _ => rfl) (fun _ _ => ⟨rfl, fun _ => rfl⟩) rfl
    intro v isVault
    have other := spares v isVault
    simp [run, Storage.unbindVault, other]
  | clearBinding =>
    refine absorbed.congr ?_ (fun _ _ => rfl) (fun _ _ => ⟨rfl, fun _ => rfl⟩) rfl
    intro v isVault
    have other := spares v isVault
    simp only [run, Storage.clearBindingForTenant, getElem?_updateWhere]
    cases found : s.vaults[v.vaultId]? with
    | none => rfl
    | some row => simp [other row found]
  | purge vaultId =>
    refine absorbed.congr ?_ ?_ ?_ rfl
    · rintro v rfl
      have other : v.vaultId ≠ vaultId := fun same => spares (congrArg some same)
      exact getElem?_erase_of_ne _ other
    · rintro i rfl
      have other : i.vaultId ≠ vaultId := fun same => spares (congrArg some same)
      exact getElem?_filter_of_kept _ fun _ => decide_eq_true other
    · rintro m rfl
      have other : m.vaultId ≠ vaultId := fun same => spares (congrArg some same)
      exact ⟨getElem?_erase_of_ne _ other, fun _ =>
        getElem?_filter_of_kept _ fun _ => decide_eq_true other⟩
  | discardUnpushedItem vaultId itemId version authorPubkey =>
    change obj.Absorbed tenant
      (orUnchanged s (s.discardUnpushedItem vaultId itemId version authorPubkey))
    cases discarded : s.discardUnpushedItem vaultId itemId version authorPubkey with
    | error => exact absorbed
    | ok =>
      obtain ⟨n, -, rfl⟩ := checkedWrite_eq_ok.mp discarded
      refine absorbed.congr (fun _ _ => rfl) ?_ (fun _ _ => ⟨rfl, fun _ => rfl⟩) rfl
      intro i isItem
      have other := spares i isItem
      exact getElem?_filter_of_kept _ fun _ => decide_eq_true fun chosen => other chosen.1
  | _ => exact absorbed.forward (run_forward P s spares)

/-! ## Later states -/

/-- A part of a pull, a push, however it ends, or a local operation that spares the object. -/
inductive LaterStep (P : Primitives) (obj : SyncObject) : Storage → Storage → Prop where
  | pull {ctx : SyncContext} {events : List PullEvent} {s s' : Storage}
      (trace : PullTrace P ctx s events s') : LaterStep P obj s s'
  | push {τ : Type} (T : SyncTransport τ) (tenant : Bytes) (own : Option Bytes)
      (accountWide : Bool) (push : Push τ) :
      LaterStep P obj push.storage
        (finalState ((runPush P T tenant own accountWide).run push)).storage
  | operate {s : Storage} (op : LocalOperation) (spares : op.Spares obj s) :
      LaterStep P obj s (op.run P s)

theorem LaterStep.absorbed (step : LaterStep P obj s s') (absorbed : obj.Absorbed tenant s) :
    obj.Absorbed tenant s' := by
  cases step with
  | pull trace => exact absorbed.forward trace.forward
  | push T pushTenant own accountWide push =>
    exact absorbed.forward (runPush_pushes P T pushTenant own accountWide push).settles.forward
  | operate _ spares => exact spares.absorbed absorbed

theorem absorbed_of_later (later : Relation.ReflTransGen (LaterStep P obj) s s')
    (absorbed : obj.Absorbed tenant s) : obj.Absorbed tenant s' := by
  induction later with
  | refl => exact absorbed
  | tail _ step ih => exact step.absorbed ih

/-! ## Processing an absorbed object -/

theorem putMembershipGrant_held (held : s.HoldsGrant g) (put : s.putMembershipGrant g = .ok s') :
    s' = s := by
  obtain ⟨epoch, row, same, found, isGrant⟩ := held
  obtain ⟨epoch', same', rfl⟩ := putMembershipGrant_eq_ok.mp put
  obtain rfl : epoch' = epoch := SqlInt.ext (same'.trans same.symm)
  have rewritten : Storage.grantRow g s.membershipGrants[(g.vaultId, g.memberPubkey, epoch')]? =
      row := by
    rw [found, ← isGrant]
    rfl
  rw [rewritten, insert_getElem? _ found]

theorem adoptPulledBinding_absorbed (absorbed : (SyncObject.vault v).Absorbed tenant s)
    (tenants : tenant = [] → label = []) :
    s.adoptPulledBinding v.vaultId label = s := by
  obtain ⟨_, found, -, bound⟩ := absorbed
  apply adoptPulledBinding_eq_self
  intro _ found' unbound
  cases found.symm.trans found'
  by_contra named
  exact bound (fun empty => named (tenants empty)) unbound

/-- Nothing is written for an object the storage has absorbed. -/
theorem Handled.eq_of_absorbed (absorbed : obj.Absorbed tenant s)
    (tenants : tenant = [] → ctx.tenant = []) (rewritable : obj.Rewritable s)
    (handled : Handled P ctx s obj result s') : s' = s := by
  cases handled with
  | kept => rfl
  | relabelled => exact adoptPulledBinding_absorbed absorbed tenants
  | vault _ _ _ put =>
    rw [adoptPulledBinding_absorbed absorbed tenants] at put
    obtain ⟨row, found, version, -⟩ := absorbed
    obtain ⟨_, _, _, _, newer, rfl⟩ := putVault_eq_ok.mp put
    exact (UInt64.not_lt.mpr version (newer row found)).elim
  | item _ _ _ put =>
    obtain ⟨row, found, version⟩ := absorbed
    obtain ⟨_, _, _, _, newer, rfl⟩ := putItem_eq_ok.mp put
    exact (UInt64.not_lt.mpr version (newer row found)).elim
  | manifest _ _ _ _ _ absent =>
    obtain ⟨-, epoch, row, same, found⟩ := absorbed
    obtain ⟨epoch', same', missing⟩ := getMembershipManifest_eq_ok.mp absent
    obtain rfl : epoch' = epoch := SqlInt.ext (same'.trans same.symm)
    rw [found] at missing
    cases missing
  | floorArmed _ _ _ _ above =>
    exact (UInt64.not_lt.mpr absorbed.1 above).elim
  | grant _ _ _ _ _ _ put => exact putMembershipGrant_held rewritable put
  | audit => exact rewritable.elim
  | accountState a _ _ _ newer =>
    obtain ⟨row, found, version⟩ := absorbed
    refine (newer (mapAccountStateRow a.authorPubkey row) ?_ version).elim
    simp only [Storage.getAccountState, found, map_some]

/-- An applied object processed again changes nothing, but for audit entries and replaced grants. -/
theorem applied_object_repulled {again : SyncContext} {obj : SyncObject} {mid late : Storage}
    (applied : Processes P ctx s obj (.ok .applied) mid)
    (later : Relation.ReflTransGen (LaterStep P obj) mid late)
    (tenants : ctx.tenant = [] → again.tenant = []) (rewritable : obj.Rewritable late) :
    finalState ((processObject P again obj).run late) = late := by
  have absorbed : obj.Absorbed ctx.tenant late := absorbed_of_later later applied.handled.absorbed
  exact (processObject_handled again late obj).eq_of_absorbed absorbed tenants rewritable

namespace Sample

/-- The storage after processing an object, and the outcome. -/
def processed (s : Storage) (obj : SyncObject) : Storage :=
  finalState ((processObject .transparent context obj).run s)
def outcome (s : Storage) (obj : SyncObject) : Except SyncError Outcome :=
  valueOf ((processObject .transparent context obj).run s)

/-- A device that applied an item, forgot its pull cursor and applied the item's next version. -/
def overtaken : Storage :=
  processed ((LocalOperation.setSyncCursor (pullCursorKey context.tenant) 0).run .transparent
    (processed {} (.item liveItem))) (.item newerItem)

/-- The owner's grant of the first epoch, around a given key. -/
def grant (wrappedVk : Bytes) : MembershipGrant where
  vaultId := vaultId
  memberPubkey := ownerKey
  keyEpoch := 1
  role := .admin
  notAfter := 0
  wrappedVk := wrappedVk
  signature := signature owner (grantAad vaultId ownerKey 1) (grantSignedContent .admin 0 wrappedVk)
  authorPubkey := ownerKey

def firstGrant : SyncObject := .membershipGrant (grant [1])
def secondGrant : SyncObject := .membershipGrant (grant [2])

end Sample

open Sample

/-- An item that was overtaken by its next version. -/
theorem applied_object_repulled_overtaken :
    finalState ((processObject .transparent context (.item liveItem)).run
      overtaken) = overtaken := by
  have applied : Processes .transparent context {} (.item liveItem) (.ok .applied)
      (processed {} (.item liveItem)) := ⟨by decide +kernel, rfl⟩
  let reset := LocalOperation.setSyncCursor (pullCursorKey context.tenant) 0
  have pulled : PullTrace .transparent context
      (reset.run .transparent (processed {} (.item liveItem)))
      [.processed (2, .item newerItem) (.ok .applied)] overtaken :=
    .processed _ _ ⟨by decide +kernel, rfl⟩ (.done _)
  exact applied_object_repulled applied (.tail (.single (.operate reset trivial)) (.pull pulled)) id
    trivial

/-- An audit entry is appended once more, and a grant replaces the one that replaced it. -/
theorem applied_objects_written_again :
    let audit : SyncObject := .audit auditEntry
    let once := processed {} audit
    let replaced := processed (processed device firstGrant) secondGrant
    (outcome {} audit = .ok .applied ∧ (processed once audit).auditLog ≠ once.auditLog) ∧
    (outcome device firstGrant = .ok .applied ∧ outcome (processed device firstGrant) secondGrant =
        .ok .applied ∧
      replaced.listMembershipGrants vaultId 1 = .ok [grant [2]] ∧
      (processed replaced firstGrant).listMembershipGrants vaultId 1 = .ok [grant [1]]) := by
  decide +kernel

/-! ## What a device never takes back -/

/-- The action deletes no row and takes no binding away. -/
def DeviceAction.TakesNothingBack : DeviceAction → Prop
  | .operate op _ => op.TakesNothingBack
  | .push .. | .pull _ => True
  | .discard .. => False

theorem DeviceAction.run_forward {action : DeviceAction} (keeps : action.TakesNothingBack) :
    Forward s (action.run P s) := by
  cases action with
  | operate op => exact op.run_forward P s keeps
  | push tenant own accountWide T t =>
    exact (runPush_pushes P T tenant own accountWide
      { storage := s, transport := t }).settles.forward
  | pull call =>
    obtain ⟨_, -, trace⟩ := call.run_trace P s
    exact trace.forward
  | discard => exact keeps.elim

/-- Until rows are deleted or edits discarded, nothing is lost, becomes older or has its floor
lowered. -/
theorem device_never_goes_back {actions : List DeviceAction}
    (keeps : ∀ action ∈ actions, action.TakesNothingBack) :
    Forward s (actions.foldl (DeviceAction.run P) s) := by
  induction actions generalizing s with
  | nil => exact refl_of _ s
  | cons action _ ih =>
    refine trans_of Forward (action.run_forward (keeps action List.mem_cons_self)) (ih ?_)
    exact fun other member => keeps other (List.mem_cons_of_mem _ member)

/-- Two edits and the deletion that another device made. -/
theorem edits_never_go_back :
    Forward {} ((Sample.edits ++ [Sample.pulledDeletion]).foldl (DeviceAction.run .transparent) {}) :=
  device_never_goes_back (by simp [Sample.edits, Sample.pulledDeletion,
    DeviceAction.TakesNothingBack, LocalOperation.TakesNothingBack])

end UniSsh
