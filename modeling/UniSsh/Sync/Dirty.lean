import UniSsh.Sync.AntiRollback
import UniSsh.Sync.HonestServer
import Mathlib.Data.Finset.Card

/-!
# Dirty rows

Neither a pull nor a push sets a dirty flag. What a push sends from a flagged row is dirty, and
what was delivered is not dirty any more.
-/

namespace UniSsh

open List Storage

/-! ## Dirty rows -/

/-- The key of a row with a dirty flag. -/
inductive RowKey where
  | vault (vaultId : Bytes)
  | item (vaultId itemId : Bytes)
  | manifest (vaultId : Bytes) (epoch : SqlInt)
  | grant (vaultId memberPubkey : Bytes) (epoch : SqlInt)
  deriving DecidableEq

/-- Keys of dirty rows of a table. -/
def dirtyOf {K V : Type} [Ord K] [Std.TransOrd K] (t : Table K V) (dirty : V → Bool)
    (key : K → RowKey) : List RowKey :=
  (t.toList.filter fun entry => dirty entry.2).map fun entry => key entry.1

variable {k : RowKey}

/-- The dirty rows of a storage. -/
def Storage.dirty (s : Storage) : Finset RowKey :=
  (dirtyOf s.vaults VaultRow.dirty .vault ++
    dirtyOf s.items ItemRow.dirty (fun k => .item k.1 k.2) ++
    dirtyOf s.membershipManifests ManifestRow.dirty (fun k => .manifest k.1 k.2) ++
    dirtyOf s.membershipGrants GrantRow.dirty fun k => .grant k.1 k.2.1 k.2.2).toFinset

/-- Whether the row under a key is dirty. -/
def Storage.IsDirty (s : Storage) : RowKey → Prop
  | .vault v => ∃ row, s.vaults[v]? = some row ∧ row.dirty = true
  | .item v i => ∃ row, s.items[(v, i)]? = some row ∧ row.dirty = true
  | .manifest v e => ∃ row, s.membershipManifests[(v, e)]? = some row ∧ row.dirty = true
  | .grant v m e => ∃ row, s.membershipGrants[(v, m, e)]? = some row ∧ row.dirty = true

theorem Storage.mem_dirty {s : Storage} : k ∈ s.dirty ↔ s.IsDirty k := by
  unfold dirty
  simp only [mem_toFinset, mem_append, dirtyOf, mem_map, mem_filter, Prod.exists,
    mem_toList_iff_getElem?_eq_some, and_assoc]
  cases k <;> simp [Storage.IsDirty]

/-- The row under a key is the same in both storages. -/
def SameRow (s s' : Storage) : RowKey → Prop
  | .vault v => s'.vaults[v]? = s.vaults[v]?
  | .item v i => s'.items[(v, i)]? = s.items[(v, i)]?
  | .manifest v e => s'.membershipManifests[(v, e)]? = s.membershipManifests[(v, e)]?
  | .grant v m e => s'.membershipGrants[(v, m, e)]? = s.membershipGrants[(v, m, e)]?

theorem SameRow.isDirty_iff (same : SameRow s s' k) :
    s'.IsDirty k ↔ s.IsDirty k := by
  cases k <;> simp only [Storage.IsDirty, SameRow] at same ⊢ <;> rw [same]

variable {P : Primitives} {ctx : SyncContext} {s s' : Storage}

/-- No row is dirty that was not dirty before. -/
def NoneDirtied (s s' : Storage) : Prop := ∀ k, s'.IsDirty k → s.IsDirty k

instance : Std.Refl NoneDirtied := ⟨fun _ _ => id⟩
instance : IsTrans Storage NoneDirtied := ⟨fun _ _ _ first second k dirty => first k (second k dirty)⟩

theorem NoneDirtied.subset (none : NoneDirtied s s') : s'.dirty ⊆ s.dirty :=
  fun k dirty => mem_dirty.mpr (none k (mem_dirty.mp dirty))

theorem NoneDirtied.of_tables (vaults : s'.vaults = s.vaults) (items : s'.items = s.items)
    (manifests : s'.membershipManifests = s.membershipManifests)
    (grants : s'.membershipGrants = s.membershipGrants) : NoneDirtied s s' := by
  intro k
  cases k <;> simp only [Storage.IsDirty, vaults, items, manifests, grants] <;> exact id

/-- A row that is dirty after a write that keeps the flag was dirty before. -/
theorem dirty_of_insert {K V : Type} [Ord K] [Std.TransOrd K] [Std.LawfulEqOrd K]
    [DecidableEq K] {t : Table K V} {dirty : V → Bool} {k a : K} {row : V}
    (keeps : dirty row = true → ∃ old, t[k]? = some old ∧ dirty old = true)
    (found : ∃ row', (t.insert k row)[a]? = some row' ∧ dirty row' = true) :
    ∃ old, t[a]? = some old ∧ dirty old = true := by
  obtain ⟨row', stored, isDirty⟩ := found
  obtain ⟨rfl, rfl⟩ | ⟨-, stored⟩ := Table.of_insert stored
  · exact keeps isDirty
  · exact ⟨row', stored, isDirty⟩

/-- A flag taken over from the row in conflict, if there is one. -/
theorem dirty_of_getD {V : Type} {old : Option V} {dirty : V → Bool}
    (isDirty : (old.map dirty).getD false = true) : ∃ row, old = some row ∧ dirty row = true := by
  cases old with
  | none => cases isDirty
  | some row => exact ⟨row, rfl, isDirty⟩

theorem adoptPulledBinding_noneDirtied (s : Storage) (vaultId tenant : Bytes) :
    NoneDirtied s (s.adoptPulledBinding vaultId tenant) := by
  intro k dirty
  cases k with
  | vault =>
    obtain ⟨_, found, isDirty⟩ := dirty
    rw [adoptPulledBinding_vaults] at found
    obtain ⟨old, stored, rfl⟩ := map_eq_some_iff.mp found
    refine ⟨old, stored, ?_⟩
    split at isDirty
    · exact isDirty
    · exact isDirty
  | _ => exact dirty

variable {obj : SyncObject}

/-- Processing an object dirties no row. -/
theorem Handled.noneDirtied (handled : Handled P ctx s obj result s') : NoneDirtied s s' := by
  have same : NoneDirtied s s := Std.Refl.refl s
  cases handled with
  | kept => exact same
  | relabelled v => exact adoptPulledBinding_noneDirtied s v.vaultId ctx.tenant
  | vault v _ _ put =>
    obtain ⟨_, _, _, _, _, rfl⟩ := putVault_eq_ok.mp put
    refine IsTrans.trans _ _ _ (adoptPulledBinding_noneDirtied s v.vaultId ctx.tenant) ?_
    intro k dirty
    cases k with
    | vault => exact dirty_of_insert dirty_of_getD dirty
    | _ => exact dirty
  | item _ _ _ put =>
    obtain ⟨_, _, _, _, _, rfl⟩ := putItem_eq_ok.mp put
    intro k dirty
    cases k with
    | item => exact dirty_of_insert dirty_of_getD dirty
    | _ => exact dirty
  | manifest _ _ _ _ _ _ stored _ raised =>
    obtain ⟨_, _, rfl⟩ := putMembershipManifest_eq_ok.mp stored
    obtain ⟨_, _, rfl⟩ := setVaultEpochFloor_eq_ok.mp raised
    intro k dirty
    cases k with
    | manifest => exact dirty_of_insert dirty_of_getD dirty
    | _ => exact dirty
  | floorArmed _ _ _ _ _ _ _ _ raised =>
    obtain ⟨_, _, rfl⟩ := setVaultEpochFloor_eq_ok.mp raised
    exact .of_tables rfl rfl rfl rfl
  | grant _ _ _ _ _ _ put =>
    obtain ⟨_, _, rfl⟩ := putMembershipGrant_eq_ok.mp put
    intro k dirty
    cases k with
    | grant => exact dirty_of_insert dirty_of_getD dirty
    | _ => exact dirty
  | audit => exact .of_tables rfl rfl rfl rfl
  | accountState _ _ _ _ _ set =>
    obtain ⟨_, _, rfl⟩ := setAccountState_eq_ok.mp set
    exact .of_tables rfl rfl rfl rfl

theorem setSyncCursor_noneDirtied (wrote : s.setSyncCursor key v = .ok s') : NoneDirtied s s' := by
  obtain ⟨_, _, rfl⟩ := setSyncCursor_eq_ok.mp wrote
  exact .of_tables rfl rfl rfl rfl

/-- A pull dirties no row. -/
theorem PullTrace.noneDirtied (trace : PullTrace P ctx s events s') :
    NoneDirtied s s' :=
  trace.related Handled.noneDirtied fun _ wrote => setSyncCursor_noneDirtied wrote

/-! ## Dirty rows and pushes -/

theorem dirty_of_pointwise {K V : Type} [Ord K] [Std.TransOrd K] {t t' : Table K V}
    {clear : V → V} {dirty : V → Bool} (clears : ∀ row, dirty (clear row) = false)
    (related : Table.Pointwise (Cleared clear) t t') {k : K}
    (found : ∃ row, t'[k]? = some row ∧ dirty row = true) :
    ∃ row, t[k]? = some row ∧ dirty row = true := by
  obtain ⟨row, stored, isDirty⟩ := found
  by_contra none
  have clean : ∀ row, t[k]? = some row → dirty row = false := by
    intro old before
    exact Bool.eq_false_iff.mpr fun wasDirty => none ⟨old, before, wasDirty⟩
  have stillClean := clean_of_pointwise clears related clean row stored
  rw [isDirty] at stillClean
  cases stillClean

theorem Settles.noneDirtied (settles : Settles s s') : NoneDirtied s s' := by
  intro k dirty
  cases k with
  | vault => exact dirty_of_pointwise (fun _ => rfl) settles.vaults dirty
  | item => exact dirty_of_pointwise (fun _ => rfl) settles.items dirty
  | manifest => exact dirty_of_pointwise (fun _ => rfl) settles.manifests dirty
  | grant => exact dirty_of_pointwise (fun _ => rfl) settles.grants dirty

/-- Whether an object is the content of the row under a key. -/
def SyncObject.RowOf : SyncObject → RowKey → Prop
  | .vault r, .vault v => r.vaultId = v
  | .item r, .item v i => r.vaultId = v ∧ r.itemId = i
  | .membershipManifest m, .manifest v e => m.vaultId = v ∧ e.toU64 = m.keyEpoch
  | .membershipGrant g, .grant v m e => g.vaultId = v ∧ g.memberPubkey = m ∧ e.toU64 = g.keyEpoch
  | _, _ => False

variable {tenant : Bytes}

/-- What a push sends from a row with a flag comes from a dirty row. -/
theorem SyncObject.Pending.isDirty (pending : obj.Pending s tenant) (row : obj.RowOf k) :
    s.IsDirty k := by
  cases obj with
  | vault =>
    cases k with
    | vault =>
      obtain ⟨⟨key, stored⟩, filtered, rfl⟩ := mem_map.mp pending
      obtain ⟨listed, chosen⟩ := mem_filter.mp filtered
      cases row
      exact ⟨stored, mem_toList_iff_getElem?_eq_some.mp listed, (of_decide_eq_true chosen).1⟩
    | _ => exact row.elim
  | item =>
    cases k with
    | item =>
      obtain ⟨rfl, rfl⟩ := row
      obtain ⟨stored, found, isDirty, -, -⟩ := pending
      exact ⟨stored, found, isDirty⟩
    | _ => exact row.elim
  | membershipManifest =>
    cases k with
    | manifest _ e =>
      obtain ⟨⟨key, stored⟩, filtered, rfl⟩ := mem_map.mp pending
      obtain ⟨listed, chosen⟩ := mem_filter.mp filtered
      obtain ⟨rfl, epoch⟩ := row
      obtain rfl : e = key.2 := SqlInt.ext epoch
      exact ⟨stored, mem_toList_iff_getElem?_eq_some.mp listed, (of_decide_eq_true chosen).2⟩
    | _ => exact row.elim
  | membershipGrant =>
    cases k with
    | grant _ _ e =>
      obtain ⟨⟨key, stored⟩, filtered, rfl⟩ := mem_map.mp pending
      obtain ⟨listed, chosen⟩ := mem_filter.mp filtered
      obtain ⟨rfl, rfl, epoch⟩ := row
      obtain rfl : e = key.2.2 := SqlInt.ext epoch
      exact ⟨stored, mem_toList_iff_getElem?_eq_some.mp listed, (of_decide_eq_true chosen).2⟩
    | _ => exact row.elim
  | _ => exact row.elim

/-- Vault data is the content of rows. -/
theorem queueVaultData_row {τ : Type} {own : Option Bytes} {queue : List Queued}
    {push push' : Push τ} (ran : (queueVaultData P tenant own).run push = .ok queue push')
    {outgoing : Outgoing} (member : outgoing ∈ queue.filterMap (Queued.load push.storage)) :
    ∃ k, outgoing.object.RowOf k := by
  obtain ⟨_, rfl, listed⟩ := queueVaultData_ok ran
  obtain ⟨_, inside, loaded⟩ := mem_filterMap.mp member
  rcases mem_append.mp inside with before | item
  · simp only [beforeItems, mem_append, mem_map] at before
    rcases before with (⟨m, stored, rfl⟩ | ⟨v, -, rfl⟩) | ⟨g, stored, rfl⟩
    · cases loaded
      obtain ⟨⟨key, row⟩, -, rfl⟩ := mem_map.mp stored
      exact ⟨.manifest key.1 key.2, rfl, rfl⟩
    · cases loaded
      exact ⟨.vault v.vaultId, rfl⟩
    · cases loaded
      obtain ⟨⟨key, _⟩, -, rfl⟩ := mem_map.mp stored
      exact ⟨.grant key.1 key.2.1 key.2.2, rfl, rfl, rfl⟩
  · obtain ⟨_, -, rfl⟩ := mem_map.mp (listed item)
    obtain ⟨record, -, rfl⟩ := map_eq_some_iff.mp loaded
    exact ⟨.item record.vaultId record.itemId, rfl, rfl⟩

/-- A settled object's row is not dirty. -/
theorem SyncObject.Settled.not_isDirty (settled : obj.Settled s) (row : obj.RowOf k) :
    ¬ s.IsDirty k := by
  intro dirty
  have isFalse : ∃ flag, flag = true ∧ flag = false := by
    cases obj with
    | vault =>
      cases k with
      | vault =>
        obtain ⟨stored, found, isDirty⟩ := dirty
        cases row
        exact ⟨_, isDirty, settled stored found⟩
      | _ => exact row.elim
    | item =>
      cases k with
      | item =>
        obtain ⟨stored, found, isDirty⟩ := dirty
        obtain ⟨rfl, rfl⟩ := row
        exact ⟨_, isDirty, settled stored found⟩
      | _ => exact row.elim
    | membershipManifest =>
      cases k with
      | manifest _ e =>
        obtain ⟨stored, found, isDirty⟩ := dirty
        obtain ⟨rfl, epoch⟩ := row
        exact ⟨_, isDirty, settled e stored epoch found⟩
      | _ => exact row.elim
    | membershipGrant =>
      cases k with
      | grant _ _ e =>
        obtain ⟨stored, found, isDirty⟩ := dirty
        obtain ⟨rfl, rfl, epoch⟩ := row
        exact ⟨_, isDirty, settled e stored epoch found⟩
      | _ => exact row.elim
    | _ => exact row.elim
  obtain ⟨_, isTrue, isFalse⟩ := isFalse
  rw [isTrue] at isFalse
  cases isFalse

/-- The objects a push hands to the transport. -/
def handedBy {τ : Type} (P : Primitives) (T : SyncTransport τ) (tenant : Bytes)
    (own : Option Bytes) (accountWide : Bool) (s : Storage) (t : τ) : List SyncObject :=
  (finalState ((runPush P T tenant own accountWide).run
    { storage := s, transport := t })).handed.flatten

theorem handedBy_pending {τ : Type} {T : SyncTransport τ} {own : Option Bytes} {accountWide : Bool}
    {t : τ} (handed : obj ∈ handedBy P T tenant own accountWide s t) : obj.Pending s tenant := by
  obtain ⟨_, same, -, all⟩ :=
    (runPush_pushes P T tenant own accountWide { storage := s, transport := t }).hands
  unfold handedBy at handed
  rw [same, nil_append] at handed
  obtain ⟨request, listed, inside⟩ := mem_flatten.mp handed
  exact all request listed obj inside

end UniSsh
