import UniSsh.Storage.Forward
import UniSsh.Sync.Trace

/-!
# Anti-rollback over whole runs

`NotRolledBack s s'` is the preorder of everything a pull must never take back. Every step of a
pull respects it, and so does every sequence of calls.
-/

namespace UniSsh

open Storage List

/-! ## Order of rows -/

/-- A newer version, or the same row up to its local binding label. -/
def VaultRow.NotOlder (row row' : VaultRow) : Prop :=
  row.version.toU64 < row'.version.toU64 ∨ row' = { row with syncTenant := row'.syncTenant }

/-- A newer version, or the same row. -/
def ItemRow.NotOlder (row row' : ItemRow) : Prop :=
  row.version.toU64 < row'.version.toU64 ∨ row' = row

/-- The pair of version and signature grows lexicographically, or the row is the same. -/
def AccountStateRow.NotOlder (row row' : AccountStateRow) : Prop :=
  row.version.toU64 < row'.version.toU64 ∨
    (row.version = row'.version ∧ row.signature < row'.signature) ∨ row' = row

instance : Std.Refl VaultRow.NotOlder := ⟨fun _ => .inr rfl⟩
instance : Std.Refl ItemRow.NotOlder := ⟨fun _ => .inr rfl⟩
instance : Std.Refl AccountStateRow.NotOlder := ⟨fun _ => .inr (.inr rfl)⟩

instance : IsTrans VaultRow VaultRow.NotOlder where
  trans a b c first second := by
    rcases first with newer | same
    · rcases second with newer' | same'
      · exact .inl (UInt64.lt_trans newer newer')
      · rw [same']
        exact .inl newer
    · rcases second with newer' | same'
      · rw [same] at newer'
        exact .inl newer'
      · right
        rw [same', same]

instance : IsTrans ItemRow ItemRow.NotOlder where
  trans a b c first second := by
    rcases first with newer | rfl
    · rcases second with newer' | rfl
      · exact .inl (UInt64.lt_trans newer newer')
      · exact .inl newer
    · exact second

instance : IsTrans AccountStateRow AccountStateRow.NotOlder where
  trans a b c first second := by
    rcases first with newer | ⟨version, larger⟩ | rfl
    · rcases second with newer' | ⟨version', -⟩ | rfl
      · exact .inl (UInt64.lt_trans newer newer')
      · exact .inl (version' ▸ newer)
      · exact .inl newer
    · rcases second with newer' | ⟨version', larger'⟩ | rfl
      · exact .inl (version ▸ newer')
      · exact .inr (.inl ⟨version.trans version', List.lt_trans larger larger'⟩)
      · exact .inr (.inl ⟨version, larger⟩)
    · exact second

/-! ## The preorder -/

/-- Nothing of `s` that is protected from rollback is older or missing in `s'`. -/
structure NotRolledBack (s s' : Storage) : Prop where
  vaults : Table.Grows VaultRow.NotOlder s.vaults s'.vaults
  items : Table.Grows ItemRow.NotOlder s.items s'.items
  floors : Table.Grows SqlInt.NotBelow s.vaultEpochFloor s'.vaultEpochFloor
  cursors : Table.Grows SqlInt.NotBelow s.syncState s'.syncState
  accountStates : Table.Grows AccountStateRow.NotOlder s.accountState s'.accountState
  manifests : Table.Grows Eq s.membershipManifests s'.membershipManifests
  anchors : s'.vaultTrustAnchor = s.vaultTrustAnchor
  metadata : s'.metaTable = s.metaTable

namespace NotRolledBack

instance : Std.Refl (@Eq ManifestRow) := ⟨fun _ => rfl⟩
instance : IsTrans ManifestRow Eq := ⟨fun _ _ _ => Eq.trans⟩

theorem refl (s : Storage) : NotRolledBack s s :=
  ⟨.refl _, .refl _, .refl _, .refl _, .refl _, .refl _, rfl, rfl⟩

theorem trans (first : NotRolledBack s mid) (second : NotRolledBack mid s') :
    NotRolledBack s s' where
  vaults := first.vaults.trans second.vaults
  items := first.items.trans second.items
  floors := first.floors.trans second.floors
  cursors := first.cursors.trans second.cursors
  accountStates := first.accountStates.trans second.accountStates
  manifests := first.manifests.trans second.manifests
  anchors := second.anchors.trans first.anchors
  metadata := second.metadata.trans first.metadata

instance : Std.Refl NotRolledBack := ⟨refl⟩
instance : IsTrans Storage NotRolledBack := ⟨fun _ _ _ => trans⟩

end NotRolledBack

variable {P : Primitives} {ctx : SyncContext} {s s' : Storage}

theorem floors_grow (le : epochFloor s vaultId ≤ n.toU64) :
    Table.Grows SqlInt.NotBelow s.vaultEpochFloor (s.vaultEpochFloor.insert vaultId n) := by
  apply Table.Grows.insert
  intro old found
  have read : epochFloor s vaultId = old.toU64 := by
    simp [epochFloor, Storage.getVaultEpochFloor, found]
  rw [read] at le
  exact le

theorem adoptPulledBinding_grows (s : Storage) (vaultId tenant : Bytes) :
    Table.Grows VaultRow.NotOlder s.vaults (s.adoptPulledBinding vaultId tenant).vaults :=
  Table.Grows.updateWhere (fun _ _ _ => .inr rfl) s.vaults

/-- Processing an object rolls nothing back. -/
theorem Handled.notRolledBack (handled : Handled P ctx s obj result s') : NotRolledBack s s' := by
  have same := NotRolledBack.refl s
  cases handled with
  | kept => exact same
  | relabelled v =>
    exact { same with vaults := adoptPulledBinding_grows s v.vaultId ctx.tenant }
  | vault v _ _ put =>
    obtain ⟨version, keyEpoch, sameVersion, _, newer, rfl⟩ := putVault_eq_ok.mp put
    have relabelled := adoptPulledBinding_grows s v.vaultId ctx.tenant
    refine { same with vaults := relabelled.trans (Table.Grows.insert ?_) }
    intro old found
    left
    exact lt_of_lt_of_eq (newer old found) sameVersion.symm
  | item _ _ _ put =>
    obtain ⟨_, _, sameVersion, _, newer, rfl⟩ := putItem_eq_ok.mp put
    refine { same with items := Table.Grows.insert ?_ }
    intro old found
    left
    exact lt_of_lt_of_eq (newer old found) sameVersion.symm
  | manifest _ _ _ _ aboveFloor absent stored _ raised =>
    obtain ⟨epoch, sameEpoch, rfl⟩ := putMembershipManifest_eq_ok.mp stored
    obtain ⟨n, sameFloor, rfl⟩ := setVaultEpochFloor_eq_ok.mp raised
    obtain ⟨epoch', sameEpoch', missing⟩ := getMembershipManifest_eq_ok.mp absent
    obtain rfl : epoch = epoch' := SqlInt.ext (sameEpoch.trans sameEpoch'.symm)
    refine { same with
      manifests := Table.Grows.insert ?_
      floors := floors_grow (sameFloor ▸ aboveFloor) }
    -- The anti-equivocation check found no manifest of this epoch.
    intro old found
    simp [found] at missing
  | floorArmed _ _ _ _ above _ _ _ raised =>
    obtain ⟨n, sameFloor, rfl⟩ := setVaultEpochFloor_eq_ok.mp raised
    exact { same with floors := floors_grow (sameFloor ▸ UInt64.le_of_lt above) }
  | grant _ _ _ _ _ _ put =>
    obtain ⟨_, _, rfl⟩ := putMembershipGrant_eq_ok.mp put
    exact { same with }
  | audit => exact { same with }
  | accountState a _ _ _ newer set =>
    obtain ⟨n, sameVersion, rfl⟩ := setAccountState_eq_ok.mp set
    refine { same with accountStates := Table.Grows.insert ?_ }
    intro old found
    have notOlder := newer (mapAccountStateRow a.authorPubkey old)
      (by simp only [Storage.getAccountState, found, map_some])
    simp only [mapAccountStateRow, not_or, not_and, UInt64.not_lt, List.not_le] at notOlder
    obtain ⟨le, tie⟩ := notOlder
    by_cases equal : old.version.toU64 = n.toU64
    · right
      left
      exact ⟨SqlInt.ext equal, tie (sameVersion ▸ equal.symm)⟩
    · left
      rw [← sameVersion] at le
      exact UInt64.lt_of_le_of_ne le equal

/-- Neither does moving the pull cursor forward. -/
theorem setSyncCursor_notRolledBack (forward : storedCursor s ctx.tenant ≤ seq)
    (wrote : s.setSyncCursor (pullCursorKey ctx.tenant) seq = .ok s') : NotRolledBack s s' := by
  obtain ⟨n, sameSeq, rfl⟩ := setSyncCursor_eq_ok.mp wrote
  refine { NotRolledBack.refl s with cursors := Table.Grows.insert ?_ }
  intro old found
  have read : storedCursor s ctx.tenant = old.toU64 := by
    simp [storedCursor, Storage.getSyncCursor, found]
  rw [read, ← sameSeq] at forward
  exact forward

theorem PullTrace.notRolledBack (trace : PullTrace P ctx s events s') :
    NotRolledBack s s' :=
  trace.related Handled.notRolledBack setSyncCursor_notRolledBack

/-! ## Cursors of other tenants -/

theorem hexDigit_inj (hm : m < 16) (hn : n < 16) (same : hexDigit m = hexDigit n) :
    m = n := by
  have all : ∀ m n : Fin 16, hexDigit m = hexDigit n → m = n := by decide
  exact congrArg Fin.val (all ⟨m, hm⟩ ⟨n, hn⟩ same)

theorem hexLower_injective : Function.Injective hexLower := by
  intro left
  induction left with
  | nil =>
    intro right same
    cases right with
    | nil => rfl
    | cons => cases same
  | cons a _ ih =>
    intro right same
    cases right with
    | nil => cases same
    | cons b =>
      simp only [hexLower, flatMap_cons, cons_append, nil_append,
        cons.injEq] at same
      obtain ⟨high, low, rest⟩ := same
      have boundA := a.toNat_lt
      have boundB := b.toNat_lt
      have sameHigh := hexDigit_inj (by omega) (by omega) high
      have sameLow := hexDigit_inj (by omega) (by omega) low
      have sameByte : a = b := UInt8.toNat_inj.mp (by omega)
      rw [sameByte, ih rest]

theorem pullCursorKey_injective : Function.Injective pullCursorKey :=
  fun _ _ same => hexLower_injective (append_cancel_left same)

/-- A run leaves every cursor but its own tenant's alone. -/
theorem PullTrace.syncState_of_ne (trace : PullTrace P ctx s events s')
    (other : key ≠ pullCursorKey ctx.tenant) :
    s'.syncState[key]? = s.syncState[key]? := by
  induction trace with
  | done => rfl
  | processed _ _ ran _ ih => rw [ih, ran.handled.frame.cursors]
  | advanced _ _ wrote _ ih =>
    obtain ⟨n, -, rfl⟩ := setSyncCursor_eq_ok.mp wrote
    rw [ih, Table.getElem?_insert, if_neg other.symm]

/-! ## Sequences of calls -/

/-- A call of the pull side of the engine, with whatever the transport is. -/
inductive PullCall : Type 1 where
  | syncPull (ctx : SyncContext) {τ : Type} (T : SyncTransport τ) (t : τ)
  | applyPulledObjects (ctx : SyncContext) (objects : List (UInt64 × SyncObject))

namespace PullCall

def context : PullCall → SyncContext
  | syncPull ctx _ _ => ctx
  | applyPulledObjects ctx _ => ctx

/-- The storage a call leaves, also when it fails. -/
def run (P : Primitives) (s : Storage) : PullCall → Storage
  | syncPull ctx T t => finalState ((UniSsh.syncPull P ctx T t).run s)
  | applyPulledObjects ctx objects => finalState ((UniSsh.applyPulledObjects P ctx objects).run s)

/-- The objects the transport of a call hands out. -/
def objects (P : Primitives) (s : Storage) : PullCall → List (UInt64 × SyncObject)
  | syncPull ctx T t => delivered P ctx T t s
  | applyPulledObjects _ objects => objects

theorem run_trace (P : Primitives) (s : Storage) (call : PullCall) :
    ∃ events, ProcessedFrom (call.objects P s) events ∧
      PullTrace P call.context s events (call.run P s) := by
  cases call with
  | syncPull _ T t => exact syncPull_trace T t s
  | applyPulledObjects _ objects => exact applyPulledObjects_trace

end PullCall

/-- The storage after a sequence of calls. -/
def runCalls (P : Primitives) (calls : List PullCall) (s : Storage) : Storage :=
  calls.foldl (PullCall.run P) s

theorem runCalls_notRolledBack (P : Primitives) (calls : List PullCall) (s : Storage) :
    NotRolledBack s (runCalls P calls s) := by
  induction calls generalizing s with
  | nil => exact .refl s
  | cons call _ ih =>
    obtain ⟨_, -, trace⟩ := call.run_trace P s
    exact trace.notRolledBack.trans (ih (call.run P s))

theorem runCalls_cursor_of_ne (P : Primitives) (calls : List PullCall) (s : Storage)
    (others : ∀ call ∈ calls, call.context.tenant ≠ tenant) :
    (runCalls P calls s).getSyncCursor (pullCursorKey tenant) =
      s.getSyncCursor (pullCursorKey tenant) := by
  induction calls generalizing s with
  | nil => rfl
  | cons call rest ih =>
    obtain ⟨_, -, trace⟩ := call.run_trace P s
    have here : pullCursorKey tenant ≠ pullCursorKey call.context.tenant :=
      fun same => others call mem_cons_self (pullCursorKey_injective same).symm
    have kept := trace.syncState_of_ne here
    have after := ih (call.run P s) fun call member => others call (mem_cons_of_mem _ member)
    calc (runCalls P (call :: rest) s).getSyncCursor (pullCursorKey tenant)
        = (call.run P s).getSyncCursor (pullCursorKey tenant) := after
      _ = s.getSyncCursor (pullCursorKey tenant) := by
          simp only [Storage.getSyncCursor, kept]

/-- No sequence of pulls rolls anything back, and a tenant none of the calls is for keeps its
cursor. -/
theorem runCalls_antiRollback (P : Primitives) (calls : List PullCall) (s : Storage) :
    NotRolledBack s (runCalls P calls s) ∧
      ∀ tenant, (∀ call ∈ calls, call.context.tenant ≠ tenant) →
        (runCalls P calls s).getSyncCursor (pullCursorKey tenant) =
          s.getSyncCursor (pullCursorKey tenant) :=
  ⟨runCalls_notRolledBack P calls s, fun _ others => runCalls_cursor_of_ne P calls s others⟩

end UniSsh
