import UniSsh.Sync.Dirty
import UniSsh.Sync.Ownership

/-!
# The server of a vault

A label binds a cloud vault to one server. A pull fills in a missing label, and a superseding
record carries the label of the server it came from.
-/

namespace UniSsh

open List

open Storage

/-- The vault of a row. -/
def RowKey.vaultId : RowKey → Bytes
  | .vault v => v
  | .item v _ => v
  | .manifest v _ => v
  | .grant v _ _ => v

variable {P : Primitives} {ctx : SyncContext} {s s' : Storage} {vaultId home : Bytes}

/-- The label of a vault. -/
def Storage.tenantOf (s : Storage) (vaultId : Bytes) : Option Bytes :=
  s.vaults[vaultId]?.map VaultRow.syncTenant

/-- The label of the vault is its server's, and a cloud vault stays one. -/
structure Routed (vaultId home : Bytes) (cloud : Bool) (s : Storage) : Prop where
  label : s.tenantOf vaultId = some home
  bound : cloud = true → s.boundTo home vaultId = true

/-- The label is kept, other servers get nothing of the vault, and its own gets every edit. -/
structure StaysWith (P : Primitives) (vaultId home away : Bytes) (cloud : Bool) (s : Storage) :
    Prop extends Routed vaultId home cloud s where
  notSent : ∀ {τ : Type} (T : SyncTransport τ) (t : τ) (own : Option Bytes) (accountWide : Bool),
    ∀ request ∈ (finalState ((runPush P T away own accountWide).run
      { storage := s, transport := t })).handed,
    ∀ obj ∈ request, ∀ k, obj.RowOf k → k.vaultId ≠ vaultId
  sent : cloud = true → ∀ k : RowKey, k.vaultId = vaultId → s.IsDirty k →
    ∃ obj : SyncObject, obj.RowOf k ∧ obj.Pending s home

/-! ## What a push takes -/

variable {tenant : Bytes} {obj : SyncObject} {k : RowKey} {cloud : Bool}

theorem boundTo_eq_true :
    s.boundTo tenant vaultId = true ↔
      ∃ row, s.vaults[vaultId]? = some row ∧ row.syncTenant = tenant ∧ row.syncTarget = .cloud := by
  unfold Storage.boundTo
  cases s.vaults[vaultId]? with
  | none => simp
  | some => simp

/-- What a push sends from a row belongs to a vault bound to its server. -/
theorem SyncObject.Pending.boundTo (pending : obj.Pending s tenant) (row : obj.RowOf k) :
    s.boundTo tenant k.vaultId = true := by
  cases obj with
  | vault =>
    cases k with
    | vault =>
      obtain ⟨⟨id, stored⟩, filtered, rfl⟩ := mem_map.mp pending
      obtain ⟨listed, chosen⟩ := mem_filter.mp filtered
      obtain ⟨-, tenant, target⟩ := of_decide_eq_true chosen
      cases row
      exact boundTo_eq_true.mpr ⟨stored, mem_toList_iff_getElem?_eq_some.mp listed, tenant, target⟩
    | _ => exact row.elim
  | item =>
    cases k with
    | item =>
      obtain ⟨_, _, _, bound, _⟩ := pending
      obtain ⟨rfl, -⟩ := row
      exact bound
    | _ => exact row.elim
  | membershipManifest =>
    cases k with
    | manifest =>
      obtain ⟨⟨id, stored⟩, filtered, rfl⟩ := mem_map.mp pending
      obtain ⟨rfl, -⟩ := row
      exact (of_decide_eq_true (mem_filter.mp filtered).2).1
    | _ => exact row.elim
  | membershipGrant =>
    cases k with
    | grant =>
      obtain ⟨⟨_, _⟩, filtered, rfl⟩ := mem_map.mp pending
      obtain ⟨rfl, -⟩ := row
      exact (of_decide_eq_true (mem_filter.mp filtered).2).1
    | _ => exact row.elim
  | _ => exact row.elim

/-- Every edited row of a vault is taken by a push to the server the vault is bound to. -/
theorem pending_of_isDirty (bound : s.boundTo tenant k.vaultId = true) (dirty : s.IsDirty k) :
    ∃ obj : SyncObject, obj.RowOf k ∧ obj.Pending s tenant := by
  cases k with
  | vault v =>
    obtain ⟨row, found, isDirty⟩ := dirty
    obtain ⟨_, found', tenant, target⟩ := boundTo_eq_true.mp bound
    cases found.symm.trans found'
    have listed := mem_toList_iff_getElem?_eq_some.mpr found
    refine ⟨.vault (mapVaultRow v row), rfl, mem_map.mpr ⟨(v, row), ?_, rfl⟩⟩
    exact mem_filter.mpr ⟨listed, by simp [isDirty, tenant, target]⟩
  | item v i =>
    obtain ⟨row, found, isDirty⟩ := dirty
    exact ⟨.item (mapItemRow (v, i) row), ⟨rfl, rfl⟩, row, found, isDirty, bound, rfl⟩
  | manifest v e =>
    obtain ⟨row, found, isDirty⟩ := dirty
    have listed := mem_toList_iff_getElem?_eq_some.mpr found
    refine ⟨.membershipManifest (mapManifestRow (v, e) row), ⟨rfl, rfl⟩,
      mem_map.mpr ⟨((v, e), row), ?_, rfl⟩⟩
    exact mem_filter.mpr ⟨listed, decide_eq_true ⟨bound, isDirty⟩⟩
  | grant v m e =>
    obtain ⟨row, found, isDirty⟩ := dirty
    have listed := mem_toList_iff_getElem?_eq_some.mpr found
    refine ⟨.membershipGrant (mapGrantRow (v, m, e) row), ⟨rfl, rfl, rfl⟩,
      mem_map.mpr ⟨((v, m, e), row), ?_, rfl⟩⟩
    exact mem_filter.mpr ⟨listed, decide_eq_true ⟨bound, isDirty⟩⟩

theorem Routed.staysWith (routed : Routed vaultId home cloud s) (elsewhere : home ≠ away) :
    StaysWith P vaultId home away cloud s where
  toRouted := routed
  notSent := by
    intro τ T t own accountWide request handed obj inside k row same
    obtain ⟨_, isHanded, -, all⟩ :=
      (runPush_pushes P T away own accountWide { storage := s, transport := t }).hands
    rw [isHanded, nil_append] at handed
    obtain ⟨_, found, tenant, -⟩ :=
      boundTo_eq_true.mp ((all request handed obj inside).boundTo row)
    obtain ⟨_, found', isHome⟩ := map_eq_some_iff.mp routed.label
    rw [same] at found
    cases found.symm.trans found'
    exact elsewhere (isHome.symm.trans tenant)
  sent := by
    intro isCloud k same dirty
    subst same
    exact pending_of_isDirty (routed.bound isCloud) dirty

/-! ## One object -/

/-- An admitted record above the stored one, in range. -/
structure Supersedes (P : Primitives) (ctx : SyncContext) (s : Storage) (v : VaultRecord) :
    Prop where
  admitted : VaultAdmitted P ctx s v
  newer : ∀ stored, s.getVault v.vaultId = some stored → stored.version < v.version
  fits : v.version ≤ i64Max
  epochFits : v.keyEpoch ≤ i64Max

/-- Such a record that comes from a server with a name, or takes a cloud vault out of the cloud. -/
structure Reroutes (P : Primitives) (ctx : SyncContext) (cloud : Bool) (s : Storage)
    (v : VaultRecord) : Prop extends Supersedes P ctx s v where
  away : ctx.tenant ≠ [] ∨ (cloud = true ∧ v.syncTarget ≠ .cloud)

variable {v : VaultRecord}

/-- The row of a labelled vault after a superseding record. -/
theorem putVault_route (put : (s.adoptPulledBinding v.vaultId ctx.tenant).putVault
      { v with syncTenant := ctx.tenant } = .ok s') (label : s.tenantOf v.vaultId = some home)
    (named : home ≠ []) :
    ∃ row, s'.vaults[v.vaultId]? = some row ∧
      row.syncTenant = (if ctx.tenant = [] then home else ctx.tenant) ∧
      row.syncTarget = v.syncTarget := by
  obtain ⟨_, _, -, -, -, rfl⟩ := putVault_eq_ok.mp put
  obtain ⟨_, found, isHome⟩ := map_eq_some_iff.mp label
  refine ⟨_, Std.ExtTreeMap.getElem?_insert_self, ?_, rfl⟩
  simp [Storage.upsertVaultRow, adoptPulledBinding_vaults, found, isHome, named]

/-- Such a record takes the vault away. -/
theorem Reroutes.applied (reroutes : Reroutes P ctx cloud s v)
    (label : s.tenantOf v.vaultId = some home) (named : home ≠ []) (elsewhere : home ≠ ctx.tenant) :
    ∃ s', (processObject P ctx (.vault v)).run s = .ok .applied s' ∧
      ¬ Routed v.vaultId home cloud s' := by
  obtain ⟨s', put⟩ : ∃ s', (s.adoptPulledBinding v.vaultId ctx.tenant).putVault
      { v with syncTenant := ctx.tenant } = .ok s' :=
    exists_putVault_of_newer reroutes.newer reroutes.fits reroutes.epochFits
  have newer : ∀ stored, s.getVault v.vaultId = some stored → stored.version ≠ v.version :=
    fun stored found => UInt64.ne_of_lt (reroutes.newer stored found)
  refine ⟨s', processVault_applied reroutes.admitted newer put, fun routed => ?_⟩
  obtain ⟨_, found, isTenant, isTarget⟩ := putVault_route put label named
  rcases reroutes.away with named' | ⟨isCloud, local_⟩
  · obtain ⟨row', found', isHome⟩ := map_eq_some_iff.mp routed.label
    cases found.symm.trans found'
    rw [if_neg named'] at isTenant
    exact elsewhere (isHome.symm.trans isTenant)
  · obtain ⟨_, found', -, target⟩ := boundTo_eq_true.mp (routed.bound isCloud)
    cases found.symm.trans found'
    exact local_ (isTarget.symm.trans target)

/-- Nothing else does. -/
theorem Handled.routed (handled : Handled P ctx s obj result s') (named : home ≠ [])
    (routed : Routed vaultId home cloud s) :
    Routed vaultId home cloud s' ∨
      ∃ v, obj = .vault v ∧ v.vaultId = vaultId ∧ Reroutes P ctx cloud s v := by
  have of_same : s'.vaults[vaultId]? = s.vaults[vaultId]? → Routed vaultId home cloud s' := by
    intro same
    refine ⟨?_, fun isCloud => ?_⟩
    · rw [Storage.tenantOf, same]
      exact routed.label
    · rw [Storage.boundTo, same]
      exact routed.bound isCloud
  have frame := handled.frame
  cases handled with
  | relabelled =>
    left
    apply of_same
    obtain ⟨row, found, isHome⟩ := map_eq_some_iff.mp routed.label
    rw [adoptPulledBinding_vaults, found, map_some, if_neg]
    rintro ⟨-, -, empty⟩
    exact named (isHome.symm.trans empty)
  | vault v _ admitted put =>
    by_cases same : v.vaultId = vaultId
    · subst same
      obtain ⟨row, found, isTenant, isTarget⟩ := putVault_route put routed.label named
      by_cases away : ctx.tenant ≠ [] ∨ (cloud = true ∧ v.syncTarget ≠ .cloud)
      · obtain ⟨version, epoch, isVersion, isEpoch, newer, -⟩ := putVault_eq_ok.mp put
        refine .inr ⟨v, rfl, rfl, ⟨admitted, fun stored found => ?_, isVersion ▸ version.inRange,
          isEpoch ▸ epoch.inRange⟩, away⟩
        obtain ⟨_, present, rfl⟩ := map_eq_some_iff.mp found
        have same := adoptPulledBinding_versions s v.vaultId ctx.tenant v.vaultId
        rw [present, map_some] at same
        obtain ⟨row, healed, isVersion⟩ := map_eq_some_iff.mp same
        have newer := newer row healed
        rwa [isVersion] at newer
      · simp only [not_or, not_not, not_and] at away
        obtain ⟨unnamed, stays⟩ := away
        rw [if_pos unnamed] at isTenant
        exact .inl ⟨map_eq_some_iff.mpr ⟨row, found, isTenant⟩, fun isCloud =>
          boundTo_eq_true.mpr ⟨row, found, isTenant, isTarget.trans (stays isCloud)⟩⟩
    · left
      apply of_same
      obtain ⟨_, _, -, -, -, rfl⟩ := putVault_eq_ok.mp put
      simp only [Table.getElem?_insert, if_neg same]
      rw [adoptPulledBinding_vaults]
      have other : ∀ row : VaultRow,
          ¬ (vaultId = v.vaultId ∧ row.syncTarget = .cloud ∧ row.syncTenant = []) :=
        fun row h => same h.1.symm
      simp [other]
  | kept => exact .inl routed
  | _ => exact .inl (of_same (by rw [frame.vaults (by simp)]))

/-! ## Runs -/

/-- A pull from another server leaves a vault with its own if and only if it brings no superseding
record. -/
theorem vault_stays_with_server_iff (P : Primitives) (ctx : SyncContext) {s : Storage}
    {vaultId home : Bytes} (label : s.tenantOf vaultId = some home) (named : home ≠ [])
    (elsewhere : home ≠ ctx.tenant) (events : List PullEvent) :
    (∀ mid, Visits P ctx s events mid →
      StaysWith P vaultId home ctx.tenant (s.boundTo home vaultId) mid) ↔
    ∀ mid v, Meets P ctx s events mid (.vault v) → v.vaultId = vaultId →
      ¬ Reroutes P ctx (s.boundTo home vaultId) mid v := by
  have iff := @visits_iff_meets P ctx s
    (StaysWith P vaultId home ctx.tenant (s.boundTo home vaultId))
    (fun mid v => v.vaultId = vaultId ∧ Reroutes P ctx (s.boundTo home vaultId) mid v) ?_ ?_ ?_
    (Routed.staysWith ⟨label, id⟩ elsewhere) events
  · simpa only [not_and] using iff
  · intro mid mid' _ _ wrote stays
    obtain ⟨n, -, rfl⟩ := setSyncCursor_eq_ok.mp wrote
    exact Routed.staysWith ⟨stays.label, stays.bound⟩ elsewhere
  · intro mid _ result mid' ran stays
    exact (ran.handled.routed named stays.toRouted).imp_left fun kept => kept.staysWith elsewhere
  · rintro _ v _ mid' ran stays ⟨rfl, reroutes⟩ kept
    obtain ⟨applied, isRun, moved⟩ := reroutes.applied stays.label named elsewhere
    have same : mid' = applied := ran.2.symm.trans (congrArg finalState isRun)
    rw [← same] at moved
    exact moved kept.toRouted

namespace Sample

/-- A server of another tenant. -/
def otherTenant : Bytes := [9, 9]

/-- A device of the owner whose vault is bound to another server. -/
def boundElsewhere : Storage :=
  ((({} : Storage).putVault (vault owner [8] 1 0)).toOption.getD {}).setVaultTenant Sample.vaultId
    otherTenant

/-- The owner's next record, and the one already stored. -/
def nextRecord : VaultRecord := vault owner [7] 2 0
def sameRecord : VaultRecord := vault owner [8] 1 0

/-- The device after it pulled a record. -/
def afterPulling (v : VaultRecord) : Storage :=
  finalState ((processObject .transparent context (.vault v)).run boundElsewhere)

/-- The objects a push of the storage hands to a server that takes everything. -/
def handedTo (tenant : Bytes) (s : Storage) : List SyncObject :=
  let T : SyncTransport Unit :=
    { pushObjects := fun _ _ => (.ok [], ()), deltaSince := fun _ _ => ([], ())
      reportVersion := fun _ => 0 }
  (finalState ((syncPush .transparent T tenant).run { storage := s, transport := () })).handed.flatten

end Sample

/-- A newer record pulled from one server takes the vault away from another. -/
theorem pulled_record_moves_vault :
    Sample.boundElsewhere.tenantOf Sample.vaultId = some Sample.otherTenant ∧
    Sample.otherTenant ≠ [] ∧ Sample.otherTenant ≠ Sample.context.tenant ∧
    PullTrace .transparent Sample.context Sample.boundElsewhere
      [.processed (1, .vault Sample.nextRecord) (.ok .applied)]
      (Sample.afterPulling Sample.nextRecord) ∧
    (Sample.afterPulling Sample.nextRecord).tenantOf Sample.vaultId = some Sample.context.tenant ∧
    Sample.handedTo Sample.context.tenant (Sample.afterPulling Sample.nextRecord) =
      [.vault { Sample.nextRecord with syncTenant := Sample.context.tenant }] ∧
    Sample.handedTo Sample.otherTenant (Sample.afterPulling Sample.nextRecord) = [] :=
  ⟨by decide +kernel, by decide, by decide +kernel,
    .processed _ _ ⟨by decide +kernel, rfl⟩ (.done _), by decide +kernel, by decide +kernel,
    by decide +kernel⟩

/-- The stored record is pulled again from elsewhere. -/
theorem vault_stays_with_server_iff_repulled :
    Processes .transparent Sample.context Sample.boundElsewhere (.vault Sample.sameRecord)
      (.ok .unchanged) (Sample.afterPulling Sample.sameRecord) ∧
    StaysWith .transparent Sample.vaultId Sample.otherTenant Sample.context.tenant
      (Sample.boundElsewhere.boundTo Sample.otherTenant Sample.vaultId)
      (Sample.afterPulling Sample.sameRecord) := by
  have same : Processes .transparent Sample.context Sample.boundElsewhere
      (.vault Sample.sameRecord) (.ok .unchanged) (Sample.afterPulling Sample.sameRecord) :=
    ⟨by decide +kernel, rfl⟩
  have label : Sample.boundElsewhere.tenantOf Sample.vaultId = some Sample.otherTenant := by
    decide +kernel
  have stays := vault_stays_with_server_iff .transparent Sample.context label (by decide)
    (by decide +kernel) [.processed (1, .vault Sample.sameRecord) (.ok .unchanged)]
  refine ⟨same, stays.mpr ?_ _ ⟨_, [], (append_nil _).symm, .processed _ _ same (.done _)⟩⟩
  rintro _ v ⟨before, _, _, _, _, isEvents, trace, -⟩ - reroutes
  -- The only object is the stored record.
  cases before with
  | cons => simp at isEvents
  | nil =>
    have isEntry := (PullEvent.processed.inj (List.cons.inj isEvents).1).1
    have isRecord : Sample.sameRecord = v := SyncObject.vault.inj (Prod.mk.inj isEntry).2
    rw [trace.eq_of_nil, ← isRecord] at reroutes
    obtain ⟨stored, found, isVersion⟩ : ∃ stored,
        Sample.boundElsewhere.getVault Sample.sameRecord.vaultId = some stored ∧
          stored.version = Sample.sameRecord.version := by
      refine ⟨{ Sample.sameRecord with syncTenant := Sample.otherTenant }, ?_, rfl⟩
      decide +kernel
    exact UInt64.ne_of_lt (reroutes.newer stored found) isVersion

end UniSsh
