import UniSsh.Vault.Advances
import Mathlib.Data.List.Dedup

/-!
# Archived versions

Every archived version is of a live item (`Storage.HistoryLive`): a deletion clears the history in
the same transaction.
-/

namespace UniSsh

open List

open Storage

/-! ## The invariant -/

namespace Storage

def Live (s : Storage) (vaultId itemId : Bytes) : Prop :=
  ∃ row, s.items[(vaultId, itemId)]? = some row ∧ row.tombstone = false

def HistoryLive (s : Storage) : Prop :=
  ∀ r ∈ s.itemHistory, s.Live r.vaultId r.itemId

/-- No version of the item is archived. -/
def Unarchived (s : Storage) (vaultId itemId : Bytes) : Prop :=
  ∀ r ∈ s.itemHistory, ¬(r.vaultId = vaultId ∧ r.itemId = itemId)

theorem HistoryLive.unarchived {s : Storage} (live : s.HistoryLive)
    (deleted : ¬ s.Live vaultId itemId) : s.Unarchived vaultId itemId := by
  rintro r member ⟨rfl, rfl⟩
  exact deleted (live r member)

end Storage

/-! ## What reads see of it -/

inductive ConsistencyKind where
  | staleHistory
  deriving DecidableEq

structure ConsistencyIssue where
  kind : ConsistencyKind
  vaultId : Bytes
  itemId : Bytes
  detail : String

/-- Archived versions that outlived their item. -/
def Storage.checkStaleHistory (s : Storage) : List ConsistencyIssue :=
  let archived := (s.itemHistory.map fun r => (r.vaultId, r.itemId)).dedup
  (archived.filter fun key => s.items[key]?.all fun row => row.tombstone).map fun key =>
    { kind := .staleHistory, vaultId := key.1, itemId := key.2,
      detail := "version history for a deleted/absent item" }

variable {s : Storage} {itemId : Bytes}

theorem checkStaleHistory_eq_nil : s.checkStaleHistory = [] ↔ s.HistoryLive := by
  unfold Storage.checkStaleHistory
  rw [map_eq_nil_iff, filter_eq_nil_iff]
  constructor
  · intro none r member
    have fresh := none (r.vaultId, r.itemId)
      (mem_dedup.mpr (mem_map.mpr ⟨r, member, rfl⟩))
    cases found : s.items[(r.vaultId, r.itemId)]? with
    | none => simp [found] at fresh
    | some row => exact ⟨row, found, by simpa [found] using fresh⟩
  · rintro live _ member
    obtain ⟨r, archived, rfl⟩ := mem_map.mp (mem_dedup.mp member)
    obtain ⟨_, found, isLive⟩ := live r archived
    simp [found, isLive]

/-- A deleted item has no readable version. -/
theorem getItemVersion_of_unarchived {vault : Vault} (deleted : ¬ s.Live vault.vaultId itemId)
    (unarchived : s.Unarchived vault.vaultId itemId) :
    vault.getItemVersion P s itemId version = .ok none := by
  have current : ((s.getItem vault.vaultId itemId).filter fun r =>
      !r.tombstone && r.version = version) = none := by
    rw [Option.filter_eq_none_iff]
    rintro r found passes
    obtain ⟨row, present, rfl⟩ := map_eq_some_iff.mp found
    refine deleted ⟨row, present, ?_⟩
    simpa [mapItemRow] using (Bool.and_eq_true_iff.mp passes).1
  have archived : s.listItemHistory vault.vaultId itemId = [] := by
    unfold Storage.listItemHistory
    have none : (s.itemHistory.filter fun r =>
        r.vaultId = vault.vaultId ∧ r.itemId = itemId) = [] := by
      rw [filter_eq_nil_iff]
      intro r member isItem
      exact unarchived r member (of_decide_eq_true isItem)
    rw [none]
    rfl
  rw [Vault.getItemVersion, current, archived]
  rfl

/-! ## Writes -/

/-- Every archived version is of a live item, or of a waiting one whose row is gone. -/
def Storage.LiveBut (waiting : Bytes × Bytes → Prop) (s : Storage) : Prop :=
  ∀ r ∈ s.itemHistory, s.Live r.vaultId r.itemId ∨
    waiting (r.vaultId, r.itemId) ∧ s.items[(r.vaultId, r.itemId)]? = none

theorem liveBut_iff : s.LiveBut (fun _ => False) ↔ s.HistoryLive := by
  simp [Storage.LiveBut, Storage.HistoryLive]

/-- Every archived version still has a live item, if it had one. -/
def KeepsHistory (s s' : Storage) : Prop := s.HistoryLive → s'.HistoryLive

instance : Std.Refl KeepsHistory := ⟨fun _ live => live⟩
instance : IsTrans Storage KeepsHistory := ⟨fun _ _ _ first second live => second (first live)⟩

/-- The row is of the same kind, live or deleted. -/
def SameLife (row row' : ItemRow) : Prop := row'.tombstone = row.tombstone

instance : Std.Refl SameLife := ⟨fun _ => rfl⟩
instance : IsTrans ItemRow SameLife := ⟨fun _ _ _ first second => second.trans first⟩

/-- Rows stay live or deleted, and nothing is archived. -/
structure LeavesItems (s s' : Storage) : Prop where
  items : Table.Grows SameLife s.items s'.items
  history : s'.itemHistory ⊆ s.itemHistory

section Writes

variable {s s' : Storage}

theorem LeavesItems.of_tables (items : s'.items = s.items)
    (history : s'.itemHistory = s.itemHistory) : LeavesItems s s' :=
  ⟨items ▸ .refl _, history ▸ List.Subset.refl _⟩

theorem LeavesItems.keeps (leaves : LeavesItems s s') : KeepsHistory s s' := by
  intro live r member
  obtain ⟨row, found, isLive⟩ := live r (leaves.history member)
  obtain ⟨row', found', same⟩ := leaves.items _ row found
  exact ⟨row', found', same.trans isLive⟩

theorem clearItemHistory_leavesItems (s : Storage) (vaultId itemId : Bytes) :
    LeavesItems s (s.clearItemHistory vaultId itemId) :=
  ⟨.refl _, filter_subset_self _⟩

theorem dirtied_sameLife {t : Table (Bytes × Bytes) ItemRow}
    {chosen : Bytes × Bytes → ItemRow → Bool} :
    Table.Grows SameLife t (t.updateWhere chosen fun row => { row with dirty := true }) :=
  .updateWhere (fun _ row _ => (rfl : ({ row with dirty := true } : ItemRow).tombstone = _)) t

theorem markItemDirty_leavesItems :
    LeavesItems s (s.markItemDirty vaultId itemId) :=
  ⟨dirtied_sameLife, List.Subset.refl _⟩

theorem setVaultEpochFloor_leavesItems (set : s.setVaultEpochFloor vaultId epoch = .ok s') :
    LeavesItems s s' := by
  obtain ⟨_, -, rfl⟩ := setVaultEpochFloor_eq_ok.mp set
  exact .of_tables rfl rfl

/-! A put replaces one row. -/

variable {it : ItemRecord}

section

variable (put : s.putItem it = .ok s')
include put

theorem putItem_history : s'.itemHistory = s.itemHistory := by
  obtain ⟨_, _, -, -, -, rfl⟩ := putItem_eq_ok.mp put
  rfl

theorem putItem_row_of_ne (other : (it.vaultId, it.itemId) ≠ key) :
    s'.items[key]? = s.items[key]? := by
  obtain ⟨_, _, -, -, -, rfl⟩ := putItem_eq_ok.mp put
  rw [Table.getElem?_insert, if_neg other]

theorem putItem_live_of_ne (other : (it.vaultId, it.itemId) ≠ (vaultId, itemId))
    (live : s.Live vaultId itemId) :
    s'.Live vaultId itemId := by
  obtain ⟨row, found, isLive⟩ := live
  exact ⟨row, (putItem_row_of_ne put other).trans found, isLive⟩

theorem Storage.LiveBut.putItem {waiting : Bytes × Bytes → Prop} (live : s.LiveBut waiting)
    (sound : it.tombstone = true → s.Unarchived it.vaultId it.itemId) : s'.LiveBut waiting := by
  intro r member
  rw [putItem_history put] at member
  by_cases own : (it.vaultId, it.itemId) = (r.vaultId, r.itemId)
  · obtain ⟨sameVault, sameItem⟩ := Prod.mk.inj own
    have isLive : it.tombstone = false := by
      by_contra deleted
      exact sound (Bool.eq_true_of_not_eq_false deleted) r member ⟨sameVault.symm, sameItem.symm⟩
    left
    rw [← sameVault, ← sameItem]
    obtain ⟨_, _, -, -, -, rfl⟩ := putItem_eq_ok.mp put
    exact ⟨_, getElem?_insert_self, isLive⟩
  · rcases live r member with isLive | ⟨waits, gone⟩
    · exact .inl (putItem_live_of_ne put own isLive)
    · exact .inr ⟨waits, (putItem_row_of_ne put own).trans gone⟩

theorem putItem_keeps
    (sound : it.tombstone = true → s.Unarchived it.vaultId it.itemId) : KeepsHistory s s' :=
  fun live => liveBut_iff.mp (Storage.LiveBut.putItem put (liveBut_iff.mpr live) sound)

/-- Cleared of its history, the item may be anything. -/
theorem putItem_clear_keeps : KeepsHistory s (s'.clearItemHistory it.vaultId it.itemId) := by
  intro live r member
  obtain ⟨archived, kept⟩ := mem_filter.mp member
  rw [putItem_history put] at archived
  have other : (it.vaultId, it.itemId) ≠ (r.vaultId, r.itemId) := by
    intro same
    obtain ⟨sameVault, sameItem⟩ := Prod.mk.inj same
    simp [sameVault, sameItem] at kept
  exact putItem_live_of_ne put other (live r archived)

end

theorem trimHistory_leavesItems :
    LeavesItems s (s.trimHistory vaultId itemId retain) := by
  refine ⟨.refl _, ?_⟩
  change Storage.trimHistory.go vaultId itemId retain s.itemHistory ⊆ s.itemHistory
  induction s.itemHistory with
  | nil => exact List.Subset.refl _
  | cons h _ ih =>
    unfold Storage.trimHistory.go
    split
    · exact List.Subset.trans ih (subset_cons_self _ _)
    · exact cons_subset_cons h ih

theorem insertHistory_keeps (live : s.Live r.vaultId r.itemId) :
    KeepsHistory s (s.insertHistory r) := by
  intro archived
  unfold Storage.insertHistory
  split
  · exact archived
  · intro h member
    rcases mem_append.mp member with old | new
    · exact archived h old
    · rw [mem_singleton.mp new]
      exact live

theorem archiveAndPut_keeps (put : s.archiveAndPut it retain = .ok s') (live : it.tombstone = false)
    : KeepsHistory s s' := by
  obtain ⟨_, stored, rest⟩ := bind_eq_ok.mp put
  cases rest
  refine IsTrans.trans _ _ _ ?_ (IsTrans.trans _ _ _
    (putItem_keeps stored fun deleted => absurd deleted (Bool.eq_false_iff.mp live))
    trimHistory_leavesItems.keeps)
  split
  · next found =>
    split
    · exact Std.Refl.refl s
    · next isLive =>
      obtain ⟨row, present, rfl⟩ := map_eq_some_iff.mp found
      exact insertHistory_keeps ⟨row, present, Bool.eq_false_iff.mpr isLive⟩
  · exact Std.Refl.refl s

end Writes

/-! ## Operations that delete no item -/

section Operations

variable {P : Primitives} {vault : Vault} {adminKeyset : UnlockedKeyset} {members : List Member}
  {draws : Draws}

theorem recordWrites_leavesItems : RecordWrites LeavesItems where
  putVault put := by
    obtain ⟨_, _, -, -, -, rfl⟩ := putVault_eq_ok.mp put
    exact .of_tables rfl rfl
  markVaultDirty _ _ := .of_tables rfl rfl
  clearItemHistory := clearItemHistory_leavesItems
  putMembershipManifest put := by
    obtain ⟨_, -, rfl⟩ := putMembershipManifest_eq_ok.mp put
    exact .of_tables rfl rfl
  putMembershipGrant put := by
    obtain ⟨_, -, rfl⟩ := putMembershipGrant_eq_ok.mp put
    exact .of_tables rfl rfl
  markMembershipDirty marked := by
    obtain ⟨_, -, rest⟩ := bind_eq_ok.mp marked
    cases rest
    exact .of_tables rfl rfl

theorem recordWrites_keeps : RecordWrites KeepsHistory :=
  recordWrites_leavesItems.mono LeavesItems.keeps

/-! ## Item writes -/

theorem itemWrites_keeps : ItemWrites KeepsHistory where
  putItem live put := putItem_keeps put fun deleted => absurd deleted (Bool.eq_false_iff.mp live)
  archiveAndPut live put := archiveAndPut_keeps put live
  putItemAndClearHistory put := by
    obtain ⟨_, stored, rest⟩ := bind_eq_ok.mp put
    cases rest
    exact putItem_clear_keeps stored
  markItemDirty s vaultId itemId := markItemDirty_leavesItems.keeps

/-- Burying the old id and clearing its history are one transaction. -/
theorem renameItem_keeps {oldId newId : Bytes} :
    Preserves KeepsHistory (vault.renameItem P oldId newId draws) := by
  apply Preserves.ite
  · exact .pure _
  refine .bind compute_preserves fun _ => ?_
  refine .bind (.read _) fun _ => ?_
  refine .bind (.read _) fun item => ?_
  apply Preserves.transaction_of_ok
  intro s _ _ ran
  obtain ⟨_, _, put, ran⟩ := bind_run_ok ran
  obtain ⟨_, -, ran⟩ := read_bind_ok ran
  obtain ⟨tomb, made, ran⟩ := read_bind_ok ran
  obtain ⟨_, _, wrote, ran⟩ := bind_run_ok ran
  obtain ⟨sameVault, sameItem⟩ : tomb.vaultId = vault.vaultId ∧ tomb.itemId = oldId := by
    obtain ⟨_, -, made⟩ := bind_eq_ok.mp made
    cases made
    exact ⟨rfl, rfl⟩
  have cleared := putItem_clear_keeps (vaultWrite_run_ok wrote)
  rw [sameVault, sameItem] at cleared
  cases ran
  -- Marking the row and clearing its history do not meet.
  exact IsTrans.trans _ _ _ ((putItem_preserves itemWrites_keeps).of_ok put)
    (IsTrans.trans _ _ _ cleared markItemDirty_leavesItems.keeps)

/-! ## Membership changes

A deletion is re-signed as a deletion, and nothing of a deleted item is archived. -/

/-- Every archived version still has a live item, provided that no version of a `dead` item is
archived. -/
structure Spares (dead : Bytes → Bytes → Prop) (s s' : Storage) : Prop where
  history : s'.itemHistory ⊆ s.itemHistory
  keeps : (∀ vaultId itemId, dead vaultId itemId → s.Unarchived vaultId itemId) → KeepsHistory s s'

variable {dead : Bytes → Bytes → Prop}

instance : Std.Refl (Spares dead) := ⟨fun _ => ⟨List.Subset.refl _, fun _ live => live⟩⟩
instance : IsTrans Storage (Spares dead) where
  trans s mid s' first second := by
    refine ⟨List.Subset.trans second.history first.history, fun unarchived live => ?_⟩
    refine second.keeps (fun vaultId itemId isDead r member => ?_) (first.keeps unarchived live)
    exact unarchived vaultId itemId isDead r (first.history member)

theorem LeavesItems.spares (leaves : LeavesItems s s') : Spares dead s s' :=
  ⟨leaves.history, fun _ => leaves.keeps⟩

theorem recordWrites_spares : RecordWrites (Spares dead) :=
  recordWrites_leavesItems.mono LeavesItems.spares

theorem putReanchored_spares (deleted : ∀ r ∈ records, r.tombstone = true → dead r.vaultId r.itemId)
    :
    Preserves (Spares dead) (vault.putReanchored records) := by
  apply Preserves.forM
  intro record member
  refine .bind (vaultWrite_preserves fun s s' put => ?_) fun _ => ?_
  · refine ⟨(putItem_history put).symm ▸ List.Subset.refl _, fun unarchived => ?_⟩
    exact putItem_keeps put fun isTombstone => unarchived _ _ (deleted record member isTombstone)
  · exact .modify fun s => markItemDirty_leavesItems.spares

/-- A re-anchored deletion is of a row that is deleted. -/
theorem reanchorItems_dead (ran : vault.reanchorItems P s targetVk epoch draws = .ok issued) :
    ∀ r ∈ issued, r.tombstone = true → ¬ s.Live r.vaultId r.itemId := by
  rintro updated member deleted ⟨_, found, live⟩
  obtain ⟨_, listed, _, _, made⟩ := (reanchorItems_eq_ok ran).1 updated member
  obtain ⟨_, _, _, -, signed⟩ := reanchorItem_signed made
  obtain ⟨_, _, present, rfl⟩ := mem_listItemsIncludingTombstones.mp listed
  obtain ⟨_, -, signed⟩ := bind_eq_ok.mp signed
  cases signed
  cases found.symm.trans present
  exact Bool.eq_false_iff.mp live deleted

theorem Spares.keeps_of_dead (spares : Spares (fun vaultId itemId => ¬ s.Live vaultId itemId) s s')
    : KeepsHistory s s' :=
  fun live => spares.keeps (fun _ _ notLive => live.unarchived notLive) live

theorem establishOrExtendMembership_keeps {x25519ByEd : List (Bytes × Bytes)} :
    Preserves KeepsHistory
      (vault.establishOrExtendMembership P adminKeyset members x25519ByEd draws) := by
  intro s
  refine Preserves.read_bind fun issued _ => ?_
  obtain ⟨_, _⟩ := issued
  refine Preserves.read_bind fun _ _ => ?_
  refine Preserves.read_bind fun reanchored ran => Spares.keeps_of_dead ?_
  refine (?_ : Preserves (Spares fun vaultId itemId => ¬ s.Live vaultId itemId) _) s
  refine .bind (.transaction ?_) fun _ => Preserves.pure _
  refine .bind (addMember_preserves recordWrites_spares) fun verified => ?_
  refine .bind (reanchorRecord_preserves recordWrites_spares
    (putReanchored_spares (reanchorItems_dead ran))) fun _ => ?_
  exact vaultWrite_preserves fun _ _ set => (setVaultEpochFloor_leavesItems set).spares

theorem rotateVk_keeps {grants : List Recipient} :
    Preserves KeepsHistory (vault.rotateVk P adminKeyset members grants draws) := by
  intro s
  refine Preserves.read_bind fun rotation prepared => Spares.keeps_of_dead ?_
  obtain ⟨_, _, _, made⟩ := prepareRotation_eq_ok prepared
  have reanchored := made.items
  refine (?_ : Preserves (Spares fun vaultId itemId => ¬ s.Live vaultId itemId) _) s
  refine .bind (.transaction ?_) fun _ => Preserves.pure _
  have writes : RecordWrites (Spares fun vaultId itemId => ¬ s.Live vaultId itemId) :=
    recordWrites_spares
  refine .bind (vaultWrite_preserves fun _ _ => writes.putMembershipManifest) fun _ => ?_
  refine .bind (putGrants_preserves writes) fun _ => ?_
  refine .bind (putReanchored_spares (reanchorItems_dead reanchored)) fun _ => ?_
  refine .bind (vaultWrite_preserves fun _ _ => writes.putVault) fun _ => ?_
  refine .bind (vaultWrite_preserves fun _ _ set =>
    (setVaultEpochFloor_leavesItems set).spares) fun _ => ?_
  refine .bind (.modify fun s => writes.markVaultDirty s _) fun _ => ?_
  exact vaultWrite_preserves fun _ _ => writes.markMembershipDirty

end Operations

/-! ## Every local operation -/

namespace LocalOperation

/-- Dropping a row alone is a step of discarding an edit, not an operation of a device. -/
def Whole : LocalOperation → Prop
  | .discardUnpushedItem _ _ _ _ => False
  | _ => True

theorem orUnchanged_keeps {ε : Type} {x : Except ε Storage}
    (leaves : ∀ s', x = .ok s' → LeavesItems s s') : KeepsHistory s (orUnchanged s x) := by
  cases x with
  | error => exact Std.Refl.refl s
  | ok s' => exact (leaves s' rfl).keeps

theorem run_keeps (P : Primitives) (s : Storage) {op : LocalOperation} (whole : op.Whole) :
    KeepsHistory s (op.run P s) := by
  cases op with
  | create => exact createWithTarget_preserves recordWrites_keeps s
  | setName => exact setName_preserves recordWrites_keeps s
  | setCachePolicy => exact setCachePolicy_preserves recordWrites_keeps s
  | delete => exact delete_preserves recordWrites_keeps s
  | putItem => exact putItem_preserves itemWrites_keeps s
  | putItemKeepHistory => exact putItemKeepHistory_preserves itemWrites_keeps s
  | deleteItem => exact deleteItem_preserves itemWrites_keeps s
  | renameItem => exact renameItem_keeps s
  | establish => exact establishOrExtendMembership_keeps s
  | rotate => exact rotateVk_keeps s
  | bindVault vaultId tenant =>
    apply LeavesItems.keeps
    change LeavesItems s (s.setVaultTenant vaultId tenant)
    unfold Storage.setVaultTenant
    split
    · split
      · exact ⟨dirtied_sameLife, List.Subset.refl _⟩
      · exact .of_tables rfl rfl
    · exact .of_tables rfl rfl
  | bindUnbound =>
    apply LeavesItems.keeps
    exact ⟨dirtied_sameLife, List.Subset.refl _⟩
  | purge =>
    intro live r member
    obtain ⟨archived, other⟩ := mem_filter.mp member
    obtain ⟨row, found, isLive⟩ := live r archived
    refine ⟨row, ?_, isLive⟩
    exact (Table.getElem?_filter_of_kept s.items fun _ => other).trans found
  | discardUnpushedItem => exact whole.elim
  | removeGrant =>
    refine orUnchanged_keeps fun s' removed => ?_
    obtain ⟨_, -, rest⟩ := bind_eq_ok.mp removed
    cases rest
    exact .of_tables rfl rfl
  | writeAccountState =>
    refine orUnchanged_keeps fun s' wrote => ?_
    obtain ⟨_, -, rfl⟩ := setAccountState_eq_ok.mp wrote
    exact .of_tables rfl rfl
  | setSyncCursor =>
    refine orUnchanged_keeps fun s' set => ?_
    obtain ⟨_, -, rest⟩ := bind_eq_ok.mp set
    cases rest
    exact .of_tables rfl rfl
  | unbindVault | clearBinding | appendAudit | setMeta | setTrustAnchor | setClock =>
    apply LeavesItems.keeps
    exact .of_tables rfl rfl

end LocalOperation

end UniSsh
