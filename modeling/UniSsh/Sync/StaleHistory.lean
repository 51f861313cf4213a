import UniSsh.Sync.AntiRollback
import UniSsh.Sync.Discard
import UniSsh.Sync.Pushed
import UniSsh.Vault.History

/-!
# Archived versions and synchronisation

A pulled tombstone leaves the item's archived versions. Without such a delivery every archived
version is of a live item; while edits are discarded, `Storage.LiveBut` is the invariant.
-/

namespace UniSsh

open List Storage

/-! ## Edits that wait for the server's copy -/

variable {s : Storage}

namespace Storage.LiveBut

variable {s' : Storage} {waiting : Bytes × Bytes → Prop}

/-- The same rows, live or deleted, under the same keys. -/
theorem pointwise (live : s.LiveBut waiting) (items : Table.Pointwise SameLife s.items s'.items)
    (history : s'.itemHistory ⊆ s.itemHistory) : s'.LiveBut waiting := by
  intro r member
  rcases live r (history member) with ⟨row, found, isLive⟩ | ⟨waits, gone⟩
  · obtain ⟨row', found', same⟩ := items.grows (fun _ _ same => same) _ row found
    exact .inl ⟨row', found', (same : SameLife row row').trans isLive⟩
  · exact .inr ⟨waits, items.absent gone⟩

theorem of_tables (live : s.LiveBut waiting) (items : s'.items = s.items)
    (history : s'.itemHistory = s.itemHistory) : s'.LiveBut waiting :=
  live.pointwise (items ▸ .refl _) (history ▸ List.Subset.refl _)

end Storage.LiveBut

/-! ## Pulls -/

/-- A tombstone of the item is among the objects. -/
def Buries (objects : List (UInt64 × SyncObject)) (vaultId itemId : Bytes) : Prop :=
  ∃ entry ∈ objects, ∃ i, entry.2 = .item i ∧ i.tombstone = true ∧
    i.vaultId = vaultId ∧ i.itemId = itemId

/-- Nothing is archived of the items whose tombstones are among the objects. -/
def SparesArchived (s : Storage) (objects : List (UInt64 × SyncObject)) : Prop :=
  ∀ vaultId itemId, Buries objects vaultId itemId → s.Unarchived vaultId itemId

variable {s' : Storage}

theorem SparesArchived.mono (spares : SparesArchived s objects)
    (history : s'.itemHistory ⊆ s.itemHistory) :
    SparesArchived s' objects :=
  fun vaultId itemId buried r member => spares vaultId itemId buried r (history member)

section Pulls

variable {P : Primitives} {ctx : SyncContext} {s s' : Storage} {waiting : Bytes × Bytes → Prop}

theorem Handled.liveBut (handled : Handled P ctx s obj result s') (live : s.LiveBut waiting)
    (sound : ∀ i, obj = .item i → i.tombstone = true → s.Unarchived i.vaultId i.itemId) :
    s'.LiveBut waiting := by
  have frame := handled.frame
  cases handled with
  | kept => exact live
  | item i _ _ put => exact live.putItem put (sound i rfl)
  | relabelled | vault | manifest | floorArmed | grant | audit | accountState =>
    exact live.of_tables (frame.items fun _ => nofun) frame.history

variable {events : List PullEvent}

/-- A pull archives nothing, so that what it delivers can be judged by the storage before it. -/
theorem PullTrace.liveBut (trace : PullTrace P ctx s events s')
    (processed : ProcessedFrom objects events) (spares : SparesArchived s objects)
    (live : s.LiveBut waiting) : s'.LiveBut waiting := by
  induction trace with
  | done => exact live
  | @processed s mid s' events entry result ran rest ih =>
    have delivered := processed entry result mem_cons_self
    refine ih (fun other result member => processed other result (mem_cons_of_mem _ member))
      (spares.mono (ran.handled.frame.history ▸ List.Subset.refl _)) ?_
    exact ran.handled.liveBut live fun i isItem deleted =>
      spares _ _ ⟨entry, delivered, i, isItem, deleted, rfl, rfl⟩
  | advanced _ _ wrote _ ih =>
    obtain ⟨n, -, rfl⟩ := setSyncCursor_eq_ok.mp wrote
    exact ih (fun other result member => processed other result (mem_cons_of_mem _ member))
      spares (live.of_tables rfl rfl)

theorem PullTrace.history (trace : PullTrace P ctx s events s') :
    s'.itemHistory = s.itemHistory := by
  induction trace with
  | done => rfl
  | processed _ _ ran _ ih => exact ih.trans ran.handled.frame.history
  | advanced _ _ wrote _ ih =>
    obtain ⟨n, -, rfl⟩ := setSyncCursor_eq_ok.mp wrote
    exact ih

theorem PullCall.run_keeps (call : PullCall) (spares : SparesArchived s (call.objects P s)) :
    KeepsHistory s (call.run P s) := by
  intro live
  obtain ⟨_, processed, trace⟩ := call.run_trace P s
  exact liveBut_iff.mp (trace.liveBut processed spares (liveBut_iff.mpr live))

end Pulls

/-! ## Pushes -/

theorem Settles.sameLife (settles : Settles s s') : Table.Pointwise SameLife s.items s'.items := by
  apply settles.items.mono
  rintro row row' (rfl | rfl) <;> rfl

/-! ## Discarding edits -/

section Discard

variable {s s' : Storage} {waiting : Bytes × Bytes → Prop}

/-- A dropped edit waits. -/
def Dropped (dropped : List Unpushable) (key : Bytes × Bytes) : Prop :=
  ∃ u ∈ dropped, (u.vaultId, u.itemId) = key

variable {u : Unpushable} {mine dropped theirs : List Unpushable}

theorem discardUnpushedItem_liveBut
    (ran : s.discardUnpushedItem u.vaultId u.itemId u.version u.authorPubkey = .ok s')
    (live : s.LiveBut waiting) :
    s'.LiveBut fun key => waiting key ∨
      s.isUnpushedItem u.vaultId u.itemId u.version u.authorPubkey = true ∧
        (u.vaultId, u.itemId) = key := by
  obtain ⟨version, same, rest⟩ := bind_eq_ok.mp ran
  cases rest
  have sameVersion : version.toU64 = u.version := checkedVersion_eq_ok.mp same
  intro r member
  rw [getElem?_filter']
  rcases live r member with ⟨row, found, isLive⟩ | ⟨waits, gone⟩
  · by_cases isEdit : (r.vaultId, r.itemId) = (u.vaultId, u.itemId) ∧ row.dirty = true ∧
        row.version = version ∧ row.authorPubkey = u.authorPubkey
    · right
      obtain ⟨own, isDirty, isVersion, isAuthor⟩ := isEdit
      refine ⟨.inr ⟨?_, own.symm⟩, ?_⟩
      · simp [isUnpushedItem, ← own, found, isDirty, isVersion, isAuthor, sameVersion]
      · rw [found, Option.filter_some, if_neg]
        exact fun kept => of_decide_eq_true kept ⟨own, isDirty, isVersion, isAuthor⟩
    · left
      refine ⟨row, ?_, isLive⟩
      rw [getElem?_filter', found, Option.filter_some, if_pos (decide_eq_true isEdit)]
  · exact .inr ⟨.inl waits, by rw [gone]; rfl⟩

variable {itemId : Bytes} {held : List Bytes}

theorem deleteItemHistoryAbove_fewer
    (ran : s.deleteItemHistoryAbove vaultId itemId version = .ok s') :
    s'.items = s.items ∧ s'.itemHistory ⊆ s.itemHistory := by
  obtain ⟨_, -, rest⟩ := bind_eq_ok.mp ran
  cases rest
  exact ⟨rfl, filter_subset_self _⟩

theorem dropEdits_liveBut (ran : (dropEdits mine).run s = .ok dropped s') (live : s.LiveBut waiting) :
    s'.LiveBut fun key => waiting key ∨ Dropped dropped key := by
  induction mine generalizing s waiting dropped with
  | nil =>
    cases ran
    intro r member
    rcases live r member with isLive | ⟨waits, gone⟩
    · exact .inl isLive
    · exact .inr ⟨.inl waits, gone⟩
  | cons u _ ih =>
    obtain ⟨_, _, got, ran⟩ := bind_run_ok ran
    cases got
    obtain ⟨_, _, wrote, ran⟩ := bind_run_ok ran
    have discarded := mapError_eq_ok.mp (writeM_run_ok wrote)
    obtain ⟨_, _, ranRest, ran⟩ := bind_run_ok ran
    cases ran
    have liveRest := ih ranRest (discardUnpushedItem_liveBut discarded live)
    intro r member
    rcases liveRest r member with isLive | ⟨waits, gone⟩
    · exact .inl isLive
    · refine .inr ⟨?_, gone⟩
      rcases waits with (waits | ⟨isEdit, own⟩) | ⟨other, inRest, own⟩
      · exact .inl waits
      · exact .inr ⟨u, by simp [isEdit], own⟩
      · refine .inr ⟨other, ?_, own⟩
        split
        · exact mem_cons_of_mem _ inRest
        · exact inRest

theorem releaseItems_liveBut (ran : (releaseItems theirs).run s = .ok released s')
    (live : s.LiveBut waiting) :
    s'.LiveBut waiting := by
  induction theirs generalizing s released with
  | nil =>
    cases ran
    exact live
  | cons u _ ih =>
    obtain ⟨_, _, got, ran⟩ := bind_run_ok ran
    cases got
    by_cases unchanged : ((s.getItem u.vaultId u.itemId).any fun it =>
        it.version = u.version ∧ it.authorPubkey = u.authorPubkey) = true
    · simp only [unchanged, if_true] at ran
      obtain ⟨_, _, wrote, ran⟩ := bind_run_ok ran
      cases wrote
      obtain ⟨_, _, ranRest, ran⟩ := bind_run_ok ran
      cases ran
      have cleared : Table.Pointwise SameLife s.items (s.clearItemDirty u.vaultId u.itemId).items :=
        .updateWhere (fun _ row _ => (rfl : ({ row with dirty := false } : ItemRow).tombstone = _)) _
      exact ih ranRest (live.pointwise cleared (List.Subset.refl _))
    · simp only [unchanged] at ran
      exact ih ran live

/-- An edit stops waiting when its row is there or none of its archived versions are. -/
theorem Storage.LiveBut.settled (live : s.LiveBut (Dropped (u :: rest)))
    (items : s'.items = s.items) (history : s'.itemHistory ⊆ s.itemHistory)
    (done : s.items[(u.vaultId, u.itemId)]? ≠ none ∨ s'.Unarchived u.vaultId u.itemId) :
    s'.LiveBut (Dropped rest) := by
  intro r member
  rcases live r (history member) with ⟨row, found, isLive⟩ | ⟨⟨other, inDropped, own⟩, gone⟩
  · exact .inl ⟨row, items ▸ found, isLive⟩
  · rcases mem_cons.mp inDropped with rfl | inRest
    · rcases done with present | unarchived
      · exact (present (own ▸ gone)).elim
      · obtain ⟨sameVault, sameItem⟩ := Prod.mk.inj own
        exact (unarchived r member ⟨sameVault.symm, sameItem.symm⟩).elim
    · exact .inr ⟨⟨other, inRest, own⟩, items ▸ gone⟩

/-- A dropped edit that came back is live, and one that did not has no archived version left. -/
theorem settleHistory_live (ran : (settleHistory held dropped).run s = .ok removed s')
    (live : s.LiveBut (Dropped dropped)) :
    s'.HistoryLive := by
  induction dropped generalizing s removed with
  | nil =>
    cases ran
    intro r member
    rcases live r member with isLive | ⟨⟨u, inNil, -⟩, -⟩
    · exact isLive
    · exact (not_mem_nil inNil).elim
  | cons u _ ih =>
    rw [settleHistory] at ran
    split at ran
    · obtain ⟨_, found, ran⟩ := read_bind_ok ran
      obtain ⟨_, mid, wrote, ran⟩ := bind_run_ok ran
      have deleted := mapError_eq_ok.mp (writeM_run_ok wrote)
      obtain ⟨items, fewer⟩ := deleteItemHistoryAbove_fewer deleted
      have present : s.items[(u.vaultId, u.itemId)]? ≠ none := by
        intro gone
        have absent : s.getItem u.vaultId u.itemId = none := by
          unfold getItem
          rw [gone]
          rfl
        rw [absent] at found
        cases found
      exact ih ran (live.settled items fewer (.inl present))
    · obtain ⟨_, mid, wrote, ran⟩ := bind_run_ok ran
      obtain rfl : s.clearItemHistory u.vaultId u.itemId = mid := by
        cases wrote
        rfl
      obtain ⟨_, last, ranRest, ran⟩ := bind_run_ok ran
      obtain rfl : last = s' := by
        cases ran
        rfl
      have fewer := (clearItemHistory_leavesItems s u.vaultId u.itemId).history
      exact ih ranRest (live.settled rfl fewer (.inr fun _ member =>
        of_decide_eq_true (mem_filter.mp member).2))

/-! Discarding archives nothing. -/

/-- Nothing is archived. -/
def ArchivesNothing (s s' : Storage) : Prop := s'.itemHistory ⊆ s.itemHistory

instance : Std.Refl ArchivesNothing := ⟨fun _ => List.Subset.refl _⟩
instance : IsTrans Storage ArchivesNothing :=
  ⟨fun _ _ _ first second => List.Subset.trans second first⟩

variable {R : Storage → Storage → Prop}

theorem storageWrite_preserves [Std.Refl R] {f : Storage → Except StorageError Storage}
    (writes : ∀ s s', f s = .ok s' → R s s') : Preserves R (storageWrite f) :=
  Preserves.write fun s s' wrote => writes s s' (mapError_eq_ok.mp wrote)

theorem dropEdits_archivesNothing : Preserves ArchivesNothing (dropEdits mine) := by
  induction mine with
  | nil => exact .pure _
  | cons _ _ ih =>
    refine .bind Preserves.get fun s => ?_
    refine .bind (storageWrite_preserves fun s s' ran => ?_) fun _ => ?_
    · obtain ⟨_, -, same⟩ := bind_eq_ok.mp ran
      cases same
      exact List.Subset.refl _
    · exact .bind ih fun _ => Preserves.pure _

theorem releaseItems_archivesNothing : Preserves ArchivesNothing (releaseItems theirs) := by
  induction theirs with
  | nil => exact .pure _
  | cons _ _ ih =>
    refine .bind Preserves.get fun s => Preserves.ite ?_ ih
    refine .bind (Preserves.modify fun s => List.Subset.refl _) fun _ => ?_
    exact .bind ih fun _ => Preserves.pure _

theorem settleHistory_archivesNothing : Preserves ArchivesNothing (settleHistory held dropped) := by
  induction dropped with
  | nil => exact .pure _
  | cons _ _ ih =>
    apply Preserves.ite
    · refine .bind (Preserves.read _) fun restored => ?_
      exact .bind (storageWrite_preserves fun _ _ deleted =>
        (deleteItemHistoryAbove_fewer deleted).2) fun _ => ih
    · refine .bind (Preserves.modify fun s =>
        (clearItemHistory_leavesItems s _ _).history) fun _ => ?_
      exact .bind ih fun _ => Preserves.pure _

variable {P : Primitives} {ctx : SyncContext} {pulled : List (UInt64 × SyncObject)}

/-- The transaction leaves no edit waiting. -/
theorem replaceEdits_spares
    (ran : (replaceEdits P ctx vaultId pulled mine theirs).run s = .ok out s') :
    Spares (Buries pulled) s s' := by
  obtain ⟨dropped, afterDrop, ranDrop, ran⟩ := bind_run_ok ran
  obtain ⟨_, afterRelease, ranRelease, ran⟩ := bind_run_ok ran
  obtain ⟨_, afterPull, ranPull, ran⟩ := bind_run_ok ran
  obtain ⟨_, settled, ranSettle, ran⟩ := bind_run_ok ran
  obtain ⟨_, saved, wrote, ran⟩ := bind_run_ok ran
  obtain rfl : saved = s' := by
    cases ran
    rfl
  have onlyMeta := saveRemembered_onlyMeta (writeM_run_ok wrote)
  obtain ⟨events, processed, trace⟩ : ∃ events, ProcessedFrom pulled events ∧
      PullTrace P ctx afterRelease events afterPull := by
    have left : finalState ((applyPulledObjects P ctx pulled).run afterRelease) = afterPull := by
      rw [ranPull, finalState_ok]
    exact left ▸ applyPulledObjects_trace
  have beforePull : afterRelease.itemHistory ⊆ s.itemHistory :=
    IsTrans.trans (r := ArchivesNothing) _ _ _ (dropEdits_archivesNothing.of_ok ranDrop)
      (releaseItems_archivesNothing.of_ok ranRelease)
  have settles : settled.itemHistory ⊆ afterPull.itemHistory :=
    settleHistory_archivesNothing.of_ok ranSettle
  rw [onlyMeta]
  constructor
  · rw [trace.history] at settles
    exact List.Subset.trans settles beforePull
  · intro spares live
    have liveDropped : afterDrop.LiveBut (Dropped dropped) := by
      intro r member
      simpa using dropEdits_liveBut ranDrop (liveBut_iff.mpr live) r member
    have liveReleased := releaseItems_liveBut ranRelease liveDropped
    have livePulled := trace.liveBut processed
      (fun vaultId itemId buried r member => spares vaultId itemId buried r (beforePull member))
      liveReleased
    have liveSettled : settled.HistoryLive := settleHistory_live ranSettle livePulled
    exact liveSettled

/-- A relation between the storages of two pushes. -/
def OnStorage {τ : Type} (R : Storage → Storage → Prop) (push push' : Push τ) : Prop :=
  R push.storage push'.storage

instance {τ : Type} {R : Storage → Storage → Prop} [Std.Refl R] :
    Std.Refl (OnStorage R : Push τ → Push τ → Prop) :=
  ⟨fun _ => Std.Refl.refl (r := R) _⟩
instance {τ : Type} {R : Storage → Storage → Prop} [IsTrans Storage R] :
    IsTrans (Push τ) (OnStorage R) :=
  ⟨fun _ _ _ first second => IsTrans.trans (r := R) _ _ _ first second⟩

theorem onStorage_preserves {τ α : Type} {x : SyncM α} (preserves : Preserves R x) :
    Preserves (OnStorage R : Push τ → Push τ → Prop) (onStorage x) := by
  intro push
  have stored := preserves push.storage
  change R push.storage (finalState (x push.storage)) at stored
  change R push.storage (finalState (onStorage x push)).storage
  unfold onStorage
  cases ran : x push.storage with
  | ok => simpa [ran] using stored
  | error => simpa [ran] using stored

theorem Settles.spares {dead : Bytes → Bytes → Prop} (settles : Settles s s') :
    Spares dead s s' := by
  refine ⟨settles.history ▸ List.Subset.refl _, fun _ live => ?_⟩
  exact liveBut_iff.mp ((liveBut_iff.mpr live).pointwise settles.sameLife
    (settles.history ▸ List.Subset.refl _))

theorem discardUnpushable_spares {τ : Type} (T : SyncTransport τ) (ctx : SyncContext)
    (vaultId : Bytes) {serverCopy : List Bytes} (read : readServerCopy 0 serverCopy = .ok pulled) :
    Preserves (OnStorage (Spares (Buries pulled)))
      (discardUnpushable P T ctx vaultId serverCopy) := by
  intro push
  refine Preserves.read_bind fun pulled' read' => ?_
  cases read.symm.trans read'
  refine (?_ : Preserves (OnStorage (Spares (Buries pulled))) _) push
  refine .bind (fun push => ?_) fun _ => ?_
  · rw [Push.write_run]
    split
    · next saved => exact (Settles.of_onlyMeta (saveRemembered_onlyMeta saved)).spares
    · exact Std.Refl.refl push
  · refine .bind (fun push => ?_) fun report => ?_
    · exact (runPush_pushes P T ctx.tenant _ _ push).settles.spares
    · exact onStorage_preserves (Preserves.transaction_of_ok fun _ _ _ => replaceEdits_spares)

end Discard

/-! ## Runs of a device -/

/-- What a device does to its storage. -/
inductive DeviceAction : Type 1 where
  | operate (op : LocalOperation) (whole : op.Whole)
  | push (tenant : Bytes) (own : Option Bytes) (accountWide : Bool) {τ : Type}
      (T : SyncTransport τ) (t : τ)
  | pull (call : PullCall)
  | discard (ctx : SyncContext) {τ : Type} (T : SyncTransport τ) (t : τ) (vaultId : Bytes)
      (serverCopy : List Bytes)

namespace DeviceAction

/-- The storage an action leaves, returned or failed. -/
def run (P : Primitives) (s : Storage) : DeviceAction → Storage
  | .operate op _ => op.run P s
  | .push tenant own accountWide T t =>
    (finalState ((runPush P T tenant own accountWide).run { storage := s, transport := t })).storage
  | .pull call => call.run P s
  | .discard ctx T t vaultId serverCopy =>
    (finalState ((discardUnpushable P T ctx vaultId serverCopy).run
      { storage := s, transport := t })).storage

/-- The objects an action takes from outside. -/
def objects (P : Primitives) (s : Storage) : DeviceAction → List (UInt64 × SyncObject)
  | .operate _ _ | .push _ _ _ _ _ => []
  | .pull call => call.objects P s
  | .discard _ _ _ _ serverCopy => (readServerCopy 0 serverCopy).toOption.getD []

theorem run_keeps {action : DeviceAction} (spares : SparesArchived s (action.objects P s)) :
    KeepsHistory s (action.run P s) := by
  cases action with
  | operate _ whole => exact LocalOperation.run_keeps P s whole
  | push tenant own accountWide T t =>
    have spares : Spares (fun _ _ => False) s _ := (runPush_pushes P T tenant own accountWide
      { storage := s, transport := t }).settles.spares
    exact spares.keeps fun _ _ => False.elim
  | pull call => exact call.run_keeps spares
  | discard ctx T t vaultId serverCopy =>
    cases read : readServerCopy 0 serverCopy with
    | ok =>
      have discards := discardUnpushable_spares (P := P) T ctx vaultId read
        { storage := s, transport := t }
      refine discards.keeps fun vaultId itemId buried => spares vaultId itemId ?_
      change Buries ((readServerCopy 0 serverCopy).toOption.getD []) vaultId itemId
      rw [read]
      exact buried
    | error e =>
      have unread : (discardUnpushable P T ctx vaultId serverCopy).run
          { storage := s, transport := t } = .error e { storage := s, transport := t } := by
        unfold discardUnpushable
        rw [EStateM.run_bind, readM_run, read]
      change KeepsHistory s (finalState ((discardUnpushable P T ctx vaultId serverCopy).run
        { storage := s, transport := t })).storage
      rw [unread]
      exact fun live => live

end DeviceAction

/-- What a fresh device reaches while no tombstone it is handed is of an item with a history. -/
inductive SparingRun (P : Primitives) : Storage → Prop where
  | fresh : SparingRun P {}
  | act {s : Storage} (before : SparingRun P s) (action : DeviceAction)
      (spares : SparesArchived s (action.objects P s)) : SparingRun P (action.run P s)

variable {P : Primitives}

theorem SparingRun.historyLive (reached : SparingRun P s) : s.HistoryLive := by
  induction reached with
  | fresh => exact nofun
  | act _ action spares ih => exact action.run_keeps spares ih

/-- No archived version outlives its item, and no version of a deleted item can be read. -/
theorem deleted_items_leave_no_history {P : Primitives} {s : Storage} (reached : SparingRun P s) :
    s.checkStaleHistory = [] ∧
      ∀ (vault : Vault) (itemId : Bytes) (version : UInt64), ¬ s.Live vault.vaultId itemId →
        vault.getItemVersion P s itemId version = .ok none := by
  have live := reached.historyLive
  refine ⟨checkStaleHistory_eq_nil.mpr live, fun vault itemId version deleted => ?_⟩
  exact getItemVersion_of_unarchived deleted (live.unarchived deleted)

namespace Sample

/-- The owner's handle of the vault they created. -/
def ownVault : Vault where
  keyset := owner
  vaultId := vaultId
  name := [1]
  vk := List.replicate symmetricKeyLen 0
  version := 1
  keyEpoch := 0
  genesisOwner := ownerKey
  canWrite := true

/-- A vault with an item that was written twice. -/
def edits : List DeviceAction :=
  [.operate (.create owner vaultId [1] .cloud draws) trivial,
    .operate (.putItemKeepHistory ownVault [4] 0 [5] draws) trivial,
    .operate (.putItemKeepHistory ownVault [4] 0 [6] draws) trivial]

def edited : Storage := edits.foldl (DeviceAction.run .transparent) {}

/-- The deletion of the item on this device. -/
def deletion : DeviceAction := .operate (.deleteItem ownVault [4]) trivial

def deleted : Storage := (edits ++ [deletion]).foldl (DeviceAction.run .transparent) {}

/-- The deletion as another device of the account pushed it. -/
def pulledDeletion : DeviceAction :=
  .pull (.applyPulledObjects context
    ((deleted.getItem vaultId [4]).toList.map fun i => (1, .item i)))

end Sample

open Sample

/-- A pulled deletion leaves the item's first version readable. -/
theorem pulled_deletion_leaves_history :
    let s := pulledDeletion.run .transparent edited
    (s.getItem vaultId [4]).map ItemRecord.tombstone = some true ∧
      s.checkStaleHistory.map ConsistencyIssue.itemId = [[4]] ∧
      ownVault.getItemVersion .transparent s [4] 1 =
        .ok (some { itemId := [4], itemType := 0, version := 1, content := [5] }) := by
  decide +kernel

/-- Actions that take nothing from outside are always sparing. -/
theorem SparingRun.alone (reached : SparingRun P s) {actions : List DeviceAction}
    (alone : ∀ action ∈ actions, ∀ s, action.objects P s = []) :
    SparingRun P (actions.foldl (DeviceAction.run P) s) := by
  induction actions generalizing s with
  | nil => exact reached
  | cons action _ ih =>
    refine ih (.act reached action ?_) fun other member => alone other (mem_cons_of_mem _ member)
    rw [alone action mem_cons_self]
    rintro _ _ ⟨_, member, -⟩
    exact (not_mem_nil member).elim

/-- The same item deleted on the device itself. -/
theorem deleted_items_leave_no_history_own :
    (deleted.getItem vaultId [4]).map ItemRecord.tombstone = some true ∧
      deleted.checkStaleHistory = [] ∧
      ownVault.getItemVersion .transparent deleted [4] 1 = .ok none := by
  have deleted : (deleted.getItem vaultId [4]).map ItemRecord.tombstone = some true := rfl
  have kept := deleted_items_leave_no_history (s := Sample.deleted)
    (SparingRun.fresh.alone (by simp [edits, deletion, DeviceAction.objects]))
  refine ⟨deleted, kept.1, kept.2 ownVault [4] 1 ?_⟩
  rintro ⟨row, found, live⟩
  have found : Sample.deleted.items[(vaultId, ([4] : Bytes))]? = some row := found
  rw [Storage.getItem, found] at deleted
  have isDeleted : row.tombstone = true := Option.some.inj deleted
  exact Bool.eq_false_iff.mp live isDeleted

end UniSsh
