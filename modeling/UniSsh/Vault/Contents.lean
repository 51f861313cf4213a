import UniSsh.Vault.Reopened
import Mathlib.Logic.Function.Basic

/-!
# The items of a vault as a map

For whoever may write them, items are a map from ids to contents, and every operation does to what
can be read what it does to the map (`items_refine_map`).
-/

namespace UniSsh

/-- What can be read of each item. -/
abbrev Contents := Bytes → Except VaultError (Option (UInt32 × Bytes))

/-- A key and nonces. -/
abbrev KeyDraws := { draws : Draws //
  (draws 0).length = symmetricKeyLen ∧ ∀ n, (draws (n + 1)).length = nonceLen }

inductive ItemOperation where
  | put (itemId : Bytes) (itemType : UInt32) (content : Bytes) (draws : KeyDraws)
  | putKeepHistory (itemId : Bytes) (itemType : UInt32) (content : Bytes) (draws : KeyDraws)
  | delete (itemId : Bytes)
  | rename (oldId newId : Bytes) (draws : KeyDraws)

/-- The operation on the map. -/
def ItemOperation.apply (m : Contents) : ItemOperation → Contents
  | put itemId itemType content _ | putKeepHistory itemId itemType content _ =>
    Function.update m itemId (.ok (some (itemType, content)))
  | delete itemId => Function.update m itemId (.ok none)
  | rename oldId newId _ =>
    if oldId = newId then m
    else Function.update (Function.update m newId (m oldId)) oldId (.ok none)

section

variable (P : Primitives) (vault : Vault)

/-- The operation on the storage. -/
def ItemOperation.run : ItemOperation → VaultM Unit
  | put itemId itemType content draws => do
    let _ ← vault.putItem P itemId itemType content draws
  | putKeepHistory itemId itemType content draws => do
    let _ ← vault.putItemKeepHistory P itemId itemType content draws
  | delete itemId => vault.deleteItem P itemId
  | rename oldId newId draws => vault.renameItem P oldId newId draws

/-- What is read of an item, but for its version. -/
def Vault.contents (s : Storage) : Contents := fun itemId =>
  (Option.map fun item => (item.itemType, item.content)) <$> vault.getItem P s itemId

/-- Records by the holder of the vault at its epoch are accepted. -/
def Vault.MayWrite (s : Storage) : Prop :=
  verifyRecordAuthority P s vault.vaultId (vault.keyset.verifying P) vault.keyEpoch
    vault.genesisOwner = .ok ()

/-- The items read as the map, for one who may write them. -/
structure Vault.Shows (m : Contents) (s : Storage) : Prop where
  writer : vault.MayWrite P s
  contents : vault.contents P s = m

end

variable {P : Primitives} {vault : Vault} {s s' : Storage} {r : ItemRecord} {itemId content : Bytes}
  {itemType : UInt32} {version : UInt64} {draws : KeyDraws} {m : Contents}

/-- A record that is put and marked is what is read, whatever is archived. -/
theorem Vault.Shows.put (shows : vault.Shows P m s) (ofVault : r.vaultId = vault.vaultId)
    (isItem : r.itemId = itemId) (put : s.putItem r = .ok stored)
    (isStored : s' = { stored.markItemDirty vault.vaultId itemId with itemHistory := history })
    (reads : r.tombstone = true ∧ value = .ok none ∨ r.tombstone = false ∧
      ∃ item, value = .ok (some (item.itemType, item.content)) ∧ ∀ createdAt updatedAt,
        vault.decryptRecord P s { r with createdAt, updatedAt } = .ok item) :
    vault.Shows P (Function.update m itemId value) s' := by
  obtain ⟨frame, ⟨row, written, -, createdAt, updatedAt, isRow⟩, -, others⟩ := putItem_marked put
  rw [ofVault, isItem] at frame written others
  rw [isStored, frame]
  refine ⟨shows.writer, funext fun other => ?_⟩
  rw [← shows.contents]
  unfold Vault.contents Vault.getItem Storage.getItem
  by_cases same : other = itemId
  · subst same
    dsimp only
    rw [Function.update_self, written, Option.map_some, ← ofVault, ← isItem, isRow]
    rcases reads with ⟨deleted, rfl⟩ | ⟨live, item, rfl, read⟩
    · simp [deleted]
    · simp only [live, Bool.false_eq_true, if_false]
      exact congrArg (fun x => Option.map _ <$> some <$> x) (read createdAt updatedAt)
  · rw [Function.update_of_ne same]
    dsimp only
    rw [others _ fun sameKey => same (Prod.mk.inj sameKey).2]
    rfl

/-- Whoever may write at the vault's epoch reads what they sealed. -/
theorem Vault.Shows.sealItem (shows : vault.Shows P m s)
    (sealed : vault.sealItem P itemId itemType content version draws = .ok r)
    (put : s.putItem r = .ok stored)
    (isStored : s' = { stored.markItemDirty vault.vaultId itemId with itemHistory := history }) :
    vault.Shows P (Function.update m itemId (.ok (some (itemType, content)))) s' := by
  obtain ⟨ofVault, isItem, -, live, owned⟩ := sealItem_owned sealed
  refine shows.put ofVault isItem put isStored (.inr ⟨live, ?_⟩)
  obtain ⟨_, wrapped, sealed⟩ := bind_eq_ok.mp sealed
  obtain ⟨_, encrypted, sealed⟩ := bind_eq_ok.mp sealed
  obtain ⟨_, -, sealed⟩ := bind_eq_ok.mp sealed
  cases sealed
  refine ⟨{ itemId, itemType, version, content }, rfl, fun _ _ => (decryptRecord_eq_ok rfl).mpr
    ⟨owned.signed, shows.writer, content, ⟨draws.1 0, ?_, ?_⟩, rfl⟩⟩
  · exact unwrapKeyCompat_wrapKey (draws.2.2 0) draws.2.1 (mapError_eq_ok.mp wrapped)
  · exact aeadDecryptCompat_aeadEncrypt (draws.2.2 1) (mapError_eq_ok.mp encrypted)

theorem Vault.Shows.tombstone (shows : vault.Shows P m s)
    (made : vault.tombstoneRecord P itemId itemType version = .ok r)
    (put : s.putItem r = .ok stored)
    (isStored : s' = { stored.markItemDirty vault.vaultId itemId with itemHistory := history }) :
    vault.Shows P (Function.update m itemId (.ok none)) s' := by
  obtain ⟨ofVault, isItem, -, deleted, -⟩ := signedItem_owned made
  exact shows.put ofVault isItem put isStored (.inl ⟨deleted, rfl⟩)

theorem Vault.Shows.putItem (shows : vault.Shows P m s)
    (ran : (vault.putItem P itemId itemType content draws).run s = .ok version s') :
    vault.Shows P (Function.update m itemId (.ok (some (itemType, content)))) s' := by
  obtain ⟨_, -, ran⟩ := read_bind_ok ran
  obtain ⟨_, -, ran⟩ := read_bind_ok ran
  obtain ⟨_, sealed, ran⟩ := read_bind_ok ran
  obtain ⟨_, _, wrote, ran⟩ := bind_run_ok ran
  cases ran
  exact shows.sealItem sealed (vaultWrite_run_ok wrote) rfl

theorem Vault.Shows.renameItem {oldId newId : Bytes} (shows : vault.Shows P m s)
    (ran : (vault.renameItem P oldId newId draws).run s = .ok () s') :
    vault.Shows P ((ItemOperation.rename oldId newId draws).apply m) s' := by
  unfold Vault.renameItem at ran
  simp only [ItemOperation.apply]
  split at ran
  · next same =>
    cases ran
    rw [if_pos same]
    exact shows
  · next differ =>
    rw [if_neg differ]
    obtain ⟨_, -, ran⟩ := read_bind_ok ran
    obtain ⟨_, -, ran⟩ := read_bind_ok ran
    obtain ⟨item, read, ran⟩ := read_bind_ok ran
    obtain ⟨_, _, moved, ran⟩ := bind_run_ok (transaction_run_ok ran)
    obtain ⟨_, -, ran⟩ := read_bind_ok ran
    obtain ⟨_, made, ran⟩ := read_bind_ok ran
    obtain ⟨_, _, wrote, ran⟩ := bind_run_ok ran
    cases ran
    have old : m oldId = .ok (some (item.itemType, item.content)) := by
      obtain ⟨found, isFound, read⟩ := bind_eq_ok.mp read
      rw [← shows.contents, Vault.contents, isFound]
      cases found with
      | none => cases read
      | some =>
        cases read
        rfl
    rw [old]
    exact (shows.putItem moved).tombstone made (vaultWrite_run_ok wrote) rfl

/-- An operation on items that returns does to them what it does to the map. -/
theorem Vault.Shows.run {op : ItemOperation} (shows : vault.Shows P m s)
    (ran : (op.run P vault).run s = .ok () s') : vault.Shows P (op.apply m) s' := by
  cases op with
  | put =>
    obtain ⟨_, _, ran, returned⟩ := bind_run_ok ran
    cases returned
    exact shows.putItem ran
  | putKeepHistory itemId =>
    obtain ⟨_, _, ran, returned⟩ := bind_run_ok ran
    cases returned
    obtain ⟨_, -, ran⟩ := read_bind_ok ran
    obtain ⟨_, -, ran⟩ := read_bind_ok ran
    obtain ⟨r, sealed, ran⟩ := read_bind_ok ran
    obtain ⟨_, mid, wrote, ran⟩ := bind_run_ok ran
    cases ran
    obtain ⟨stored, put, isStored, -⟩ := archiveAndPut_eq_ok (vaultWrite_run_ok wrote)
    obtain ⟨-, isItem, -⟩ := sealItem_owned sealed
    have marked : mid.markItemDirty vault.vaultId r.itemId =
        { stored.markItemDirty vault.vaultId itemId with itemHistory := mid.itemHistory } := by
      rw [isStored, isItem]
      rfl
    exact shows.sealItem sealed put marked
  | delete =>
    obtain ⟨_, -, ran⟩ := read_bind_ok ran
    obtain ⟨_, -, ran⟩ := read_bind_ok ran
    obtain ⟨_, -, ran⟩ := read_bind_ok ran
    obtain ⟨_, made, ran⟩ := read_bind_ok ran
    obtain ⟨_, _, wrote, ran⟩ := bind_run_ok ran
    cases ran
    obtain ⟨_, put, cleared⟩ := bind_eq_ok.mp (vaultWrite_run_ok wrote)
    cases cleared
    exact shows.tombstone made put rfl
  | rename => exact shows.renameItem ran

/-- Whatever a writer does to the items of a vault, they read as a map to which it was done. -/
theorem items_refine_map {ops : List ItemOperation} (writer : vault.MayWrite P s)
    (ran : (ops.forM (ItemOperation.run P vault)).run s = .ok () s') :
    vault.contents P s' = ops.foldl ItemOperation.apply (vault.contents P s) := by
  have shows : vault.Shows P (vault.contents P s) s := ⟨writer, rfl⟩
  generalize vault.contents P s = m at shows ⊢
  induction ops generalizing s m with
  | nil =>
    cases ran
    exact shows.contents
  | cons op ops ih =>
    obtain ⟨_, _, first, ran⟩ := bind_run_ok ran
    have next := shows.run first
    exact ih next.writer ran _ next

open Sample List in
/-- A note written, moved to another id and edited there. -/
theorem moved_note_reads_back :
    let draws : KeyDraws := ⟨fun n => replicate (if n = 0 then symmetricKeyLen else nonceLen) 0,
      length_replicate, fun _ => length_replicate⟩
    let ops := [.put [4] 0 [5] draws, .rename [4] [7] draws, .putKeepHistory [7] 0 [6] draws]
    ∃ s', (ops.forM (ItemOperation.run .transparent soloVault)).run {} = .ok () s' ∧
      soloVault.contents .transparent s' [4] = .ok none ∧
      soloVault.contents .transparent s' [7] = .ok (some (0, [6])) := by
  intro draws ops
  obtain ⟨_, s', ran⟩ := exists_of_isOk
    (show (valueOf ((ops.forM (ItemOperation.run .transparent soloVault)).run {})).isOk = true by
      decide +kernel)
  have writer : soloVault.MayWrite .transparent {} := by
    unfold Vault.MayWrite
    decide +kernel
  have refined := items_refine_map writer ran
  exact ⟨s', ran, congrFun refined [4], congrFun refined [7]⟩

end UniSsh
