import UniSsh.Sync.Push

/-!
# Discarding edits no push delivers

`discardUnpushable` pushes once more and then replaces the own edits this push could not deliver
with the server's copy, in one transaction.
-/

namespace UniSsh

/-- Whether the row is still the named edit that was not pushed. -/
def Storage.isUnpushedItem (s : Storage) (vaultId itemId : Bytes) (version : UInt64)
    (authorPubkey : Bytes) : Bool :=
  s.items[(vaultId, itemId)]?.any fun row =>
    row.dirty ∧ row.version.toU64 = version ∧ row.authorPubkey = authorPubkey

/-- What `discardUnpushable` did. -/
structure Discarded where
  dropped : List Unpushable
  /-- The dropped edits whose item the server holds nothing of. -/
  removed : List Unpushable
  /-- Other members' items that are no longer sent. -/
  released : List Unpushable
  pulled : SyncReport

/-- The server's copy of a vault, numbered from one; every object must parse. -/
def readServerCopy : UInt64 → List Bytes → Except SyncError (List (UInt64 × SyncObject))
  | _, [] => .ok []
  | seq, blob :: rest => do
    let seq := saturatingSucc seq
    match SyncObject.fromBytes blob with
    | .error _ => .error .serverCopyUnreadable
    | .ok object => do
      let others ← readServerCopy seq rest
      .ok ((seq, object) :: others)

/-- The items of a vault among the objects. -/
def heldItems (vaultId : Bytes) (pulled : List (UInt64 × SyncObject)) : List Bytes :=
  pulled.filterMap fun entry => match entry.2 with
    | .item it => if it.vaultId = vaultId then some it.itemId else none
    | _ => none

/-- Deletes the edits that are still what the push could not deliver. -/
def dropEdits : List Unpushable → SyncM (List Unpushable)
  | [] => pure []
  | u :: rest => do
    let s ← get
    let isEdit := s.isUnpushedItem u.vaultId u.itemId u.version u.authorPubkey
    storageWrite fun s => s.discardUnpushedItem u.vaultId u.itemId u.version u.authorPubkey
    let others ← dropEdits rest
    pure (if isEdit then u :: others else others)

/-- Stops sending other members' items that are unchanged. -/
def releaseItems : List Unpushable → SyncM (List Unpushable)
  | [] => pure []
  | u :: rest => do
    let s ← get
    let unchanged := (s.getItem u.vaultId u.itemId).any fun it =>
      it.version = u.version ∧ it.authorPubkey = u.authorPubkey
    if unchanged then do
      modify fun s => s.clearItemDirty u.vaultId u.itemId
      let others ← releaseItems rest
      pure (u :: others)
    else releaseItems rest

/-- Takes archived versions of dropped edits back; gives the edits the server has nothing of. -/
def settleHistory (held : List Bytes) : List Unpushable → SyncM (List Unpushable)
  | [] => pure []
  | u :: rest =>
    if u.itemId ∈ held then do
      let restored ← readM fun s => match s.getItem u.vaultId u.itemId with
        | some restored => .ok restored
        | none => .error .notRestored
      storageWrite fun s => s.deleteItemHistoryAbove u.vaultId u.itemId restored.version
      settleHistory held rest
    else do
      modify fun s => s.clearItemHistory u.vaultId u.itemId
      let removed ← settleHistory held rest
      pure (u :: removed)

/-- The transaction of `discardUnpushable`. -/
def replaceEdits (P : Primitives) (ctx : SyncContext) (vaultId : Bytes)
    (pulled : List (UInt64 × SyncObject)) (mine theirs : List Unpushable) : SyncM Discarded := do
  let dropped ← dropEdits mine
  let released ← releaseItems theirs
  let report ← applyPulledObjects P ctx pulled
  let removed ← settleHistory (heldItems vaultId pulled) dropped
  let key := pushForbiddenKey ctx.tenant
  let settled (r : Unpushable) : Bool :=
    (dropped ++ released).any fun u => u.vaultId = r.vaultId ∧ u.itemId = r.itemId
  writeM fun s => saveForbidden key ((loadForbidden s key).filter fun r => !settled r) s
  pure { dropped, removed, released, pulled := report }

section Discard

variable {τ : Type}

/-- A computation on the storage in the middle of a push. -/
def onStorage {α : Type} (x : SyncM α) : PushM τ α := fun push =>
  match x push.storage with
  | .ok a storage => .ok a { push with storage }
  | .error e storage => .error e { push with storage }

/-- Replaces the account's edits in a vault that no push delivers with the server's copy. -/
def discardUnpushable (P : Primitives) (T : SyncTransport τ) (ctx : SyncContext)
    (vaultId : Bytes) (serverCopy : List Bytes) : PushM τ Discarded := do
  let pulled ← readM fun _ => readServerCopy 0 serverCopy
  let key := pushForbiddenKey ctx.tenant
  -- Nothing is dropped on an old word.
  Push.write fun s => saveForbidden key ((loadForbidden s key).filter fun u => u.vaultId ≠ vaultId) s
  let report ← syncPushVaultDataAs P T ctx
  let ofVault := report.unpushable.filter fun u => u.vaultId = vaultId
  let (mine, theirs) := ofVault.partition fun u => u.authorPubkey = ctx.genesisOwner
  onStorage (transaction (replaceEdits P ctx vaultId pulled mine theirs))

end Discard

end UniSsh
