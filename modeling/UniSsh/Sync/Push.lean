import UniSsh.Sync.Pull

/-!
# Pushing

`runPush` hands what a server is missing to the transport, request by request, and settles each
accepted part at once. A refused part is halved until the object is alone; an item is then left
out and remembered, anything else stops the push. The state records the requests handed over.
-/

namespace UniSsh

open List

/-! ## Reports -/

/-- An item the server refused as too large. -/
structure TooLarge where
  vaultId : Bytes
  itemId : Bytes
  itemType : UInt32
  version : UInt64
  /-- Size of the encoded object. -/
  bytes : UInt64
  deriving DecidableEq

/-- Why a push leaves a dirty item out. -/
inductive UnpushableReason where
  | notAuthorized
  | serverRefused
  deriving DecidableEq

/-- An item no push can deliver. -/
structure Unpushable where
  vaultId : Bytes
  itemId : Bytes
  itemType : UInt32
  version : UInt64
  authorPubkey : Bytes
  reason : UnpushableReason
  deriving DecidableEq

namespace Unpushable

def new (head : ItemVersion) (reason : UnpushableReason) : Unpushable where
  vaultId := head.vaultId
  itemId := head.itemId
  itemType := head.itemType
  version := head.version
  authorPubkey := head.authorPubkey
  reason := reason

/-- Whether this names `head`'s current version. -/
def is (u : Unpushable) (head : ItemVersion) : Bool :=
  u.vaultId = head.vaultId ∧ u.itemId = head.itemId ∧ u.version = head.version

end Unpushable

/-- Push report. -/
structure PushReport where
  pushed : Nat
  tooLarge : List TooLarge
  unpushable : List Unpushable

/-! ## Remembered refusals -/

def readRefused (b : Bytes) : Except SyncError (TooLarge × Bytes) := do
  let (vaultId, b) ← Reader.bytes b
  let (itemId, b) ← Reader.bytes b
  let (itemType, b) ← Reader.number 4 b
  let (version, b) ← Reader.number 8 b
  let (bytes, b) ← Reader.number 8 b
  .ok (⟨vaultId, itemId, .ofNat itemType, .ofNat version, .ofNat bytes⟩, b)

def readForbidden (b : Bytes) : Except SyncError (Unpushable × Bytes) := do
  let (vaultId, b) ← Reader.bytes b
  let (itemId, b) ← Reader.bytes b
  let (itemType, b) ← Reader.number 4 b
  let (version, b) ← Reader.number 8 b
  let (authorPubkey, b) ← Reader.bytes b
  .ok (⟨vaultId, itemId, .ofNat itemType, .ofNat version, authorPubkey, .serverRefused⟩, b)

/-- A remembered list; a value that does not parse counts as empty. -/
def loadRemembered {α : Type} (entry : Bytes → Except SyncError (α × Bytes)) (s : Storage)
    (key : Bytes) : List α :=
  match s.getMeta key with
  | none => []
  | some bytes => (Reader.all entry bytes.length bytes).toOption.getD []

def loadRefused : Storage → Bytes → List TooLarge := loadRemembered readRefused

def loadForbidden : Storage → Bytes → List Unpushable := loadRemembered readForbidden

def writeRefused (r : TooLarge) : List (Except SyncError Bytes) :=
  [putBytes r.vaultId, putBytes r.itemId, .ok (beBytes 4 r.itemType.toNat),
    .ok (beBytes 8 r.version.toNat), .ok (beBytes 8 r.bytes.toNat)]

def writeForbidden (r : Unpushable) : List (Except SyncError Bytes) :=
  [putBytes r.vaultId, putBytes r.itemId, .ok (beBytes 4 r.itemType.toNat),
    .ok (beBytes 8 r.version.toNat), putBytes r.authorPubkey]

/-- Remembers a list, each entry given by its encoded fields. -/
def saveRemembered {α : Type} (fields : α → List (Except SyncError Bytes)) (key : Bytes)
    (refused : List α) (s : Storage) : Except SyncError Storage := do
  let written ← (refused.flatMap fields).mapM id
  .ok (s.setMeta key written.flatten)

def saveRefused : Bytes → List TooLarge → Storage → Except SyncError Storage :=
  saveRemembered writeRefused

def saveForbidden : Bytes → List Unpushable → Storage → Except SyncError Storage :=
  saveRemembered writeForbidden

/-! ## A push in progress -/

/-- What settles an object once the transport accepted it. -/
inductive Sent where
  /-- A dirty-flagged row: the flag is cleared. -/
  | dirty
  /-- An account state: the version cursor moves once all are sent. -/
  | account
  /-- An audit entry with this local sequence number: the push cursor moves to it. -/
  | audit (seq : Nat)
  deriving DecidableEq

/-- An object of a request. -/
structure Outgoing where
  object : SyncObject
  sent : Sent
  deriving DecidableEq

/-- What is still to send. Items are queued by id and read when their request is built. -/
inductive Queued where
  | loaded (outgoing : Outgoing)
  | item (vaultId itemId : Bytes)
  deriving DecidableEq

/-- The queued object; an item that is no longer in storage has nothing to send. -/
def Queued.load (s : Storage) : Queued → Option Outgoing
  | loaded outgoing => some outgoing
  | item vaultId itemId =>
    (s.getItem vaultId itemId).map fun i => { object := .item i, sent := .dirty }

/-- The state of a push; `handed` are the requests handed to the transport, oldest first. -/
structure Push (τ : Type) where
  storage : Storage
  transport : τ
  handed : List (List SyncObject) := []
  tooLarge : List TooLarge := []
  unpushable : List Unpushable := []
  /-- Queued account states the server has not accepted yet. -/
  acctLeft : Nat := 0
  /-- The highest queued account-state version, until the cursor moved to it. -/
  acctVersion : Option UInt64 := none

abbrev PushM (τ : Type) := EStateM SyncError (Push τ)

section Push

variable {τ : Type}

/-- A write to the storage by a push. -/
def Push.write (f : Storage → Except SyncError Storage) : PushM τ Unit :=
  writeM fun push => (f push.storage).map fun storage => { push with storage }

def setCursor (key : Bytes) (v : UInt64) : PushM τ Unit :=
  Push.write fun s => (s.setSyncCursor key v).mapError .storage

/-! ## Queueing -/

/-- Whether a dirty item's author may write it; without the account's own key every item passes. -/
def mayWrite (P : Primitives) (s : Storage) (own : Option Bytes) (head : ItemVersion) :
    Except SyncError Bool :=
  match own with
  | none => .ok true
  | some own =>
    match verifyRecordAuthority P s head.vaultId head.authorPubkey head.keyEpoch
        (anchorOf s head.vaultId own) with
    | .ok () => .ok true
    -- Not being able to read the database says nothing about the item.
    | .error (.storage e) => .error (.vault (.storage e))
    | .error _ => .ok false

/-- Sorts the dirty items; one refused before, or of an author who may not write, is reported. -/
def queueItems (P : Primitives) (own : Option Bytes) (remembered : List TooLarge)
    (forbidden : List Unpushable) : List ItemVersion → PushM τ (List Queued)
  | [] => pure []
  | head :: rest => do
    let known := remembered.find? fun r =>
      r.vaultId = head.vaultId ∧ r.itemId = head.itemId ∧ r.version = head.version
    match known, forbidden.find? (·.is head) with
    | some r, _ => do
      modify fun push => { push with tooLarge := push.tooLarge ++ [r] }
      queueItems P own remembered forbidden rest
    | none, some f => do
      modify fun push => { push with unpushable := push.unpushable ++ [f] }
      queueItems P own remembered forbidden rest
    | none, none => do
      let allowed ← readM fun push => mayWrite P push.storage own head
      if allowed then do
        let others ← queueItems P own remembered forbidden rest
        pure (.item head.vaultId head.itemId :: others)
      else do
        modify fun push =>
          { push with unpushable := push.unpushable ++ [.new head .notAuthorized] }
        queueItems P own remembered forbidden rest

/-- This push's items the server refused as not permitted. -/
def serverRefused (unpushable : List Unpushable) : List Unpushable :=
  unpushable.filter fun u => u.reason = .serverRefused

/-- Rewrites the remembered lists where an entry's item was edited, deleted or pushed since. -/
def forgetSettled (tenant : Bytes) (remembered : List TooLarge) (forbidden : List Unpushable) :
    PushM τ Unit := do
  let push ← get
  Push.write fun s =>
    if push.tooLarge ≠ remembered then saveRefused (pushRefusedKey tenant) push.tooLarge s
    else .ok s
  Push.write fun s =>
    if serverRefused push.unpushable ≠ forbidden then
      saveForbidden (pushForbiddenKey tenant) (serverRefused push.unpushable) s
    else .ok s

variable (s : Storage) (tenant : Bytes)

/-- The objects items depend on: manifests, then vault records, then grants. -/
def beforeItems : List Queued :=
  let dirty (object : SyncObject) : Queued := .loaded { object, sent := .dirty }
  (s.listDirtyBoundManifests tenant).map (fun m => dirty (.membershipManifest m)) ++
    (s.listDirtyBoundVaults tenant).map (fun v => dirty (.vault v)) ++
    (s.listDirtyBoundGrants tenant).map fun g => dirty (.membershipGrant g)

/-- Collects the vault data the tenant's server is missing, in the order it must receive it. -/
def queueVaultData (P : Primitives) (tenant : Bytes) (own : Option Bytes) :
    PushM τ (List Queued) := do
  let s := (← get).storage
  let remembered := loadRefused s (pushRefusedKey tenant)
  let forbidden := loadForbidden s (pushForbiddenKey tenant)
  let items ← queueItems P own remembered forbidden (s.listDirtyBoundItemVersions tenant)
  forgetSettled tenant remembered forbidden
  pure (beforeItems s tenant ++ items)

/-- The account states above the tenant's version cursor. -/
def newAccountStates : List AccountStateRecord :=
  s.listAccountStates.filter fun st =>
    (s.getSyncCursor (acctPushCursorKey tenant)).getD 0 < st.version

/-- The audit entries above the tenant's push cursor. -/
def newAuditEntries : List AuditEntry :=
  s.listAudit ((s.getSyncCursor (pushCursorKey tenant)).getD 0)

def accountOutgoing (st : AccountStateRecord) : Outgoing where
  object := .accountState
    { authorPubkey := st.authorPubkey, version := st.version, payload := st.payload,
      signature := st.signature }
  sent := .account

/-- A stored audit entry has no vault id, so that an empty one is sent. -/
def auditOutgoing (entry : AuditEntry) : Outgoing where
  object := .audit
    { vaultId := [], entryBlob := entry.entryBlob, signature := entry.signature,
      authorPubkey := entry.authorPubkey }
  sent := .audit entry.seq

/-- The account states and audit entries the tenant's server is missing. -/
def accountQueue : List Queued :=
  (newAccountStates s tenant).map (fun st => .loaded (accountOutgoing st)) ++
    (newAuditEntries s tenant).map fun entry => .loaded (auditOutgoing entry)

/-- Counts queued account states of these versions as not accepted yet. -/
def Push.expect (push : Push τ) (versions : List UInt64) : Push τ :=
  { push with
    acctLeft := push.acctLeft + versions.length
    acctVersion := versions.foldl (fun highest version => max highest (some version))
      push.acctVersion }

/-- Collects what the tenant's server is missing of the objects that belong to the account. -/
def queueAccountWide : PushM τ (List Queued) := do
  let push ← get
  set (push.expect ((newAccountStates push.storage tenant).map AccountStateRecord.version))
  pure (accountQueue push.storage tenant)

/-! ## Settling -/

/-- Clears the dirty flag of one pushed object. -/
def clearDirty : SyncObject → Except StorageError Storage
  | .vault v => .ok (s.clearVaultDirty v.vaultId)
  | .item i => .ok (s.clearItemDirty i.vaultId i.itemId)
  | .membershipManifest m => s.clearManifestDirty m.vaultId m.keyEpoch
  | .membershipGrant g => s.clearGrantDirty g.vaultId g.memberPubkey g.keyEpoch
  | .audit _ => .ok s
  | .keyset _ => .ok s
  | .accountState _ => .ok s

def settleOne (outgoing : Outgoing) : Except StorageError Storage :=
  match outgoing.sent with
  | .dirty => clearDirty s outgoing.object
  | .account => .ok s
  | .audit _ => .ok s

/-- The sequence number of the last audit entry of a part, its highest. -/
def lastAudit (part : List Outgoing) : Option Nat :=
  (part.filterMap fun outgoing =>
    match outgoing.sent with
    | .audit seq => some seq
    | .dirty => none
    | .account => none).getLast?

/-- Moves the account-state cursor once every queued account state is on the server. -/
def settleAccounts (accounts : Nat) : PushM τ Unit := do
  modify fun push => { push with acctLeft := push.acctLeft - accounts }
  let push ← get
  match push.acctVersion with
  | some version =>
    if push.acctLeft = 0 then do
      modify fun push => { push with acctVersion := none }
      setCursor (acctPushCursorKey tenant) version
    else pure ()
  | none => pure ()

/-- Moves the audit cursor to the last audit entry of a part. -/
def settleAudit (part : List Outgoing) : PushM τ Unit :=
  match lastAudit part with
  | some seq => setCursor (pushCursorKey tenant) (.ofNat seq)
  | none => pure ()

/-- The transport accepted `part`: clears its dirty flags and advances the cursors. -/
def settle (part : List Outgoing) : PushM τ Unit := do
  Push.write fun s => (part.foldlM settleOne s).mapError .storage
  settleAudit tenant part
  settleAccounts tenant (part.countP fun outgoing => outgoing.sent = .account)

/-! ## Sending -/

/-- Hands a request to the transport. -/
def handOver (T : SyncTransport τ) (objects : List SyncObject) :
    PushM τ (Except SyncError (List UInt64)) := fun push =>
  let answer := T.pushObjects push.transport objects
  .ok answer.1 { push with transport := answer.2, handed := push.handed ++ [objects] }

/-- The server will not take the object even alone. -/
def refuse (tenant : Bytes) : List Outgoing → PushM τ Unit
  | { object := .item it, sent := _ } :: _ => do
    let entry : TooLarge :=
      { vaultId := it.vaultId, itemId := it.itemId, itemType := it.itemType,
        version := it.version, bytes := .ofNat (SyncObject.item it).encodedLen }
    modify fun push => { push with tooLarge := push.tooLarge ++ [entry] }
    let push ← get
    Push.write (saveRefused (pushRefusedKey tenant) push.tooLarge)
  | _ => throw .payloadTooLarge

/-- The server does not permit the object even alone. -/
def forbid (tenant : Bytes) : List Outgoing → PushM τ Unit
  | { object := .item it, sent := _ } :: _ => do
    let entry : Unpushable :=
      { vaultId := it.vaultId, itemId := it.itemId, itemType := it.itemType,
        version := it.version, authorPubkey := it.authorPubkey, reason := .serverRefused }
    modify fun push => { push with unpushable := push.unpushable ++ [entry] }
    let push ← get
    Push.write (saveForbidden (pushForbiddenKey tenant) (serverRefused push.unpushable))
  | _ => throw .forbidden

/-- A refusal that is about single objects of a request. -/
def SyncError.singlesOut : SyncError → Bool
  | .payloadTooLarge => true
  | .forbidden => true
  | _ => false

/-- Sends one part of a request, a refused part of several objects again in halves. -/
def sendPart (T : SyncTransport τ) (tenant : Bytes) (part : List Outgoing) : PushM τ Nat := do
  match ← handOver T (part.map Outgoing.object) with
  | .ok _ => do
    settle tenant part
    pure part.length
  | .error e =>
    if _several : e.singlesOut = true ∧ 1 < part.length then do
      let first ← sendPart T tenant (part.take (part.length / 2))
      let second ← sendPart T tenant (part.drop (part.length / 2))
      pure (first + second)
    else
      match e with
      | .payloadTooLarge => do
        refuse tenant part
        pure 0
      | .forbidden => do
        forbid tenant part
        pure 0
      | e => throw e
termination_by part.length
decreasing_by
  · rw [length_take]
    omega
  · rw [length_drop]
    omega

def pushBatchMaxObjects : Nat := 500
def pushBatchMaxBytes : Nat := 1024 * 1024

/-- Encoded bytes of a request. -/
def requestBytes (request : List Outgoing) : Nat :=
  (request.map fun outgoing => outgoing.object.encodedLen).sum

/-- Whether an object still goes into a request; a request of one object is never too large. -/
def fits (request : List Outgoing) (outgoing : Outgoing) : Bool :=
  request = [] ∨ (request.length < pushBatchMaxObjects ∧
    requestBytes request + outgoing.object.encodedLen ≤ pushBatchMaxBytes)

/-- Fills a request from the queue; the object that did not fit opens the next one. -/
def fill (s : Storage) (request : List Outgoing) : List Queued → List Outgoing × List Queued
  | [] => (request, [])
  | queued :: rest =>
    match queued.load s with
    | none => fill s request rest
    | some outgoing =>
      if fits request outgoing then fill s (request ++ [outgoing]) rest
      else (request, .loaded outgoing :: rest)

/-- Filling takes objects off the queue, one for each that enters the request at least. -/
theorem fill_length (request : List Outgoing) (queue : List Queued) :
    (fill s request queue).1.length + (fill s request queue).2.length ≤
      request.length + queue.length := by
  induction queue generalizing request with
  | nil => simp [fill]
  | cons _ _ ih =>
    unfold fill
    split
    · have filled := ih request
      simp only [length_cons]
      omega
    · next outgoing _ =>
      split
      · have filled := ih (request ++ [outgoing])
        simp only [length_append, length_cons, length_nil] at filled ⊢
        omega
      · simp

/-- Sends the queue, request by request; gives how many objects were accepted. -/
def send (T : SyncTransport τ) (tenant : Bytes) (queue : List Queued) (push : Push τ) :
    EStateM.Result SyncError (Push τ) Nat :=
  match _filled : fill push.storage [] queue with
  | ([], _) => .ok 0 push
  | (first :: more, rest) =>
    match (sendPart T tenant (first :: more)).run push with
    | .error e failed => .error e failed
    | .ok sent settled =>
      match send T tenant rest settled with
      | .error e failed => .error e failed
      | .ok later final => .ok (sent + later) final
termination_by queue.length
decreasing_by
  have shorter := fill_length push.storage [] queue
  rw [_filled] at shorter
  simp only [length_cons, length_nil] at shorter
  omega

/-! ## The push -/

/-- Sends the queue and reports. -/
def sendAndReport (T : SyncTransport τ) (tenant : Bytes) (queue : List Queued) :
    PushM τ PushReport := fun push =>
  match send T tenant queue push with
  | .error e failed => .error e failed
  | .ok pushed final =>
    .ok { pushed, tooLarge := final.tooLarge, unpushable := final.unpushable } final

/-- The push behind `syncPush`, and with `own` behind the `As` forms. -/
def runPush (P : Primitives) (T : SyncTransport τ) (tenant : Bytes) (own : Option Bytes)
    (accountWide : Bool) : PushM τ PushReport := do
  let vaultData ← queueVaultData P tenant own
  match accountWide with
  | true => do
    let others ← queueAccountWide tenant
    sendAndReport T tenant (vaultData ++ others)
  | false => sendAndReport T tenant vaultData

variable (P : Primitives) (T : SyncTransport τ)

def syncPush (tenant : Bytes) : PushM τ PushReport :=
  runPush P T tenant none true

/-- `syncPush` to the context's tenant that leaves out the items whose author may not write
them. -/
def syncPushAs (ctx : SyncContext) : PushM τ PushReport :=
  runPush P T ctx.tenant (some ctx.genesisOwner) true

/-- `syncPushAs` of the vault data alone. -/
def syncPushVaultDataAs (ctx : SyncContext) : PushM τ PushReport :=
  runPush P T ctx.tenant (some ctx.genesisOwner) false

end Push

end UniSsh
