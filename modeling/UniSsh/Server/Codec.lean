import UniSsh.Vault.Membership

/-!
# What the server reads of an object

The server keeps objects as bytes. It parses the columns it decides by (`parseOpen`), a manifest's
members (`parseMemberSet`), and what a signature covers (`verifyRecordSig`).
-/

namespace UniSsh.Server

inductive ErrorCode where
  | malformed
  | unauthenticated
  | forbidden
  | notFound
  | conflict
  | gone
  | payloadTooLarge
  | internal
  deriving DecidableEq

/-- An error response. -/
structure AppError where
  code : ErrorCode
  message : String
  deriving DecidableEq

namespace AppError

def malformed (message : String) : AppError := ⟨.malformed, message⟩
def unauthenticated (message : String) : AppError := ⟨.unauthenticated, message⟩
def forbidden (message : String) : AppError := ⟨.forbidden, message⟩
def notFound (message : String) : AppError := ⟨.notFound, message⟩
def conflict (message : String) : AppError := ⟨.conflict, message⟩
def gone (message : String) : AppError := ⟨.gone, message⟩
def payloadTooLarge (message : String) : AppError := ⟨.payloadTooLarge, message⟩
def internal (message : String) : AppError := ⟨.internal, message⟩

end AppError

/-- Fails with `failure` unless the condition holds. -/
def require (condition : Bool) (failure : AppError) : Except AppError Unit :=
  if condition then .ok () else .error failure

theorem require_eq_ok {failure : AppError} :
    require condition failure = .ok () ↔ condition = true := by
  cases condition <;> simp [require]

def okOr {α : Type} (found : Option α) (failure : AppError) : Except AppError α :=
  match found with
  | some a => .ok a
  | none => .error failure

theorem okOr_eq_ok {α : Type} {found : Option α} {failure : AppError} {a : α} :
    okOr found failure = .ok a ↔ found = some a := by
  cases found <;> simp [okOr]

/-! ## Reading bytes -/

/-- A cursor over the bytes that are left. -/
abbrev Reader := EStateM AppError Bytes

namespace Reader

variable (failure : AppError)

def take (n : Nat) : Reader Bytes := fun b =>
  if b.length < n then .error failure b else .ok (b.take n) (b.drop n)

def u8 : Reader UInt8 := fun
  | h :: t => .ok h t
  | [] => .error failure []

def u32 : Reader UInt32 := do
  let s ← take failure 4
  pure (UInt32.ofNat (ofBeBytes s))

def u64 : Reader UInt64 := do
  let s ← take failure 8
  pure (UInt64.ofNat (ofBeBytes s))

/-- Eight bytes as a two's complement number. -/
def i64 : Reader Int64 := do
  let n ← u64 failure
  pure n.toInt64

/-- A field preceded by its length. -/
def bytes : Reader Bytes := do
  let n ← u32 failure
  take failure n.toNat

/-- A byte that must not be above `largest`. -/
def u8UpTo (largest : UInt8) : Reader UInt8 := do
  let b ← u8 failure
  if largest < b then throw failure else pure b

/-- The reader must use up its input. -/
def finish {α : Type} (reader : Reader α) (b : Bytes) : Except AppError α :=
  match reader.run b with
  | .ok a [] => .ok a
  | .ok _ _ => .error failure
  | .error e _ => .error e

theorem finish_eq_ok {α : Type} {reader : Reader α} {b : Bytes} {a : α} :
    finish failure reader b = .ok a ↔ reader.run b = .ok a [] := by
  unfold finish
  cases read : reader.run b with
  | error => simp
  | ok _ rest => cases rest <;> simp

end Reader

/-! ## Open columns -/

inductive ObjectTag where
  | vault
  | item
  | membershipManifest
  | membershipGrant
  | audit
  | keyset
  | accountState
  deriving DecidableEq

def ObjectTag.fromU8 (b : UInt8) : Option ObjectTag :=
  if b = 1 then some vault
  else if b = 2 then some item
  else if b = 3 then some membershipManifest
  else if b = 4 then some membershipGrant
  else if b = 5 then some audit
  else if b = 6 then some keyset
  else if b = 7 then some accountState
  else none

/-- The columns parsed from an object; `none` where its tag has no such field. -/
structure ParsedObject where
  tagU8 : UInt8
  vaultId : Option Bytes := none
  itemId : Option Bytes := none
  memberPubkey : Option Bytes := none
  objVersion : Option UInt64 := none
  keyEpoch : Option UInt64 := none
  tombstone : Option Bool := none
  itemType : Option UInt32 := none
  syncTarget : Option UInt8 := none
  cachePolicy : Option UInt8 := none
  role : Option UInt8 := none
  notAfter : Option Int64 := none
  authorPubkey : Option Bytes := none
  signature : Option Bytes := none
  manifestBlob : Option Bytes := none
  wrappedVk : Option Bytes := none
  entryBlob : Option Bytes := none
  deriving DecidableEq

def ParsedObject.tag (p : ParsedObject) : Option ObjectTag := ObjectTag.fromU8 p.tagU8

def fmtErr : AppError := .malformed "object codec: format error"

def readVaultColumns : Reader ParsedObject := do
  let vaultId ← Reader.bytes fmtErr
  let syncTarget ← Reader.u8UpTo fmtErr 1
  let _nameBlob ← Reader.bytes fmtErr
  let _wrappedVk ← Reader.bytes fmtErr
  let version ← Reader.u64 fmtErr
  let tombstone ← Reader.u8 fmtErr
  let signature ← Reader.bytes fmtErr
  let author ← Reader.bytes fmtErr
  let keyEpoch ← Reader.u64 fmtErr
  let cachePolicy ← Reader.u8UpTo fmtErr 1
  pure { tagU8 := 1, vaultId := some vaultId, syncTarget := some syncTarget,
         objVersion := some version, tombstone := some (tombstone ≠ 0),
         signature := some signature, authorPubkey := some author, keyEpoch := some keyEpoch,
         cachePolicy := some cachePolicy }

def readItemColumns : Reader ParsedObject := do
  let vaultId ← Reader.bytes fmtErr
  let itemId ← Reader.bytes fmtErr
  let itemType ← Reader.u32 fmtErr
  let _content ← Reader.bytes fmtErr
  let _wrappedItemKey ← Reader.bytes fmtErr
  let version ← Reader.u64 fmtErr
  let tombstone ← Reader.u8 fmtErr
  let signature ← Reader.bytes fmtErr
  let author ← Reader.bytes fmtErr
  let keyEpoch ← Reader.u64 fmtErr
  pure { tagU8 := 2, vaultId := some vaultId, itemId := some itemId, itemType := some itemType,
         objVersion := some version, tombstone := some (tombstone ≠ 0),
         signature := some signature, authorPubkey := some author, keyEpoch := some keyEpoch }

def readManifestColumns : Reader ParsedObject := do
  let vaultId ← Reader.bytes fmtErr
  let keyEpoch ← Reader.u64 fmtErr
  let manifestBlob ← Reader.bytes fmtErr
  let signature ← Reader.bytes fmtErr
  let author ← Reader.bytes fmtErr
  pure { tagU8 := 3, vaultId := some vaultId, keyEpoch := some keyEpoch,
         manifestBlob := some manifestBlob, signature := some signature,
         authorPubkey := some author }

def readGrantColumns : Reader ParsedObject := do
  let vaultId ← Reader.bytes fmtErr
  let memberPubkey ← Reader.bytes fmtErr
  let keyEpoch ← Reader.u64 fmtErr
  let role ← Reader.u8UpTo fmtErr 2
  let notAfter ← Reader.i64 fmtErr
  let wrappedVk ← Reader.bytes fmtErr
  let signature ← Reader.bytes fmtErr
  let author ← Reader.bytes fmtErr
  pure { tagU8 := 4, vaultId := some vaultId, memberPubkey := some memberPubkey,
         keyEpoch := some keyEpoch, role := some role, notAfter := some notAfter,
         wrappedVk := some wrappedVk, signature := some signature,
         authorPubkey := some author }

def readAuditColumns : Reader ParsedObject := do
  let vaultId ← Reader.bytes fmtErr
  let entryBlob ← Reader.bytes fmtErr
  let signature ← Reader.bytes fmtErr
  let author ← Reader.bytes fmtErr
  pure { tagU8 := 5, vaultId := some vaultId, entryBlob := some entryBlob,
         signature := some signature, authorPubkey := some author }

def readKeysetColumns : Reader ParsedObject := do
  let _keysetBlob ← Reader.bytes fmtErr
  pure { tagU8 := 6 }

def readAccountStateColumns : Reader ParsedObject := do
  let version ← Reader.u64 fmtErr
  let _payload ← Reader.bytes fmtErr
  let signature ← Reader.bytes fmtErr
  let author ← Reader.bytes fmtErr
  pure { tagU8 := 7, objVersion := some version, signature := some signature,
         authorPubkey := some author }

def readColumns (tag : UInt8) : Reader ParsedObject :=
  match ObjectTag.fromU8 tag with
  | none => throw fmtErr
  | some .vault => readVaultColumns
  | some .item => readItemColumns
  | some .membershipManifest => readManifestColumns
  | some .membershipGrant => readGrantColumns
  | some .audit => readAuditColumns
  | some .keyset => readKeysetColumns
  | some .accountState => readAccountStateColumns

/-- Parses the open columns; the input must be used up. -/
def parseOpen (bytes : Bytes) : Except AppError ParsedObject :=
  Reader.finish fmtErr (do readColumns (← Reader.u8 fmtErr)) bytes

/-! ## Member sets -/

/-- The members of a manifest with their roles. -/
structure MemberSet where
  keyEpoch : UInt64
  members : List (Bytes × MemberRole)
  deriving DecidableEq

/-- The role of the first member with this key. -/
def MemberSet.roleOf (set : MemberSet) (ed25519Pub : Bytes) : Option MemberRole :=
  (set.members.find? fun m => m.1 = ed25519Pub).map Prod.snd

def manifestErr : AppError := .malformed "manifest: format error"

def readMember : Reader (Bytes × MemberRole) := do
  let roleByte ← Reader.u8 manifestErr
  let edLen ← Reader.take manifestErr 2
  match MemberRole.fromU8 roleByte with
  | none => throw manifestErr
  | some role => do
    let ed ← Reader.take manifestErr (ofBeBytes edLen)
    pure (ed, role)

def readMembers : Nat → Reader (List (Bytes × MemberRole))
  | 0 => pure []
  | count + 1 => do
    let m ← readMember
    let rest ← readMembers count
    pure (m :: rest)

def readMemberSet : Reader MemberSet := do
  let domain ← Reader.take manifestErr manifestDomain.length
  if domain ≠ manifestDomain then throw manifestErr
  else do
    let keyEpoch ← Reader.u64 manifestErr
    let count ← Reader.u32 manifestErr
    let members ← readMembers count.toNat
    pure { keyEpoch, members }

/-- Parses a manifest's member set; the input must be used up. -/
def parseMemberSet (blob : Bytes) : Except AppError MemberSet :=
  Reader.finish manifestErr readMemberSet blob

/-! ## Record signatures -/

section Signatures

variable (P : Primitives)

def recFmt : AppError := .malformed "record signature: format error"

/-- The Ed25519 signature inside a signature blob. -/
def parseSigBlob (blob : Bytes) : Except AppError Bytes :=
  if blob.length ≠ 67 then .error (.malformed "signature blob: wrong length")
  else if blob.head? ≠ some formatVersion then
    .error (.malformed "signature blob: bad format version")
  else if (blob.drop 1).take 2 ≠ beBytes 2 AlgId.ed25519.toU16.toNat then
    .error (.malformed "signature blob: not Ed25519")
  else .ok (blob.drop 3)

def checkVerifyingKey (vkBytes : Bytes) : Except AppError Unit := do
  require (vkBytes.length = 32) (.malformed "pubkey: expected 32 bytes")
  require (P.isVerifyingKey vkBytes) (.malformed "pubkey: invalid Ed25519 point")

/-- The signature of a versioned record under its author's key. -/
def verifyVersioned (author vaultId itemId : Bytes) (version : UInt64) (content sigBlob : Bytes) :
    Except AppError Unit := do
  checkVerifyingKey P author
  let sig ← parseSigBlob sigBlob
  let aad ← ({ vaultId, itemId, version } : AssociatedData).canonical.mapError fun _ => recFmt
  require (P.verifyStrict author (sigDomain ++ aad ++ P.sha256 content) sig)
    (.malformed "record signature verification failed")

def verifyVaultSig : Reader (Except AppError Unit) := do
  let vaultId ← Reader.bytes recFmt
  let _syncTarget ← Reader.u8 recFmt
  let nameBlob ← Reader.bytes recFmt
  let wrappedVk ← Reader.bytes recFmt
  let version ← Reader.u64 recFmt
  let _tombstone ← Reader.u8 recFmt
  let sig ← Reader.bytes recFmt
  let author ← Reader.bytes recFmt
  pure (verifyVersioned P author vaultId (ascii "__vault__") version (wrappedVk ++ nameBlob) sig)

def verifyItemSig : Reader (Except AppError Unit) := do
  let vaultId ← Reader.bytes recFmt
  let itemId ← Reader.bytes recFmt
  let _itemType ← Reader.u32 recFmt
  let contentBlob ← Reader.bytes recFmt
  let _wrappedItemKey ← Reader.bytes recFmt
  let version ← Reader.u64 recFmt
  let _tombstone ← Reader.u8 recFmt
  let sig ← Reader.bytes recFmt
  let author ← Reader.bytes recFmt
  pure (verifyVersioned P author vaultId itemId version contentBlob sig)

def verifyManifestSig : Reader (Except AppError Unit) := do
  let vaultId ← Reader.bytes recFmt
  let keyEpoch ← Reader.u64 recFmt
  let manifestBlob ← Reader.bytes recFmt
  let sig ← Reader.bytes recFmt
  let author ← Reader.bytes recFmt
  pure (verifyVersioned P author vaultId manifestAadMarker keyEpoch manifestBlob sig)

def verifyGrantSig : Reader (Except AppError Unit) := do
  let vaultId ← Reader.bytes recFmt
  let member ← Reader.bytes recFmt
  let keyEpoch ← Reader.u64 recFmt
  let role ← Reader.u8 recFmt
  let notAfter ← Reader.i64 recFmt
  let wrappedVk ← Reader.bytes recFmt
  let sig ← Reader.bytes recFmt
  let author ← Reader.bytes recFmt
  let content := grantDomain ++ (role :: beBytes 8 notAfter.toUInt64.toNat) ++ wrappedVk
  pure (verifyVersioned P author vaultId member keyEpoch content sig)

def verifyAccountStateSig : Reader (Except AppError Unit) := do
  let version ← Reader.u64 recFmt
  let payload ← Reader.bytes recFmt
  let sigBlob ← Reader.bytes recFmt
  let author ← Reader.bytes recFmt
  let message := accountStateSigDomain ++ beBytes 8 version.toNat ++ P.sha256 payload
  pure do
    checkVerifyingKey P author
    let sig ← parseSigBlob sigBlob
    require (P.verifyStrict author message sig)
      (.malformed "account state signature verification failed")

def readAndVerify (tag : UInt8) : Reader (Except AppError Unit) :=
  match ObjectTag.fromU8 tag with
  | some .vault => verifyVaultSig P
  | some .item => verifyItemSig P
  | some .membershipManifest => verifyManifestSig P
  | some .membershipGrant => verifyGrantSig P
  | some .audit | some .keyset => pure (.ok ())
  | some .accountState => verifyAccountStateSig P
  | none => pure (.error (.malformed "unknown object tag"))

/-- Verifies a record's signature under the author the record names. -/
def verifyRecordSig (bytes : Bytes) : Except AppError Unit :=
  match (do readAndVerify P (← Reader.u8 recFmt) : Reader _).run bytes with
  | .ok verdict _ => verdict
  | .error e _ => .error e

end Signatures

/-! ## What a parsed object has -/

/-- Whatever a reader returns satisfies `post`. -/
def Returns {α : Type} (reader : Reader α) (post : α → Prop) : Prop :=
  ∀ b a rest, reader.run b = .ok a rest → post a

theorem Returns.bind {α β : Type} {reader : Reader α} {f : α → Reader β} {post : β → Prop}
    (each : ∀ a, Returns (f a) post) : Returns (reader >>= f) post := by
  intro b result rest ran
  obtain ⟨a, mid, -, second⟩ := bind_run_ok ran
  exact each a mid result rest second

theorem Returns.pure {α : Type} {a : α} {post : α → Prop} (holds : post a) :
    Returns (Pure.pure a) post := by
  intro b _ _ ran
  cases ran
  exact holds

/-- A parsed grant names its vault, member, epoch and author. -/
def ParsedObject.Complete (p : ParsedObject) : Prop :=
  p.tag = some .membershipGrant → ∃ vaultId memberPubkey keyEpoch authorPubkey,
    p.vaultId = some vaultId ∧ p.memberPubkey = some memberPubkey ∧
      p.keyEpoch = some keyEpoch ∧ p.authorPubkey = some authorPubkey

theorem readColumns_complete (tag : UInt8) : Returns (readColumns tag) ParsedObject.Complete := by
  unfold readColumns
  split
  · intro b p _ ran
    cases ran
  · iterate 10 refine .bind fun _ => ?_
    exact .pure nofun
  · iterate 10 refine .bind fun _ => ?_
    exact .pure nofun
  · iterate 5 refine .bind fun _ => ?_
    exact .pure nofun
  · iterate 8 refine .bind fun _ => ?_
    exact .pure fun _ => ⟨_, _, _, _, rfl, rfl, rfl, rfl⟩
  · iterate 4 refine .bind fun _ => ?_
    exact .pure nofun
  · refine .bind fun _ => ?_
    exact .pure nofun
  · iterate 4 refine .bind fun _ => ?_
    exact .pure nofun

theorem parseOpen_complete (parsed : parseOpen bytes = .ok p) :
    p.Complete := by
  have ran := (Reader.finish_eq_ok fmtErr).mp parsed
  exact Returns.bind readColumns_complete bytes p [] ran

end UniSsh.Server
