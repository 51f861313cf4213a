import UniSsh.Server.OpenColumns
import UniSsh.Sync.Pull
import UniSsh.Vault.Operations

/-!
# Two verifiers of one signature

The server rebuilds the signed message from bytes, a device from the parsed record. On bytes that
a device parses the two verdicts are the same.
-/

namespace UniSsh

open List

/-- A blob splits as an algorithm exactly when it starts with the algorithm's header. -/
theorem parseExpecting_eq_ok :
    parseExpecting blob alg = .ok body ↔ blob = headerBytes alg ++ body := by
  constructor
  · intro ran
    obtain ⟨⟨_, rest⟩, header, ran⟩ := bind_eq_ok.mp ran
    dsimp only at ran
    split_ifs at ran with isAlg
    cases not_not.mp isAlg
    cases ran
    unfold parseHeader at header
    split at header
    · next hi lo _ =>
      split_ifs at header with isVersion
      obtain ⟨_, known, header⟩ := bind_eq_ok.mp header
      cases header
      have isCode : UInt16.ofNat (ofBeBytes [hi, lo]) = alg.toU16 := by
        unfold AlgId.fromU16 at known
        split_ifs at known <;> cases known <;> assumption
      have digits : beBytes 2 (ofBeBytes [hi, lo]) = [hi, lo] := beBytes_ofBeBytes [hi, lo]
      have bound : ofBeBytes [hi, lo] < 256 ^ 2 := ofBeBytes_lt [hi, lo]
      rw [not_not.mp isVersion, headerBytes, ← isCode, UInt16.toNat_ofNat_of_lt' bound, digits]
      rfl
    · cases header
  · rintro rfl
    exact parseExpecting_headerBytes alg body

variable {P : Primitives}

/-- The signature of a record is checked before its author is compared. -/
theorem checkRecord_signed (owner : Bytes) :
    verifySigned P author aad content signature = .ok () ↔
      checkRecord P author aad content signature owner ∈ [none, some .authorMismatch] := by
  unfold verifySigned checkRecord
  cases verifyingKeyFromBytes P author with
  | error => simp
  | ok key =>
    dsimp only
    cases verifyVersion P key (.fromContent P aad content) signature with
    | error => simp
    | ok => by_cases same : author = owner <;> simp [same]

/-- A parsed object's signature holds; audit entries and keysets carry none. -/
def SyncObject.SignatureHolds (P : Primitives) (owner : Bytes) : SyncObject → Prop
  | .vault v => verifyVaultRecord P v = .ok ()
  | .item i => checkItemRecord P i owner ∈ [none, some .authorMismatch]
  | .membershipManifest m => verifySigned P m.authorPubkey (manifestAad m.vaultId m.keyEpoch)
      m.manifestBlob m.signature = .ok ()
  | .membershipGrant g => verifySigned P g.authorPubkey
      (grantAad g.vaultId g.memberPubkey g.keyEpoch)
      (grantSignedContent g.role g.notAfter g.wrappedVk) g.signature = .ok ()
  | .accountState a => verifyAccountState P a.authorPubkey a.version a.payload a.signature = .ok ()
  | .audit _ | .keyset _ => True

namespace Server

section Verdicts

variable {author vaultId itemId content sigBlob : Bytes} {version : UInt64}

theorem parseSigBlob_eq_ok {f : Bytes → Except CryptoError Unit} :
    (do let body ← parseExpecting sigBlob .ed25519
        if body.length ≠ 64 then .error .format else f body) = .ok () ↔
      ∃ sig, parseSigBlob sigBlob = .ok sig ∧ f sig = .ok () := by
  simp only [bind_eq_ok, parseExpecting_eq_ok]
  refine exists_congr fun sig => ?_
  constructor
  · rintro ⟨rfl, ran⟩
    split_ifs at ran with length
    refine ⟨?_, ran⟩
    simp [parseSigBlob, headerBytes, beBytes, not_not.mp length, AlgId.toU16]
  · rintro ⟨parsed, _⟩
    unfold parseSigBlob at parsed
    split_ifs at parsed with length version alg
    cases parsed
    have version := not_not.mp version
    obtain _ | ⟨_, rest⟩ := sigBlob
    · cases version
    cases version
    rw [headerBytes, ← not_not.mp alg]
    refine ⟨congrArg _ (take_append_drop 2 rest).symm, ?_⟩
    rwa [length_drop, not_not.mp length, if_neg (by decide)]

theorem checkVerifyingKey_eq_ok :
    checkVerifyingKey P author = .ok () ↔ verifyingKeyFromBytes P author = .ok author := by
  by_cases length : author.length = 32 <;>
    simp [checkVerifyingKey, verifyingKeyFromBytes, require, length]

theorem verifyVersioned_eq_ok :
    verifyVersioned P author vaultId itemId version content sigBlob = .ok () ↔
      verifySigned P author { vaultId, itemId, version } content sigBlob = .ok () := by
  rw [verifySigned_eq_ok, ← checkVerifyingKey_eq_ok, verifyVersion, parseSigBlob_eq_ok]
  simp [verifyVersioned, bind_eq_ok, mapError_eq_ok, require_eq_ok, VersionedObject.signingBytes,
    VersionedObject.fromContent, Unique.exists_iff]

theorem verifyAccountState_eq_ok :
    verifyAccountState P author version payload sigBlob = .ok () ↔
      checkVerifyingKey P author = .ok () ∧ ∃ sig, parseSigBlob sigBlob = .ok sig ∧
        P.verifyStrict author (accountStateMessage P version payload) sig = true := by
  rw [checkVerifyingKey_eq_ok]
  unfold verifyAccountState
  cases parsed : verifyingKeyFromBytes P author with
  | error => simp
  | ok =>
    cases verifyingKeyFromBytes_eq_ok P parsed
    have signed : UniSsh.verifyAccountStateSig P author version payload sigBlob = .ok () ↔ _ :=
      parseSigBlob_eq_ok
    cases verified : UniSsh.verifyAccountStateSig P author version payload sigBlob with
    | error => simp_all
    | ok => simp_all

end Verdicts

/-! ## Readers in step -/

variable {α β : Type} {client : ReadM α}

/-- Where a device reads a value, the server reads its own form of it. -/
def Follows (server : Reader β) (client : ReadM α) (form : α → β) : Prop :=
  ∀ b a rest, client.run b = .ok (a, rest) → server.run b = .ok (form a) rest

theorem Agrees.follows {form : α → β} (agrees : Agrees server client form) :
    Follows server client form :=
  fun b a rest read => (agrees b (form a) rest).mpr ⟨a, read, rfl⟩

/-- A byte the server takes as it is and a device decodes. -/
theorem Follows.byte {encode : α → UInt8} (reads : ReadM.Reads client fun a => .ok [encode a]) :
    Follows (Reader.u8 recFmt) client encode := by
  intro b a _ read
  rw [took_ok.mp (reads.mp read)]
  rfl

/-- The server's verdict is good exactly where a device reads a value it accepts. -/
def Judges (server : Reader (Except AppError Unit)) (client : ReadM α) (accepts : α → Prop) :
    Prop :=
  ∀ b a rest, client.run b = .ok (a, rest) →
    ∃ verdict rest', server.run b = .ok verdict rest' ∧ (verdict = .ok () ↔ accepts a)

namespace Judges

variable {server : Reader (Except AppError Unit)} {verdict : Except AppError Unit}

variable {accepts : β → Prop}

theorem bind {γ : Type} {reader : Reader γ} {form : α → γ}
    {next : γ → Reader (Except AppError Unit)} {next' : α → ReadM β}
    (first : Follows reader client form) (later : ∀ a, Judges (next (form a)) (next' a) accepts) :
    Judges (reader >>= next) (client >>= next') accepts := by
  intro b x rest ran
  obtain ⟨a, mid, read, ran⟩ := ReadM.bind_run.mp ran
  rw [EStateM.run_bind, first b a mid read]
  exact later a mid x rest ran

/-- The verdict is given, whatever the device still reads. -/
theorem skip {next : α → ReadM β} (later : ∀ a, Judges (Pure.pure verdict) (next a) accepts) :
    Judges (Pure.pure verdict) (client >>= next) accepts := by
  intro b x rest ran
  obtain ⟨a, mid, -, ran⟩ := ReadM.bind_run.mp ran
  obtain ⟨_, _, given, same⟩ := later a mid x rest ran
  cases given
  exact ⟨_, b, rfl, same⟩

theorem pure {accepts : α → Prop} (same : verdict = .ok () ↔ accepts a) :
    Judges (Pure.pure verdict) (Pure.pure a) accepts := by
  intro b _ _ ran
  cases ran
  exact ⟨_, b, rfl, same⟩

theorem map {g : α → β} (judges : Judges server client fun a => accepts (g a)) :
    Judges server (do return g (← client)) accepts := by
  intro b _ _ ran
  obtain ⟨a, _, read, ran⟩ := ReadM.bind_run.mp ran
  cases ran
  exact judges b a _ read

end Judges

open SyncObject

theorem readAndVerify_judges (owner : Bytes) :
    Judges (do readAndVerify P (← Reader.u8 recFmt)) readTagged (SignatureHolds P owner) := by
  have bytes : Follows (Reader.bytes recFmt) ReadM.bytes id := Agrees.bytes.follows
  have u64 : Follows (Reader.u64 recFmt) ReadM.u64 id := Agrees.u64.follows
  have u8 : Follows (Reader.u8 recFmt) ReadM.u8 id := Agrees.u8.follows
  refine .bind u8 fun tag => ?_
  split
  · refine .map (.bind bytes fun _ => .bind (.byte ReadM.syncTarget_run) fun _ => ?_)
    refine .bind bytes fun _ => .bind bytes fun _ => .bind u64 fun _ => .bind u8 fun _ => ?_
    refine .bind bytes fun _ => .bind bytes fun _ => .skip fun _ => .skip fun _ => ?_
    exact .pure verifyVersioned_eq_ok
  · refine .map (.bind bytes fun _ => .bind bytes fun _ => .bind Agrees.u32.follows fun _ => ?_)
    refine .bind bytes fun _ => .bind bytes fun _ => .bind u64 fun _ => .bind u8 fun _ => ?_
    refine .bind bytes fun _ => .bind bytes fun _ => .skip fun _ => ?_
    exact .pure (verifyVersioned_eq_ok.trans (checkRecord_signed owner))
  · refine .map (.bind bytes fun _ => .bind u64 fun _ => .bind bytes fun _ => ?_)
    exact .bind bytes fun _ => .bind bytes fun _ => .pure verifyVersioned_eq_ok
  · refine .map (.bind bytes fun _ => .bind bytes fun _ => .bind u64 fun _ => ?_)
    refine .bind (.byte ReadM.role_run) fun _ => .bind Agrees.i64.follows fun _ => ?_
    refine .bind bytes fun _ => .bind bytes fun _ => .bind bytes fun _ => .pure ?_
    rw [append_assoc]
    exact verifyVersioned_eq_ok
  · exact .map (.skip fun _ => .skip fun _ => .skip fun _ => .skip fun _ => .pure (by simp [SignatureHolds]))
  · exact .skip fun _ => .pure (by simp [SignatureHolds])
  · refine .map (.bind u64 fun _ => .bind bytes fun _ => .bind bytes fun _ => .bind bytes fun _ => ?_)
    refine .pure (.trans ?_ verifyAccountState_eq_ok.symm)
    simp [bind_eq_ok, require_eq_ok, Unique.exists_iff, accountStateMessage]
  · exact nofun

/-- On bytes a device parses, the server accepts the signature exactly when the device does. -/
theorem verifyRecordSig_iff_device (P : Primitives) (owner : Bytes) {b : Bytes} {obj : SyncObject}
    (parsed : fromBytes b = .ok obj) :
    verifyRecordSig P b = .ok () ↔ obj.SignatureHolds P owner := by
  obtain ⟨_, _, ran, same⟩ :=
    readAndVerify_judges (P := P) owner b obj [] (fromBytes_eq_ok.mp parsed)
  rw [verifyRecordSig, ran]
  exact same

/-- An item as its owner sends it. -/
theorem verifyRecordSig_iff_device_item :
    let sent := SyncObject.item (Sample.item Sample.owner [5] [6] 1 0)
    ∃ b, sent.toBytes = .ok b ∧ verifyRecordSig .transparent b = .ok () := by
  intro sent
  have parsed : fromBytes (sent.toBytes.toOption.getD []) = .ok sent := by decide +kernel
  refine ⟨_, by decide +kernel, (verifyRecordSig_iff_device _ Sample.ownerKey parsed).mpr ?_⟩
  change checkItemRecord .transparent _ _ ∈ _
  decide +kernel

end Server

end UniSsh
