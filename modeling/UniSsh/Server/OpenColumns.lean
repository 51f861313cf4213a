import UniSsh.Server.Codec
import UniSsh.Sync.Encoding

/-!
# Two readers of one format

A device reads with `SyncObject.fromBytes`, the server with `parseOpen`; the two go through the
bytes in step, so they parse the same objects into the same fields.
-/

namespace UniSsh.Server

variable {α β γ δ : Type}

/-- The server reads from the same bytes what a device reads, in its own form. -/
def Agrees (server : Reader γ) (client : ReadM α) (form : α → γ) : Prop :=
  ∀ b c rest, server.run b = .ok c rest ↔ ∃ a, client.run b = .ok (a, rest) ∧ form a = c

namespace Agrees

variable {server : Reader γ} {client : ReadM α} {form : α → γ} {failure : AppError}

theorem pure (same : form a = c) : Agrees (Pure.pure c) (Pure.pure a) form := by
  intro b c' rest
  change EStateM.Result.ok c b = .ok c' rest ↔ _
  simp only [EStateM.Result.ok.injEq, ReadM.pure_run]
  constructor
  · rintro ⟨rfl, rfl⟩
    exact ⟨a, ⟨rfl, rfl⟩, same⟩
  · rintro ⟨_, ⟨rfl, rfl⟩, rfl⟩
    exact ⟨same.symm, rfl⟩

theorem throw :
    Agrees (MonadExcept.throw e) (MonadExcept.throw e') form := by
  intro b c _
  refine iff_of_false nofun ?_
  rintro ⟨_, impossible, -⟩
  cases impossible

/-- Readers in step go on in step. -/
theorem bind {next : γ → Reader δ} {next' : α → ReadM β} {form' : β → δ}
    (first : Agrees server client form) (later : ∀ a, (∃ b rest, client.run b = .ok (a, rest)) →
      Agrees (next (form a)) (next' a) form') :
    Agrees (server >>= next) (client >>= next') form' := by
  intro b d rest
  constructor
  · intro ran
    obtain ⟨c, mid, read, ran⟩ := bind_run_ok ran
    obtain ⟨a, read', rfl⟩ := (first b c mid).mp read
    obtain ⟨x, ran', same⟩ := (later a ⟨b, mid, read'⟩ mid d rest).mp ran
    exact ⟨x, ReadM.bind_run.mpr ⟨a, mid, read', ran'⟩, same⟩
  · rintro ⟨x, ran, same⟩
    obtain ⟨a, mid, read, ran⟩ := ReadM.bind_run.mp ran
    rw [EStateM.run_bind, (first b _ mid).mpr ⟨a, read, rfl⟩]
    exact (later a ⟨b, mid, read⟩ mid d rest).mpr ⟨x, ran, same⟩

theorem u8 : Agrees (Reader.u8 failure) ReadM.u8 id := by
  intro b c _
  cases b <;> simp [Reader.u8, ReadM.u8, UniSsh.Reader.u8, EStateM.run, StateT.run]

theorem take (n : Nat) : Agrees (Reader.take failure n) (UniSsh.Reader.take n : ReadM Bytes) id := by
  intro b c _
  simp only [Reader.take, UniSsh.Reader.take, EStateM.run, StateT.run]
  split <;> simp

/-- A device that goes on to put what it read into another form. -/
theorem map {g : α → β} {form : β → γ} (reads : Agrees server client fun a => form (g a)) :
    Agrees server (do return g (← client)) form := by
  intro b c rest
  simp only [reads b c rest, ReadM.bind_run, ReadM.pure_run]
  constructor
  · rintro ⟨a, read, same⟩
    exact ⟨g a, ⟨a, rest, read, rfl, rfl⟩, same⟩
  · rintro ⟨_, ⟨a, _, read, rfl, rfl⟩, same⟩
    exact ⟨a, read, same⟩

theorem number {ofNat : Nat → γ} (w : Nat) :
    Agrees (do return ofNat (ofBeBytes (← Reader.take failure w)))
      (UniSsh.Reader.number w : ReadM Nat) ofNat := by
  change Agrees _ ((UniSsh.Reader.take w : ReadM Bytes) >>= fun digits =>
    Pure.pure (ofBeBytes digits)) ofNat
  exact bind (take w) fun _ _ => pure rfl

theorem u32 : Agrees (Reader.u32 failure) ReadM.u32 id := map (number 4)

theorem u64 : Agrees (Reader.u64 failure) ReadM.u64 id := map (number 8)

theorem i64 : Agrees (Reader.i64 failure) ReadM.i64 id :=
  bind u64 fun _ _ => pure rfl

/-- Four bytes are a length below `2 ^ 32`. -/
theorem bytes : Agrees (Reader.bytes failure) ReadM.bytes id := by
  change Agrees (Reader.u32 failure >>= fun n => Reader.take failure n.toNat)
    ((UniSsh.Reader.number 4 : ReadM Nat) >>= UniSsh.Reader.take) id
  refine bind (number 4) fun n ⟨b, rest, read⟩ => ?_
  have bound : n < 256 ^ 4 := (UniSsh.Reader.number_eq_ok.mp read).1
  rw [UInt32.toNat_ofNat_of_lt' bound]
  exact take n

/-- A byte the server bounds and a device decodes. -/
theorem twoValued {form : α → UInt8} (first : form a = 0) (second : form b = 1) :
    Agrees (Reader.u8UpTo failure 1) (do
      match ← ReadM.u8 with
      | 0 => return a
      | 1 => return b
      | _ => MonadExcept.throw .format) form := by
  refine bind u8 fun n _ => ?_
  obtain rfl | rfl | above : n = 0 ∨ n = 1 ∨ 1 < n := by grind
  · exact pure first
  · exact pure second
  · rw [id, if_pos above]
    split
    · exact absurd above (by decide)
    · exact absurd above (by decide)
    · exact throw

theorem syncTarget : Agrees (Reader.u8UpTo failure 1) ReadM.syncTarget syncTargetU8 :=
  twoValued rfl rfl

theorem cachePolicy : Agrees (Reader.u8UpTo failure 1) ReadM.cachePolicy cachePolicyU8 :=
  twoValued rfl rfl

theorem role : Agrees (Reader.u8UpTo failure 2) ReadM.role MemberRole.toU8 := by
  refine bind u8 fun n _ => ?_
  obtain rfl | rfl | rfl | above : n = 0 ∨ n = 1 ∨ n = 2 ∨ 2 < n := by grind
  · exact pure rfl
  · exact pure rfl
  · exact pure rfl
  · have unknown : MemberRole.fromU8 n = none := by
      unfold MemberRole.fromU8
      grind
    rw [id, if_pos above, unknown]
    exact throw

end Agrees

open Agrees SyncObject

/-- The open columns of an object. -/
def columns : SyncObject → ParsedObject
  | .vault v =>
    { tagU8 := 1, vaultId := some v.vaultId, syncTarget := some (syncTargetU8 v.syncTarget),
      objVersion := some v.version, tombstone := some v.tombstone,
      signature := some v.signature, authorPubkey := some v.authorPubkey,
      keyEpoch := some v.keyEpoch, cachePolicy := some (cachePolicyU8 v.cachePolicy) }
  | .item i =>
    { tagU8 := 2, vaultId := some i.vaultId, itemId := some i.itemId,
      itemType := some i.itemType, objVersion := some i.version, tombstone := some i.tombstone,
      signature := some i.signature, authorPubkey := some i.authorPubkey,
      keyEpoch := some i.keyEpoch }
  | .membershipManifest m =>
    { tagU8 := 3, vaultId := some m.vaultId, keyEpoch := some m.keyEpoch,
      manifestBlob := some m.manifestBlob, signature := some m.signature,
      authorPubkey := some m.authorPubkey }
  | .membershipGrant g =>
    { tagU8 := 4, vaultId := some g.vaultId, memberPubkey := some g.memberPubkey,
      keyEpoch := some g.keyEpoch, role := some g.role.toU8, notAfter := some g.notAfter,
      wrappedVk := some g.wrappedVk, signature := some g.signature,
      authorPubkey := some g.authorPubkey }
  | .audit a =>
    { tagU8 := 5, vaultId := some a.vaultId, entryBlob := some a.entryBlob,
      signature := some a.signature, authorPubkey := some a.authorPubkey }
  | .keyset _ => { tagU8 := 6 }
  | .accountState a =>
    { tagU8 := 7, objVersion := some a.version, signature := some a.signature,
      authorPubkey := some a.authorPubkey }

theorem readVault_agrees : Agrees readVaultColumns readVault fun v => columns (.vault v) := by
  refine .bind bytes fun _ _ => .bind syncTarget fun _ _ => .bind bytes fun _ _ => ?_
  refine .bind bytes fun _ _ => .bind u64 fun _ _ => .bind u8 fun _ _ => ?_
  refine .bind bytes fun _ _ => .bind bytes fun _ _ => .bind u64 fun _ _ => ?_
  exact .bind cachePolicy fun _ _ => .pure rfl

theorem readItem_agrees : Agrees readItemColumns readItem fun i => columns (.item i) := by
  refine .bind bytes fun _ _ => .bind bytes fun _ _ => .bind u32 fun _ _ => ?_
  refine .bind bytes fun _ _ => .bind bytes fun _ _ => .bind u64 fun _ _ => ?_
  refine .bind u8 fun _ _ => .bind bytes fun _ _ => .bind bytes fun _ _ => ?_
  exact .bind u64 fun _ _ => .pure rfl

theorem readManifest_agrees :
    Agrees readManifestColumns readManifest fun m => columns (.membershipManifest m) := by
  refine .bind bytes fun _ _ => .bind u64 fun _ _ => .bind bytes fun _ _ => ?_
  exact .bind bytes fun _ _ => .bind bytes fun _ _ => .pure rfl

theorem readGrant_agrees :
    Agrees readGrantColumns readGrant fun g => columns (.membershipGrant g) := by
  refine .bind bytes fun _ _ => .bind bytes fun _ _ => .bind u64 fun _ _ => ?_
  refine .bind role fun _ _ => .bind i64 fun _ _ => .bind bytes fun _ _ => ?_
  exact .bind bytes fun _ _ => .bind bytes fun _ _ => .pure rfl

theorem readAudit_agrees : Agrees readAuditColumns readAudit fun a => columns (.audit a) := by
  refine .bind bytes fun _ _ => .bind bytes fun _ _ => ?_
  exact .bind bytes fun _ _ => .bind bytes fun _ _ => .pure rfl

theorem readAccountState_agrees :
    Agrees readAccountStateColumns readAccountState fun a => columns (.accountState a) := by
  refine .bind u64 fun _ _ => .bind bytes fun _ _ => ?_
  exact .bind bytes fun _ _ => .bind bytes fun _ _ => .pure rfl

theorem readColumns_agrees : Agrees (do readColumns (← Reader.u8 fmtErr)) readTagged columns := by
  refine .bind u8 fun tag _ => ?_
  split
  · exact map readVault_agrees
  · exact map readItem_agrees
  · exact map readManifest_agrees
  · exact map readGrant_agrees
  · exact map readAudit_agrees
  · exact .bind bytes fun _ _ => .pure rfl
  · exact map readAccountState_agrees
  · next =>
    have unknown : ObjectTag.fromU8 tag = none := by
      unfold ObjectTag.fromU8
      grind
    rw [readColumns, id, unknown]
    exact throw

/-- The server parses a byte string exactly when a device does, into the object's columns. -/
theorem parseOpen_eq_columns (b : Bytes) (c : ParsedObject) :
    parseOpen b = .ok c ↔ ∃ obj, SyncObject.fromBytes b = .ok obj ∧ columns obj = c := by
  refine (Reader.finish_eq_ok fmtErr).trans ((readColumns_agrees b c []).trans ?_)
  refine exists_congr fun obj => and_congr_left fun _ => ?_
  exact fromBytes_eq_ok.symm

end UniSsh.Server
