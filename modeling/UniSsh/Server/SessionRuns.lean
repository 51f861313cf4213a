import UniSsh.Server.Sessions

/-!
# Sessions are single-chain and revocable

Sessions and consumed nonces stay, and what was revoked or deleted stays so (`Auth.Outlives`). A
session made after its device was revoked finds the device expired at its first refresh.
-/

namespace UniSsh.Server

open Table Option

/-- What stays of a session. -/
structure SessionRow.Later (before after : SessionRow) : Prop where
  accountId : after.accountId = before.accountId
  deviceId : after.deviceId = before.deviceId
  nonce : after.nonce = before.nonce
  revoked : before.revoked = true → after.revoked = true

instance : Std.Refl SessionRow.Later := ⟨fun _ => ⟨rfl, rfl, rfl, id⟩⟩

instance : IsTrans SessionRow SessionRow.Later where
  trans _ _ _ first second :=
    ⟨second.accountId.trans first.accountId, second.deviceId.trans first.deviceId,
      second.nonce.trans first.nonce, fun revoked => second.revoked (first.revoked revoked)⟩

/-- A nonce stays consumed for the same session. -/
def NonceRow.Later (before after : NonceRow) : Prop :=
  ∀ sessionId, before.consumed = some sessionId → after.consumed = some sessionId

instance : Std.Refl NonceRow.Later := ⟨fun _ _ => id⟩

instance : IsTrans NonceRow NonceRow.Later where
  trans _ _ _ first second sessionId consumed := second sessionId (first sessionId consumed)

namespace Auth

variable {auth auth' : Auth}

/-- The device was deleted, or revoked with an expiry up to a moment. -/
def Gone (auth : Auth) (deviceId : Bytes) (moment : Int) : Prop :=
  deviceId ∈ auth.deleted ∧ auth.devices[deviceId]? = none ∨
    ∃ row expiry, auth.devices[deviceId]? = some row ∧ row.status = .revoked ∧
      row.expiresAt = some expiry ∧ expiry ≤ moment

variable {deviceId : Bytes}

theorem Gone.mono (gone : auth.Gone deviceId moment) (le : moment ≤ later) :
    auth.Gone deviceId later := by
  obtain deleted | ⟨row, expiry, found, revoked, expires, before⟩ := gone
  · exact .inl deleted
  · exact .inr ⟨row, expiry, found, revoked, expires, before.trans le⟩

/-- The device exists or was deleted. -/
def Seen (auth : Auth) (deviceId : Bytes) : Prop :=
  (∃ row, auth.devices[deviceId]? = some row) ∨
    deviceId ∈ auth.deleted ∧ auth.devices[deviceId]? = none

/-- The session exists, and is revoked if its device's sessions were. -/
def Outside (auth : Auth) (sessionId : Bytes) : Prop :=
  ∃ row, auth.sessions[sessionId]? = some row ∧
    (row.revoked = true ∨ row.deviceId ∉ auth.swept)

/-- What no statement undoes. -/
structure Outlives (auth auth' : Auth) : Prop where
  clock : auth.clock ≤ auth'.clock
  sessions : Table.Grows SessionRow.Later auth.sessions auth'.sessions
  nonces : Table.Grows NonceRow.Later auth.nonces auth'.nonces
  gone : ∀ deviceId moment, auth.Gone deviceId moment → auth'.Gone deviceId moment
  seen : ∀ deviceId, auth.Seen deviceId → auth'.Seen deviceId
  swept : ∀ deviceId ∈ auth.swept, deviceId ∈ auth'.swept
  outside : ∀ sessionId, auth.Outside sessionId → auth'.Outside sessionId

instance : Std.Refl Outlives where
  refl _ := ⟨le_rfl, Table.Grows.refl _, Table.Grows.refl _, fun _ _ => id, fun _ => id,
    fun _ => id, fun _ => id⟩

instance : IsTrans Auth Outlives where
  trans _ _ _ first second :=
    ⟨first.clock.trans second.clock, first.sessions.trans second.sessions,
      first.nonces.trans second.nonces, fun d t gone => second.gone d t (first.gone d t gone),
      fun d seen => second.seen d (first.seen d seen),
      fun d swept => second.swept d (first.swept d swept),
      fun id outside => second.outside id (first.outside id outside)⟩

/-- The invariant of every run. -/
structure Kept (auth : Auth) : Prop where
  nonces : ∀ (id : Bytes) (row : SessionRow), auth.sessions[id]? = some row →
    ∃ nonce, auth.nonces[row.nonce]? = some nonce ∧ nonce.consumed = some id
  used : ∀ (id : Bytes) row, auth.sessions[id]? = some row →
    row.refresh ∈ auth.used ∧ row.refresh ∉ auth.exchanged
  apart : ∀ (i j : Bytes) a b, auth.sessions[i]? = some a →
    auth.sessions[j]? = some b → a.refresh = b.refresh → i = j
  exchanged : ∀ token ∈ auth.exchanged, token ∈ auth.used
  once : auth.exchanged.Nodup
  swept : ∀ deviceId ∈ auth.swept, auth.Gone deviceId auth.clock
  ended : ∀ id ∈ auth.ended, ∃ row, auth.sessions[id]? = some row ∧ row.revoked = true
  barred : ∀ deviceId ∈ auth.barred, deviceId ∈ auth.swept
  late : auth.late = []

/-- What a statement takes for granted. -/
def Safe (auth : Auth) : AuthStatement → Prop
  | .createSession sessionId row =>
    ∃ nonce, auth.nonces[row.nonce]? = some nonce ∧ nonce.consumed = some sessionId
  | .rotateSession sessionId .. => auth.Outside sessionId
  | .revokeDeviceSessions deviceId => auth.Gone deviceId auth.clock
  | .returnedForSession sessionId =>
    ∃ row, auth.sessions[sessionId]? = some row ∧ row.revoked = true
  | .returnedForDevice deviceId => deviceId ∈ auth.swept
  | _ => True

/-- Random tokens and ids differ from all before. -/
def Distinct (auth : Auth) : AuthStatement → Prop
  | .createSession _ row => row.access ∉ auth.used ∧ row.refresh ∉ auth.used
  | .rotateSession _ _ access refresh _ _ => access ∉ auth.used ∧ refresh ∉ auth.used
  | .createPendingDevice deviceId _ _ => deviceId ∉ auth.deleted
  | _ => True

instance (auth : Auth) (q : AuthStatement) : Decidable (auth.Distinct q) := by
  rcases q with ⟨⟩ <;> unfold Distinct <;> infer_instance

/-- A session's tokens are rotated while its account is active. -/
def RotatesActive (auth : Auth) : AuthStatement → Prop
  | .rotateSession sessionId .. => ∀ row ∈ auth.sessions[sessionId]?,
      auth.accountIsActive row.accountId = true
  | _ => True

instance (auth : Auth) (q : AuthStatement) : Decidable (auth.RotatesActive q) := by
  rcases q with ⟨⟩ <;> unfold RotatesActive <;> infer_instance

/-! ## Statements that leave sessions alone -/

/-- Sessions and the records about them are as they were. -/
structure SameSessions (auth auth' : Auth) : Prop where
  sessions : auth'.sessions = auth.sessions
  used : auth'.used = auth.used
  exchanged : auth'.exchanged = auth.exchanged
  swept : auth'.swept = auth.swept
  ended : auth'.ended = auth.ended
  barred : auth'.barred = auth.barred
  late : auth'.late = auth.late

theorem Kept.of_outlives (kept : auth.Kept) (same : auth.SameSessions auth')
    (outlives : auth.Outlives auth') : auth'.Kept := by
  obtain ⟨sessions, used, exchanged, swept, ended, barred, late⟩ := same
  refine ⟨fun id row found => ?_, ?_, ?_, ?_, ?_, fun deviceId mem => ?_, ?_, ?_, ?_⟩
  · rw [sessions] at found
    obtain ⟨nonce, stored, consumed⟩ := kept.nonces id row found
    obtain ⟨nonce', stored', later⟩ := outlives.nonces row.nonce nonce stored
    exact ⟨nonce', stored', later id consumed⟩
  · rw [sessions, used, exchanged]
    exact kept.used
  · rw [sessions]
    exact kept.apart
  · rw [used, exchanged]
    exact kept.exchanged
  · rw [exchanged]
    exact kept.once
  · rw [swept] at mem
    exact (outlives.gone deviceId _ (kept.swept deviceId mem)).mono outlives.clock
  · rw [ended, sessions]
    exact kept.ended
  · rw [barred, swept]
    exact kept.barred
  · rw [late]
    exact kept.late

/-- A step that keeps the invariant and what others rely on. -/
def Keeps (auth auth' : Auth) : Prop :=
  auth'.Kept ∧ auth.Outlives auth'

section

variable (kept : auth.Kept)
include kept

theorem Kept.keeps_refl : auth.Keeps auth := ⟨kept, refl_of _ _⟩

/-- Devices that are gone stay gone, and the rest but nonces and the clock is as it was. -/
theorem Kept.keeps (same : auth.SameSessions auth') (clock : auth.clock ≤ auth'.clock)
    (nonces : Table.Grows NonceRow.Later auth.nonces auth'.nonces)
    (gone : ∀ deviceId moment, auth.Gone deviceId moment → auth'.Gone deviceId moment)
    (seen : ∀ deviceId, auth.Seen deviceId → auth'.Seen deviceId) : auth.Keeps auth' := by
  have outlives : auth.Outlives auth' := by
    refine ⟨clock, same.sessions ▸ Table.Grows.refl _, nonces, gone, seen, ?_, ?_⟩
    · rw [same.swept]
      exact fun _ => id
    · unfold Outside
      rw [same.sessions, same.swept]
      exact fun _ => id
  exact ⟨kept.of_outlives same outlives, outlives⟩

theorem keeps_insertDevice {row : DeviceRow} (live : ∀ moment, ¬ auth.Gone deviceId moment) :
    auth.Keeps { auth with devices := auth.devices.insert deviceId row } := by
  refine kept.keeps ⟨rfl, rfl, rfl, rfl, rfl, rfl, rfl⟩ le_rfl (Table.Grows.refl _)
    (fun d moment gone => ?_) fun d seen => ?_
  · by_cases isDevice : deviceId = d
    · exact absurd (isDevice ▸ gone) (live moment)
    · unfold Gone
      rw [getElem?_insert, if_neg isDevice]
      exact gone
  · by_cases isDevice : deviceId = d
    · exact .inl ⟨row, isDevice ▸ getElem?_insert_self⟩
    · unfold Seen
      rw [getElem?_insert, if_neg isDevice]
      exact seen

variable {nonce : Bytes} {expiresAt : Int}

theorem insertNonce_keeps : auth.Keeps (auth.insertNonce nonce deviceId expiresAt).2 := by
  unfold insertNonce
  split
  · exact kept.keeps_refl
  · next absent =>
    refine kept.keeps ⟨rfl, rfl, rfl, rfl, rfl, rfl, rfl⟩ le_rfl
      (Table.Grows.insert fun row found => ?_) (fun _ _ => id) fun _ => id
    exact nomatch absent.symm.trans found

theorem consumeNonce_keeps :
    auth.Keeps (auth.consumeNonce nonce deviceId now sessionId).2 := by
  unfold consumeNonce
  split
  · exact kept.keeps_refl
  · next row found =>
    split
    · next fresh =>
      refine kept.keeps ⟨rfl, rfl, rfl, rfl, rfl, rfl, rfl⟩ le_rfl
        (Table.Grows.insert fun old found' => ?_) (fun _ _ => id) fun _ => id
      cases found.symm.trans found'
      intro _ consumed
      exact nomatch fresh.2.1.symm.trans consumed
    · exact kept.keeps_refl

theorem activatePendingDevice_keeps (deviceId : Bytes) (now : Int) :
    auth.Keeps (auth.activatePendingDevice deviceId now).2 := by
  unfold activatePendingDevice
  split
  · exact kept.keeps_refl
  · next row found =>
    split
    · next live =>
      refine keeps_insertDevice kept fun moment gone => ?_
      obtain ⟨-, absent⟩ | ⟨_, _, found', revoked, -⟩ := gone
      · exact nomatch absent.symm.trans found
      · cases found.symm.trans found'
        simp [revoked] at live
    · exact kept.keeps_refl

theorem createPendingDevice_keeps (fresh : deviceId ∉ auth.deleted) :
    auth.Keeps (auth.createPendingDevice deviceId accountId expiresAt).2 := by
  unfold createPendingDevice
  split
  · next absent _ =>
    refine keeps_insertDevice kept fun moment gone => ?_
    obtain ⟨deleted, -⟩ | ⟨_, _, found, -⟩ := gone
    · exact fresh deleted
    · exact nomatch absent.symm.trans found
  · exact kept.keeps_refl

theorem deletePending_keeps (deviceId : Bytes) : auth.Keeps (auth.deletePending deviceId) := by
  unfold deletePending
  split
  · next accountId expiresAt found =>
    refine kept.keeps ⟨rfl, rfl, rfl, rfl, rfl, rfl, rfl⟩ le_rfl (Table.Grows.refl _)
      (fun d moment gone => ?_) fun d seen => ?_
    · by_cases isDevice : d = deviceId
      · subst isDevice
        obtain ⟨-, absent⟩ | ⟨_, _, found', revoked, -⟩ := gone
        · exact nomatch absent.symm.trans found
        · cases found.symm.trans found'
          exact nomatch revoked
      · unfold Gone
        rw [getElem?_erase_of_ne _ isDevice]
        exact gone.imp_left fun deleted => ⟨List.mem_cons_of_mem _ deleted.1, deleted.2⟩
    · by_cases isDevice : d = deviceId
      · subst isDevice
        exact .inr ⟨List.mem_cons_self, by simp⟩
      · unfold Seen
        rw [getElem?_erase_of_ne _ isDevice]
        exact seen.imp_right fun deleted => ⟨List.mem_cons_of_mem _ deleted.1, deleted.2⟩
  · exact kept.keeps_refl

end

variable {now : Int}

theorem revokedExpiry_le : revokedExpiry expiresAt now ≤ now := by
  unfold revokedExpiry
  split
  · exact le_rfl
  · split <;> omega

theorem revokedExpiry_le_of_some : revokedExpiry (some expiry) now ≤ expiry := by
  unfold revokedExpiry
  dsimp only
  split <;> omega

theorem markRevoked_keeps (kept : auth.Kept) : auth.Keeps (auth.markRevoked deviceId now) := by
  refine kept.keeps ⟨rfl, rfl, rfl, rfl, rfl, rfl, rfl⟩ le_rfl (Table.Grows.refl _)
    (fun d moment gone => ?_) fun d seen => ?_
  · obtain ⟨deleted, absent⟩ | ⟨row, expiry, found, revoked, expires, before⟩ := gone
    · exact .inl ⟨deleted, by simp [markRevoked, absent]⟩
    · by_cases isDevice : d = deviceId
      · subst isDevice
        refine .inr ⟨{ row with
          status := .revoked, expiresAt := some (revokedExpiry row.expiresAt now) },
          revokedExpiry row.expiresAt now, by simp [markRevoked, found], rfl, rfl, ?_⟩
        rw [expires]
        exact revokedExpiry_le_of_some.trans before
      · exact .inr ⟨row, expiry, by simp [markRevoked, found, isDevice], revoked, expires, before⟩
  · obtain ⟨row, found⟩ | ⟨deleted, absent⟩ := seen
    · refine .inl (isSome_iff_exists.mp ?_)
      simp [markRevoked, (isSome_iff_exists.mpr ⟨row, found⟩)]
    · exact .inr ⟨deleted, by simp [markRevoked, absent]⟩

theorem Seen.gone_markRevoked (seen : auth.Seen deviceId) (now : Int) :
    (auth.markRevoked deviceId now).Gone deviceId now := by
  obtain ⟨row, found⟩ | ⟨deleted, absent⟩ := seen
  · exact .inr ⟨{ row with
      status := .revoked, expiresAt := some (revokedExpiry row.expiresAt now) },
      revokedExpiry row.expiresAt now, by simp [markRevoked, found], rfl, rfl,
      revokedExpiry_le⟩
  · exact .inl ⟨deleted, by simp [markRevoked, absent]⟩

/-! ## Statements on sessions -/

theorem keeps_revoke (kept : auth.Kept) {cond : Bytes → SessionRow → Bool} {swept : List Bytes}
    (keeps : ∀ deviceId ∈ auth.swept, deviceId ∈ swept)
    (gone : ∀ deviceId ∈ swept, auth.Gone deviceId auth.clock)
    (all : ∀ id row, row.deviceId ∈ swept → row.deviceId ∉ auth.swept → cond id row = true) :
    auth.Keeps { auth with
      sessions := auth.sessions.updateWhere cond fun row => { row with revoked := true }
      swept := swept } := by
  have rowOf (id : Bytes) (row : SessionRow)
      (found : (auth.sessions.updateWhere cond fun row => { row with revoked := true })[id]? =
        some row) : ∃ old, auth.sessions[id]? = some old ∧
          row = if cond id old then { old with revoked := true } else old := by
    rw [getElem?_updateWhere] at found
    obtain ⟨old, before, rfl⟩ := map_eq_some_iff.mp found
    exact ⟨old, before, rfl⟩
  have refreshOf (id : Bytes) (old : SessionRow) :
      (if cond id old then { old with revoked := true } else old).refresh = old.refresh := by
    split <;> rfl
  have grows : Table.Grows SessionRow.Later auth.sessions
      (auth.sessions.updateWhere cond fun row => { row with revoked := true }) :=
    Table.Grows.updateWhere (fun _ row _ => ⟨rfl, rfl, rfl, fun _ => rfl⟩) _
  constructor
  · refine ⟨fun id row found => ?_, fun id row found => ?_, fun i j a b first second same => ?_,
      kept.exchanged, kept.once, gone, fun id mem => ?_, fun d mem => keeps d (kept.barred d mem),
      kept.late⟩
    · obtain ⟨old, before, rfl⟩ := rowOf id row found
      obtain ⟨nonce, holds⟩ := kept.nonces id old before
      refine ⟨nonce, ?_⟩
      split <;> exact holds
    · obtain ⟨old, before, rfl⟩ := rowOf id row found
      rw [refreshOf]
      exact kept.used id old before
    · obtain ⟨oldA, beforeA, rfl⟩ := rowOf i a first
      obtain ⟨oldB, beforeB, rfl⟩ := rowOf j b second
      rw [refreshOf, refreshOf] at same
      exact kept.apart i j oldA oldB beforeA beforeB same
    · obtain ⟨row, found, revoked⟩ := kept.ended id mem
      obtain ⟨row', found', later⟩ := grows id row found
      exact ⟨row', found', later.revoked revoked⟩
  · refine ⟨le_rfl, grows, Table.Grows.refl _, fun _ _ => id, fun _ => id, keeps,
      fun id outside => ?_⟩
    obtain ⟨row, found, holds⟩ := outside
    refine ⟨_, by rw [getElem?_updateWhere, found]; rfl, ?_⟩
    by_cases chosen : cond id row = true
    · simp [chosen]
    · simp only [chosen]
      obtain revoked | notSwept := holds
      · exact .inl revoked
      · exact .inr fun mem => chosen (all id row mem notSwept)

variable {sessionId access : Bytes}

/-- A session that is there is not revoked, and its token is the only one that may be spent. -/
theorem keeps_putSession (kept : auth.Kept) (row : SessionRow)
    (nonce : ∃ nonce, auth.nonces[row.nonce]? = some nonce ∧ nonce.consumed = some sessionId)
    (fresh : row.refresh ∉ auth.used) (once : spent.Nodup)
    (spends : ∀ token ∈ spent, ∃ old, auth.sessions[sessionId]? = some old ∧ old.refresh = token)
    (later : ∀ old, auth.sessions[sessionId]? = some old → old.revoked = false ∧ old.Later row) :
    auth.Keeps { auth with
      sessions := auth.sessions.insert sessionId row
      used := access :: row.refresh :: auth.used
      exchanged := spent ++ auth.exchanged } := by
  have other {id : Bytes} (different : sessionId ≠ id) :
      (auth.sessions.insert sessionId row)[id]? = auth.sessions[id]? := by
    rw [getElem?_insert, if_neg different]
  have tokens : ∀ token ∈ spent ++ auth.exchanged, token ∈ auth.used := by
    intro token mem
    rcases List.mem_append.mp mem with now | before
    · obtain ⟨old, found, rfl⟩ := spends token now
      exact (kept.used sessionId old found).1
    · exact kept.exchanged token before
  have used {token : Bytes} (mem : token ∈ auth.used) :
      token ∈ access :: row.refresh :: auth.used :=
    List.mem_cons_of_mem _ (List.mem_cons_of_mem _ mem)
  constructor
  · refine ⟨fun id found stored => ?_, fun id found stored => ?_,
      fun i j a b first second same => ?_, fun token mem => used (tokens token mem), ?_, kept.swept,
      fun id mem => ?_, kept.barred, kept.late⟩
    · rcases of_insert stored with ⟨rfl, rfl⟩ | ⟨-, stored⟩
      · exact nonce
      · exact kept.nonces id found stored
    · rcases of_insert stored with ⟨rfl, rfl⟩ | ⟨different, stored⟩
      · exact ⟨by simp, fun mem => fresh (tokens _ mem)⟩
      · obtain ⟨isUsed, notExchanged⟩ := kept.used id found stored
        refine ⟨used isUsed, fun mem => ?_⟩
        rcases List.mem_append.mp mem with now | before
        · obtain ⟨old, isOld, same⟩ := spends _ now
          exact different (kept.apart sessionId id old found isOld stored same)
        · exact notExchanged before
    · rcases of_insert first with ⟨rfl, rfl⟩ | ⟨-, first⟩
      · rcases of_insert second with ⟨rfl, -⟩ | ⟨-, second⟩
        · rfl
        · exact absurd (same ▸ (kept.used j b second).1) fresh
      · rcases of_insert second with ⟨-, rfl⟩ | ⟨-, second⟩
        · exact absurd (same ▸ (kept.used i a first).1) fresh
        · exact kept.apart i j a b first second same
    · refine List.nodup_append.mpr ⟨once, kept.once, ?_⟩
      rintro token now _ before rfl
      obtain ⟨old, found, rfl⟩ := spends token now
      exact (kept.used sessionId old found).2 before
    · obtain ⟨ended, stored, revoked⟩ := kept.ended id mem
      refine ⟨ended, (other ?_).trans stored, revoked⟩
      rintro rfl
      exact nomatch (later ended stored).1.symm.trans revoked
  · refine ⟨le_rfl, Table.Grows.insert fun old stored => (later old stored).2, Table.Grows.refl _,
      fun _ _ => id, fun _ => id, fun _ => id, fun id outside => ?_⟩
    obtain ⟨found, stored, holds⟩ := outside
    by_cases same : sessionId = id
    · subst same
      have isLater := (later found stored).2
      refine ⟨row, getElem?_insert_self, ?_⟩
      rw [isLater.deviceId]
      exact holds.imp_left isLater.revoked
    · exact ⟨found, (other same).trans stored, holds⟩

theorem rotateSession_keeps (kept : auth.Kept) (outside : auth.Outside sessionId)
    (fresh : access ∉ auth.used ∧ refresh ∉ auth.used)
    (active : ∀ row ∈ auth.sessions[sessionId]?, auth.accountIsActive row.accountId = true) :
    auth.Keeps (auth.rotateSession sessionId expected access refresh accessExpires
      refreshExpires).2 := by
  unfold rotateSession
  split
  · exact kept.keeps_refl
  next row found =>
  split
  · next live =>
    obtain ⟨rfl, notRevoked⟩ := live
    -- the session is not shut out
    have admitted : auth.shutOut sessionId row = false := by
      refine decide_eq_false ?_
      rintro (ended | barred | disabled)
      · obtain ⟨row', found', revoked⟩ := kept.ended sessionId ended
        cases found.symm.trans found'
        exact nomatch notRevoked.symm.trans revoked
      · obtain ⟨_, found', holds⟩ := outside
        cases found.symm.trans found'
        obtain revoked | notSwept := holds
        · exact nomatch notRevoked.symm.trans revoked
        · exact notSwept (kept.barred _ barred)
      · exact nomatch disabled.symm.trans (active row found)
    rw [admitted]
    refine keeps_putSession kept { row with access, refresh, accessExpires, refreshExpires }
      (kept.nonces sessionId row found) fresh.2 (List.nodup_singleton row.refresh)
      (fun token mem => ?_) fun old stored => ?_
    · exact ⟨row, found, (List.mem_singleton.mp mem).symm⟩
    · cases found.symm.trans stored
      exact ⟨notRevoked, rfl, rfl, rfl, id⟩
  · exact kept.keeps_refl

/-- Every statement in its place keeps the invariant and what others rely on. -/
theorem exec_keeps (kept : auth.Kept) (distinct : auth.Distinct q) (active : auth.RotatesActive q)
    (safe : auth.Safe q) : auth.Keeps (q.exec auth).2 := by
  cases q with
  | insertNonce => exact insertNonce_keeps kept
  | consumeNonce => exact consumeNonce_keeps kept
  | activatePendingDevice => exact activatePendingDevice_keeps kept _ _
  | createPendingDevice => exact createPendingDevice_keeps kept distinct
  | createSession _ row =>
    unfold AuthStatement.exec createSession
    dsimp only
    split
    · next absent _ =>
      exact keeps_putSession kept { row with revoked := false } safe distinct.2 List.nodup_nil nofun
        fun old found => nomatch absent.symm.trans found
    · exact kept.keeps_refl
  | rotateSession => exact rotateSession_keeps kept safe distinct active
  | revokeSession =>
    exact keeps_revoke kept (fun _ => id) kept.swept fun _ _ mem notMem => absurd mem notMem
  | deletePending => exact deletePending_keeps kept _
  | markRevoked => exact markRevoked_keeps kept
  | revokeDeviceSessions =>
    refine keeps_revoke kept (fun d mem => List.mem_cons_of_mem _ mem) (fun d mem => ?_)
      fun id row mem notMem => ?_
    · obtain rfl | old := List.mem_cons.mp mem
      · exact safe
      · exact kept.swept d old
    · obtain same | old := List.mem_cons.mp mem
      · exact decide_eq_true same
      · exact absurd old notMem
  | setAccountStatus =>
    exact kept.keeps ⟨rfl, rfl, rfl, rfl, rfl, rfl, rfl⟩ le_rfl (Table.Grows.refl _)
      (fun _ _ => id) fun _ => id
  | returnedForSession =>
    refine ⟨{ kept with ended := fun id mem => ?_ }, { refl_of Outlives auth with }⟩
    obtain rfl | old := List.mem_cons.mp mem
    · exact safe
    · exact kept.ended id old
  | returnedForDevice =>
    refine ⟨{ kept with barred := fun d mem => ?_ }, { refl_of Outlives auth with }⟩
    obtain rfl | old := List.mem_cons.mp mem
    · exact safe
    · exact kept.barred d old
  | tick elapsed =>
    have later : auth.clock ≤ auth.clock + elapsed := by omega
    exact kept.keeps ⟨rfl, rfl, rfl, rfl, rfl, rfl, rfl⟩ later (Table.Grows.refl _)
      (fun _ _ => id) fun _ => id
  | _ => exact kept.keeps_refl

end Auth

/-! ## Handlers -/

section Handlers

open AuthHandler
open Process.Fallible hiding ask check commit Sound

variable {allowed : Auth → AuthStatement → Prop} {auth : Auth} {config : SessionConfig}

variable (allowed) in
/-- Every statement of the handler is executed where it is safe, and a success is as `post` says. -/
abbrev AuthHandler.Sound {α : Type} (handler : AuthHandler α) (auth : Auth)
    (post : α → Auth → Prop) : Prop :=
  Process.Fallible.Sound AuthStatement.exec Auth.Kept Auth.Outlives allowed Auth.Safe handler auth
    post

variable {P : Auth → Prop}

/-- A read while something stable holds. -/
theorem read_sound (holds : P auth)
    (stable : ∀ auth auth', Auth.Outlives auth auth' → P auth → P auth')
    (reads : ∀ auth : Auth, (q.exec auth).2 = auth) (free : ∀ auth, Auth.Safe auth q) :
    (ask q).Sound allowed auth fun r auth' => P auth' ∧ r = (q.exec auth').1 := by
  refine ask_sound fun auth' _ step => ⟨free auth', fun _ => ?_⟩
  rw [reads]
  exact ⟨stable auth auth' step holds, rfl⟩

variable {token sessionId : Bytes}

theorem resolveBearer_sound :
    (resolveBearer token).Sound allowed auth fun found auth' =>
      ∃ row, auth'.sessions[found.1]? = some row := by
  have stable (id : Bytes) (auth auth' : Auth) (step : auth.Outlives auth')
      (holds : ∃ row, auth.sessions[id]? = some row) : ∃ row, auth'.sessions[id]? = some row := by
    obtain ⟨row, found⟩ := holds
    obtain ⟨row', found', -⟩ := step.sessions id row found
    exact ⟨row', found'⟩
  refine (ask_sound (q := AuthStatement.findByAccess token)
    (P := fun found (auth' : Auth) => ∀ entry, found = some entry →
      ∃ row, auth'.sessions[entry.1]? = some row) fun auth' _ _ => ⟨trivial, fun _ => ?_⟩).bind
    fun found auth' exists_ => ?_
  · intro entry found
    exact ⟨entry.2, mem_toList_iff_getElem?_eq_some.mp (List.mem_of_find?_eq_some found)⟩
  obtain _ | ⟨sessionId, session⟩ := found
  · exact throw_sound
  refine check_bind_sound fun _ => ?_
  refine (read_sound (q := .now) (exists_ _ rfl) (stable sessionId) (fun _ => rfl)
    fun _ => trivial).bind fun now _ holds => check_bind_sound fun _ => ?_
  refine (read_sound (q := .getDevice session.deviceId) holds.1 (stable sessionId) (fun _ => rfl)
    fun _ => trivial).bind fun device _ holds => ?_
  cases device with
  | none => exact throw_sound
  | some =>
    refine check_bind_sound fun _ => ?_
    refine (read_sound (q := .now) holds.1 (stable sessionId) (fun _ => rfl)
      fun _ => trivial).bind fun now _ holds => check_bind_sound fun _ => ?_
    exact (read_sound (q := .accountIsActive session.accountId) holds.1 (stable sessionId)
      (fun _ => rfl) fun _ => trivial).bind fun active _ holds =>
        check_bind_sound fun _ => pure_sound holds.1

theorem revokeSession_sound {row : SessionRow} {β : Type} {next : AuthHandler β}
    {post : β → Auth → Prop} (found : auth.sessions[sessionId]? = some row)
    (after : ∀ auth, next.Sound allowed auth post) :
    (do
      let _ ← ask (.revokeSession sessionId)
      let _ ← ask (.returnedForSession sessionId)
      next : AuthHandler β).Sound allowed auth post := by
  refine (ask_sound (q := AuthStatement.revokeSession sessionId)
    (P := fun _ (auth' : Auth) => ∃ row, auth'.sessions[sessionId]? = some row ∧
      row.revoked = true) fun auth' _ step => ⟨trivial, fun _ => ?_⟩).bind
    fun _ auth' revoked => ?_
  · obtain ⟨row', found', -⟩ := step.sessions sessionId row found
    refine ⟨{ row' with revoked := true }, ?_, rfl⟩
    simp [AuthStatement.exec, Auth.revokeSession, found']
  · refine (ask_sound (q := AuthStatement.returnedForSession sessionId)
      (P := fun _ _ => True) fun auth'' _ step => ⟨?_, fun _ => trivial⟩).bind
      fun _ auth'' _ => after auth''
    obtain ⟨row', found', isRevoked⟩ := revoked
    obtain ⟨row'', found'', later⟩ := step.sessions sessionId row' found'
    exact ⟨row'', found'', later.revoked isRevoked⟩

theorem sessionLogout_sound : (sessionLogout token).Sound allowed auth fun _ _ => True := by
  refine resolveBearer_sound.bind fun found auth' holds => ?_
  obtain ⟨_, stored⟩ := holds
  exact revokeSession_sound stored fun _ => pure_sound trivial

/-- The session is outside its device's sweep, or the device was gone by a moment. -/
def Auth.Ready (auth : Auth) (sessionId deviceId : Bytes) (moment : Int) : Prop :=
  (∃ row, auth.sessions[sessionId]? = some row) ∧
    (auth.Outside sessionId ∨ auth.Gone deviceId moment)

variable {deviceId refresh accountId nonce : Bytes}

theorem Auth.Ready.later {auth' : Auth} (step : auth.Outlives auth')
    (ready : auth.Ready sessionId deviceId moment) : auth'.Ready sessionId deviceId moment := by
  obtain ⟨⟨row, found⟩, holds⟩ := ready
  obtain ⟨row', found', -⟩ := step.sessions sessionId row found
  exact ⟨⟨row', found'⟩, holds.imp (step.outside sessionId) (step.gone deviceId moment)⟩

variable {now : Int} {access target : Bytes}

theorem sessionRefresh_sound :
    (sessionRefresh config sessionId token access refresh).Sound allowed auth fun _ _ => True := by
  refine (ask_sound (q := AuthStatement.findSession sessionId)
    (P := fun found (auth' : Auth) => auth'.sessions[sessionId]? = found)
    fun auth' _ _ => ⟨trivial, fun _ => rfl⟩).bind fun found auth' stored => ?_
  cases found with
  | none => exact throw_sound
  | some session =>
    refine check_bind_sound fun _ => ?_
    -- whatever the device's state, the time that is read now settles it
    refine (ask_sound (q := AuthStatement.now)
      (P := fun now (auth' : Auth) => auth'.Ready sessionId session.deviceId now)
      fun auth'' kept step => ⟨trivial, fun _ => ?_⟩).bind fun now auth'' ready => ?_
    · obtain ⟨row, found, later⟩ := step.sessions sessionId session stored
      refine ⟨⟨row, found⟩, ?_⟩
      by_cases swept : row.deviceId ∈ auth''.swept
      · exact .inr (later.deviceId ▸ kept.swept row.deviceId swept)
      · exact .inl ⟨row, found, .inr swept⟩
    have stable (auth auth' : Auth) (step : auth.Outlives auth') :
        auth.Ready sessionId session.deviceId now → auth'.Ready sessionId session.deviceId now :=
      Auth.Ready.later step
    split
    · refine check_bind_sound fun _ => ?_
      refine (read_sound (q := .accountIsActive session.accountId) ready stable (fun _ => rfl)
        fun _ => trivial).bind fun active _ holds => check_bind_sound fun _ => ?_
      refine (read_sound (q := .getDevice session.deviceId) holds.1 stable (fun _ => rfl)
        fun _ => trivial).bind fun device auth'' holds => ?_
      obtain ⟨ready, found⟩ := holds
      cases device with
      | none => exact throw_sound
      | some =>
        refine check_bind_sound fun unexpired => check_bind_sound fun _ => ?_
        -- a device that is not expired is not gone
        have outside : auth''.Outside sessionId := by
          refine ready.2.resolve_right ?_
          rintro (⟨-, absent⟩ | ⟨_, _, found', -, expires, before⟩)
          · exact nomatch found.trans absent
          · cases found.trans found'
            simp [DeviceRow.expired, expires, before] at unexpired
        exact (ask_sound (P := fun _ _ => True) fun _ _ step =>
          ⟨step.outside sessionId outside, fun _ => trivial⟩).bind
          fun _ _ _ => check_sound fun _ => trivial
    · obtain ⟨_, found⟩ := ready.1
      exact revokeSession_sound found fun _ => throw_sound

theorem mintSession_sound (found : auth.nonces[nonce]? = some row)
    (consumed : row.consumed = some sessionId) :
    (mintSession config accountId deviceId nonce sessionId access refresh).Sound allowed auth
      fun _ _ => True := by
  have stable (auth auth' : Auth) (step : auth.Outlives auth')
      (holds : ∃ row, auth.nonces[nonce]? = some row ∧ row.consumed = some sessionId) :
      ∃ row, auth'.nonces[nonce]? = some row ∧ row.consumed = some sessionId := by
    obtain ⟨row, found, consumed⟩ := holds
    obtain ⟨row', found', later⟩ := step.nonces nonce row found
    exact ⟨row', found', later sessionId consumed⟩
  refine (read_sound (q := .now) ⟨row, found, consumed⟩ stable (fun _ => rfl)
    fun _ => trivial).bind fun now _ holds => ?_
  exact .bind (M := fun _ _ => True)
    (ask_sound fun _ _ step => ⟨stable _ _ step holds.1, fun _ => trivial⟩)
    fun _ _ _ => check_sound fun _ => trivial

theorem consumeNonce_eq_true (won : (auth.consumeNonce nonce deviceId now sessionId).1 = true) :
    ∃ row, (auth.consumeNonce nonce deviceId now sessionId).2.nonces[nonce]? = some row ∧
      row.consumed = some sessionId := by
  unfold Auth.consumeNonce at won ⊢
  split at won
  · exact nomatch won
  · next row found =>
    split at won
    · next fresh =>
      rw [if_pos fresh]
      exact ⟨_, getElem?_insert_self, rfl⟩
    · exact nomatch won

theorem Auth.authVerify_sound :
    (authVerify config accountId deviceId nonce expiry sessionId access refresh).Sound allowed auth
      fun _ _ => True := by
  refine ask_bind_sound (fun _ => trivial) fun now _ => check_bind_sound fun _ => ?_
  refine ask_bind_sound (fun _ => trivial) fun device _ => ?_
  cases device with
  | none => exact throw_sound
  | some =>
    refine check_bind_sound fun _ => check_bind_sound fun _ => check_bind_sound fun _ => ?_
    refine ask_bind_sound (fun _ => trivial) fun active _ => check_bind_sound fun _ => ?_
    refine (ask_sound (q := AuthStatement.consumeNonce nonce deviceId now sessionId)
      (P := fun won (auth' : Auth) => won = true →
        ∃ row, auth'.nonces[nonce]? = some row ∧ row.consumed = some sessionId)
      fun auth' _ _ => ⟨trivial, fun _ => consumeNonce_eq_true⟩).bind
      fun won auth' holds => check_bind_sound fun isWon => ?_
    obtain ⟨row, found, consumed⟩ := holds isWon
    split
    · refine (ask_sound (q := AuthStatement.activatePendingDevice deviceId now)
        (P := fun _ (auth' : Auth) => ∃ row, auth'.nonces[nonce]? = some row ∧
          row.consumed = some sessionId)
        fun auth'' kept step => ⟨trivial, fun _ => ?_⟩).bind fun _ auth'' holds =>
          check_bind_sound fun _ => ?_
      · have both := trans_of Auth.Outlives step
          (Auth.activatePendingDevice_keeps kept deviceId now).2
        obtain ⟨row', found', later⟩ := both.nonces nonce row found
        exact ⟨row', found', later sessionId consumed⟩
      · obtain ⟨_, found', consumed'⟩ := holds
        exact mintSession_sound found' consumed'
    · exact mintSession_sound found consumed

theorem Auth.requireOwner_sound (holds : P auth)
    (stable : ∀ auth auth', Auth.Outlives auth auth' → P auth → P auth') :
    (requireOwner accountId).Sound allowed auth fun _ auth' => P auth' :=
  (read_sound (q := .accountIsOwner accountId) holds stable (fun _ => rfl) fun _ => trivial).bind
    fun _ _ holds => check_sound fun _ => holds.1

theorem revokeDevice_sound (seen : auth.Seen target) :
    (do
      let now ← ask .now
      let _ ← ask (.deletePending target)
      let _ ← ask (.markRevoked target now)
      let _ ← ask (.revokeDeviceSessions target)
      let _ ← ask (.returnedForDevice target) : AuthHandler Unit).Sound allowed auth
      fun _ _ => True := by
  refine (ask_sound (q := AuthStatement.now)
    (P := fun now (auth' : Auth) => now ≤ auth'.clock ∧ auth'.Seen target)
    fun auth' _ step => ⟨trivial, fun _ => ⟨le_rfl, step.seen target seen⟩⟩).bind
    fun now _ holds => ?_
  refine (ask_sound (q := AuthStatement.deletePending target)
    (P := fun _ (auth' : Auth) => now ≤ auth'.clock ∧ auth'.Seen target)
    fun auth' kept step => ⟨trivial, fun _ => ?_⟩).bind fun _ _ holds => ?_
  · have both := trans_of Auth.Outlives step (Auth.deletePending_keeps kept target).2
    exact ⟨holds.1.trans both.clock, both.seen target holds.2⟩
  refine (ask_sound (q := AuthStatement.markRevoked target now)
    (P := fun _ (auth' : Auth) => now ≤ auth'.clock ∧ auth'.Gone target now)
    fun auth' _ step => ⟨trivial, fun _ => ?_⟩).bind fun _ _ holds => ?_
  · exact ⟨holds.1.trans step.clock, (step.seen target holds.2).gone_markRevoked now⟩
  refine (ask_sound (q := AuthStatement.revokeDeviceSessions target)
    (P := fun _ (auth' : Auth) => target ∈ auth'.swept) fun auth' _ step =>
      ⟨(step.gone target now holds.2).mono (holds.1.trans step.clock),
        fun _ => List.mem_cons_self⟩).bind fun _ _ swept => ?_
  exact .bind (M := fun _ _ => True)
    (ask_sound fun _ _ step => ⟨step.swept target swept, fun _ => trivial⟩)
    fun _ _ _ => pure_sound trivial

theorem deviceRevoke_sound : (deviceRevoke token target).Sound allowed auth fun _ _ => True := by
  refine resolveBearer_sound.bind fun found _ _ => ?_
  refine (ask_sound (q := AuthStatement.getDevice target)
    (P := fun device (auth' : Auth) => auth'.devices[target]? = device)
    fun _ _ _ => ⟨trivial, fun _ => rfl⟩).bind fun device auth' stored => ?_
  cases device with
  | none => exact throw_sound
  | some device =>
    have seen : auth'.Seen target := .inl ⟨device, stored⟩
    obtain ⟨_, _⟩ := found
    dsimp only
    split
    · exact revokeDevice_sound seen
    · exact (Auth.requireOwner_sound seen fun _ _ step => step.seen target).bind
        fun _ _ seen => revokeDevice_sound seen

theorem Auth.process_sound (config : SessionConfig) (request : AuthRequest) (auth : Auth) :
    (request.process config).Sound AuthStatement.exec Auth.Kept Auth.Outlives allowed Auth.Safe
      (fun _ _ => True) auth := by
  have sound : (request.handler config).Sound allowed auth fun _ _ => True := by
    cases request with
    | challenge =>
      refine ask_bind_sound (fun _ => trivial) fun device _ => ?_
      cases device with
      | none => exact throw_sound
      | some =>
        exact ask_bind_sound (fun _ => trivial) fun _ _ =>
          ask_bind_sound (fun _ => trivial) fun _ _ => check_sound fun _ => trivial
    | verify => exact Auth.authVerify_sound
    | refresh => exact sessionRefresh_sound
    | logout => exact sessionLogout_sound
    | deviceRevoke => exact deviceRevoke_sound
    | deviceAdd =>
      exact resolveBearer_sound.bind fun _ _ _ => ask_bind_sound (fun _ => trivial) fun _ _ =>
        ask_bind_sound (fun _ => trivial) fun _ _ => check_sound fun _ => trivial
    | accountStatus =>
      refine resolveBearer_sound.bind fun _ _ _ => ?_
      refine (Auth.requireOwner_sound (P := fun _ => True) trivial fun _ _ _ => id).bind
        fun _ _ _ => ?_
      exact ask_bind_sound (fun _ => trivial) fun _ _ => pure_sound trivial
    | tick => exact ask_sound fun _ _ _ => ⟨trivial, fun _ => trivial⟩
  exact sound.process

end Handlers

/-! ## Every run -/

/-- No session yet, and nothing recorded. -/
structure Auth.Fresh (auth : Auth) : Prop where
  sessions : ∀ id : Bytes, auth.sessions[id]? = none
  used : auth.used = []
  exchanged : auth.exchanged = []
  swept : auth.swept = []
  ended : auth.ended = []
  barred : auth.barred = []
  late : auth.late = []

variable {auth : Auth}

theorem Auth.Fresh.kept (fresh : auth.Fresh) : auth.Kept where
  nonces id row found := nomatch (fresh.sessions id).symm.trans found
  used id row found := nomatch (fresh.sessions id).symm.trans found
  apart i _ a _ found := nomatch (fresh.sessions i).symm.trans found
  exchanged := by simp [fresh.exchanged]
  once := by simp [fresh.exchanged]
  swept := by simp [fresh.swept]
  ended := by simp [fresh.ended]
  barred := by simp [fresh.barred]
  late := fresh.late

/-- Sessions are single-chain, and what was ended, barred or disabled is not accepted. -/
structure Auth.Revocable (auth : Auth) : Prop where
  /-- A nonce yields one session. -/
  oneSession : ∀ (i j : Bytes) a b, auth.sessions[i]? = some a →
    auth.sessions[j]? = some b → a.nonce = b.nonce → i = j
  /-- A refresh token is exchanged once. -/
  exchangedOnce : auth.exchanged.Nodup
  oneAccess : ∀ id a b, auth.acceptsAccess id a = true → auth.acceptsAccess id b = true → a = b
  oneRefresh : ∀ id a b, auth.acceptsRefresh id a = true → auth.acceptsRefresh id b = true → a = b
  ended : ∀ id ∈ auth.ended, ∀ token, auth.acceptsAccess id token = false
  barred : ∀ (id : Bytes) row, auth.sessions[id]? = some row →
    row.deviceId ∈ auth.barred → ∀ token, auth.acceptsAccess id token = false
  disabled : ∀ (id : Bytes) row, auth.sessions[id]? = some row →
    auth.accountIsActive row.accountId = false → ∀ token, auth.acceptsAccess id token = false
  /-- No refresh succeeded for a session that was shut out. -/
  noneLate : auth.late = []
  /-- A revoked device is never active again. -/
  inactive : ∀ (id : Bytes) row, id ∈ auth.barred → auth.devices[id]? = some row →
    row.status ≠ .active

variable {token : Bytes}

theorem Auth.acceptsAccess_eq_true {id : Bytes} (accepts : auth.acceptsAccess id token = true) :
    ∃ row, auth.sessions[id]? = some row ∧ row.access = token ∧ row.revoked = false ∧
      (∃ device, auth.devices[row.deviceId]? = some device ∧ device.status = .active) ∧
      auth.accountIsActive row.accountId = true := by
  obtain ⟨row, found, holds⟩ := (any_eq_true _ _).mp accepts
  obtain ⟨access, notRevoked, -, device, active⟩ := of_decide_eq_true holds
  obtain ⟨device, stored, live⟩ := (any_eq_true _ _).mp device
  exact ⟨row, found, access, notRevoked, ⟨device, stored, (of_decide_eq_true live).1⟩, active⟩

theorem Auth.acceptsRefresh_eq_true {id : Bytes} (accepts : auth.acceptsRefresh id token = true) :
    ∃ row, auth.sessions[id]? = some row ∧ row.refresh = token := by
  obtain ⟨row, found, holds⟩ := (any_eq_true _ _).mp accepts
  exact ⟨row, found, (of_decide_eq_true holds).1⟩

theorem Auth.Gone.status (gone : auth.Gone deviceId moment)
    (found : auth.devices[deviceId]? = some row) : row.status = .revoked := by
  obtain ⟨-, absent⟩ | ⟨_, _, found', revoked, -⟩ := gone
  · exact nomatch absent.symm.trans found
  · cases found.symm.trans found'
    exact revoked

theorem Auth.Kept.revocable (kept : auth.Kept) : auth.Revocable where
  oneSession i j a b first second same := by
    obtain ⟨_, stored, consumed⟩ := kept.nonces i a first
    obtain ⟨_, stored', consumed'⟩ := kept.nonces j b second
    rw [same] at stored
    cases stored.symm.trans stored'
    exact some.inj (consumed.symm.trans consumed')
  exchangedOnce := kept.once
  oneAccess id a b first second := by
    obtain ⟨row, found, rfl, -⟩ := Auth.acceptsAccess_eq_true first
    obtain ⟨row', found', rfl, -⟩ := Auth.acceptsAccess_eq_true second
    rw [some.inj (found.symm.trans found')]
  oneRefresh id a b first second := by
    obtain ⟨row, found, rfl⟩ := Auth.acceptsRefresh_eq_true first
    obtain ⟨row', found', rfl⟩ := Auth.acceptsRefresh_eq_true second
    rw [some.inj (found.symm.trans found')]
  ended id mem token := by
    refine Bool.eq_false_iff.mpr fun accepts => ?_
    obtain ⟨row, found, revoked⟩ := kept.ended id mem
    obtain ⟨row', found', -, notRevoked, -⟩ := Auth.acceptsAccess_eq_true accepts
    cases found.symm.trans found'
    exact nomatch notRevoked.symm.trans revoked
  barred id row found mem token := by
    refine Bool.eq_false_iff.mpr fun accepts => ?_
    obtain ⟨row', found', -, -, ⟨_, stored, active⟩, -⟩ := Auth.acceptsAccess_eq_true accepts
    cases found.symm.trans found'
    have gone := kept.swept row.deviceId (kept.barred row.deviceId mem)
    exact nomatch active.symm.trans (gone.status stored)
  disabled id row found inactive token := by
    refine Bool.eq_false_iff.mpr fun accepts => ?_
    obtain ⟨_, found', -, -, -, active⟩ := Auth.acceptsAccess_eq_true accepts
    cases found.symm.trans found'
    exact nomatch inactive.symm.trans active
  noneLate := kept.late
  inactive id row mem found active := by
    have gone := kept.swept id (kept.barred id mem)
    exact nomatch active.symm.trans (gone.status found)

variable {config : SessionConfig}

/-- Tokens are distinct, and no account is disabled between a refresh's check and its rotation. -/
def Auth.Undisturbed (auth : Auth) (q : AuthStatement) : Prop :=
  auth.Distinct q ∧ auth.RotatesActive q

instance (auth : Auth) (q : AuthStatement) : Decidable (auth.Undisturbed q) :=
  inferInstanceAs (Decidable (_ ∧ _))

/-- Sessions rotated while their accounts are active are single-chain and revocable. -/
theorem sessions_are_revocable (config : SessionConfig) {init auth : Auth} (fresh : init.Fresh)
    {running : List (Process AuthStatement AuthStatement.Res (Except AppError Unit))}
    (reached : Auth.Reaches config Auth.Undisturbed init auth running) :
    auth.Revocable ∧ ∀ (sessionId token access refresh : Bytes) row,
      auth.sessions[sessionId]? = some row → row.revoked = false → row.refresh ≠ token →
        (((AuthRequest.refresh sessionId token access refresh).process config).runAlone
          AuthStatement.exec auth).2.sessions[sessionId]? = some { row with revoked := true } := by
  have keeps (auth : Auth) (q : AuthStatement) (kept : auth.Kept) (fine : auth.Undisturbed q)
      (safe : auth.Safe q) : auth.Keeps (q.exec auth).2 := Auth.exec_keeps kept fine.1 fine.2 safe
  have kept : auth.Kept :=
    (Process.Reaches.sound fresh.kept keeps (Auth.process_sound config) reached).1
  refine ⟨kept.revocable, fun sessionId token access refresh row found live superseded => ?_⟩
  have lookup : (AuthStatement.findSession sessionId).exec auth = (some row, auth) :=
    congrArg (·, auth) found
  rw [AuthRequest.process, AuthRequest.handler, AuthHandler.sessionRefresh,
    Process.Fallible.runAlone_ask_bind, lookup]
  rw [Process.Fallible.runAlone_check_bind _ (by simp [live]), Process.Fallible.runAlone_ask_bind,
    if_neg superseded]
  rw [Process.Fallible.runAlone_ask_bind, Process.Fallible.runAlone_ask_bind,
    Process.Fallible.runAlone_throw]
  simp [AuthStatement.exec, Auth.revokeSession, found]

/-! ## A refresh in flight -/

/-- Some statements of a new request, while the others wait. -/
theorem Auth.Reaches.begin {allowed : Auth → AuthStatement → Prop}
    (reached : Auth.Reaches config allowed init auth running) (request : AuthRequest) (n : Nat)
    (fine : (request.process config).AllowedFor AuthStatement.exec allowed n auth) :
    Auth.Reaches config allowed init ((request.process config).advance AuthStatement.exec n auth).2
      (((request.process config).advance AuthStatement.exec n auth).1 :: running) :=
  @Process.Reaches.advance _ _ _ _ _ _ _ _ _ _ _ [] running n (reached.start request) fine

namespace Sample

def sessionConfig : SessionConfig := ⟨100, 100, 100, 100⟩

/-- An owner and a member with a device each. -/
def twoDevices : Auth :=
  { accounts := ((∅ : Table Bytes AuthAccount).insert [1] ⟨true, true⟩).insert [2] ⟨true, false⟩
    devices := ((∅ : Table Bytes DeviceRow).insert [11] ⟨[1], .active, none⟩).insert [12]
      ⟨[2], .active, none⟩ }

/-- A request on its own. -/
def afterRequest (auth : Auth) (request : AuthRequest) : Auth :=
  ((request.process sessionConfig).advance AuthStatement.exec 20 auth).2

/-- The owner and the member are signed in. -/
def signedIn : Auth :=
  [AuthRequest.challenge [11] [21], .verify [1] [11] [21] 50 [31] [41] [51],
    .challenge [12] [22], .verify [2] [12] [22] 50 [32] [42] [52]].foldl afterRequest twoDevices

theorem signedIn_reached : ∃ running,
    Auth.Reaches sessionConfig Auth.Undisturbed twoDevices signedIn running := by
  have start : Auth.Reaches sessionConfig Auth.Undisturbed twoDevices twoDevices [] := .init
  have first := start.begin (.challenge [11] [21]) 20 (by decide)
  have second := first.begin (.verify [1] [11] [21] 50 [31] [41] [51]) 20 (by decide)
  have third := second.begin (.challenge [12] [22]) 20 (by decide)
  exact ⟨_, third.begin (.verify [2] [12] [22] 50 [32] [42] [52]) 20 (by decide)⟩

end Sample

open UniSsh.Server.Sample

/-- The member's account is disabled while their refresh is about to rotate; it succeeds. -/
theorem refresh_survives_disable : ∃ auth running,
    Auth.Reaches sessionConfig Auth.Distinct twoDevices auth running ∧
      auth.accountIsActive [2] = false ∧ auth.late = [[32]] := by
  have start : Auth.Reaches sessionConfig Auth.Distinct twoDevices twoDevices [] := .init
  have first := start.begin (.challenge [11] [21]) 20 (by decide)
  have second := first.begin (.verify [1] [11] [21] 50 [31] [41] [51]) 20 (by decide)
  have third := second.begin (.challenge [12] [22]) 20 (by decide)
  have fourth := third.begin (.verify [2] [12] [22] 50 [32] [42] [52]) 20 (by decide)
  have inFlight := fourth.begin (.refresh [32] [52] [62] [72]) 4 (by decide)
  have disabled := inFlight.begin (.accountStatus [41] [2] true) 20 (by decide)
  have rotated := @Process.Reaches.advance _ _ _ _ _ _ _ _ _ _ _ [_] _ 1 disabled (by decide)
  exact ⟨_, _, rotated, rfl, rfl⟩

/-- The member signs out: the token of their session is accepted no more. -/
theorem sessions_are_revocable_logout : ∃ auth running,
    Auth.Reaches sessionConfig Auth.Undisturbed twoDevices auth running ∧
      [32] ∈ auth.ended ∧ auth.Revocable := by
  obtain ⟨_, reached⟩ := signedIn_reached
  have left := reached.begin (.logout [42]) 20 (by decide)
  have fresh : twoDevices.Fresh := by constructor <;> simp [twoDevices]
  exact ⟨_, _, left, by decide, (sessions_are_revocable sessionConfig fresh left).1⟩

end UniSsh.Server
