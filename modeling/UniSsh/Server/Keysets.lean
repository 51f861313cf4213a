import UniSsh.Server.OrgRuns

/-!
# One account, one keyset

Enrolment finds the account by signing key, by subject or by session. A join compares the signing
key alone and a sign-in nothing, so devices have their account's keys as long as those two present
them.
-/

namespace UniSsh.Server

open Table

namespace Org

/-- The member id of an account. -/
def memberId (org : Org) (accountId : Bytes) : Option Bytes :=
  org.accounts[accountId]?.map fun account => account.keys.ed25519Pub

/-- The key a session's requests are authorised under: its device's. -/
def deviceEd25519 (org : Org) (sessionId : Bytes) : Option Bytes := do
  let session ← org.sessions[sessionId]?
  let device ← org.devices[session.2]?
  some device.keys.ed25519Pub

/-- Every device has the keys of its account, and accounts have different keys. -/
structure OneKeyset (org : Org) : Prop where
  devices : ∀ (id : Bytes) (device : AccountDevice), org.devices[id]? = some device →
    ∃ account, org.accounts[device.accountId]? = some account ∧ account.keys = device.keys
  distinct : ∀ (i j : Bytes) a b, org.accounts[i]? = some a →
    org.accounts[j]? = some b → a.keys.ed25519Pub = b.keys.ed25519Pub → i = j
  sessions : ∀ (id accountId deviceId : Bytes), org.sessions[id]? = some (accountId, deviceId) →
    ∃ device, org.devices[deviceId]? = some device ∧ device.accountId = accountId

variable {org org' : Org}

section

variable (one : org.OneKeyset)
include one

variable {accountId deviceId : Bytes}

theorem OneKeyset.authorised (session : org.sessions[sessionId]? = some (accountId, deviceId)) :
    org.deviceEd25519 sessionId = org.memberId accountId := by
  obtain ⟨device, found, rfl⟩ := one.sessions sessionId accountId deviceId session
  obtain ⟨_, owner, same⟩ := one.devices deviceId device found
  simp [deviceEd25519, memberId, session, found, owner, same]

theorem OneKeyset.of_same (same : org.SameIdentities org') : org'.OneKeyset := by
  obtain ⟨accounts, devices, sessions, -⟩ := same
  constructor
  · rw [accounts, devices]
    exact one.devices
  · rw [accounts]
    exact one.distinct
  · rw [devices, sessions]
    exact one.sessions

theorem OneKeyset.setAccount (accountId : Bytes)
    {set : AccountRow → AccountRow} (same : ∀ row, (set row).keys = row.keys) :
    { org with
      accounts := org.accounts.updateWhere (fun k _ => k = accountId) set }.OneKeyset := by
  have keysOf (id : Bytes) (account : AccountRow)
      (found : (org.accounts.updateWhere (fun k _ => k = accountId) set)[id]? = some account) :
      ∃ old, org.accounts[id]? = some old ∧ account.keys = old.keys := by
    rw [getElem?_updateWhere] at found
    obtain ⟨old, before, rfl⟩ := map_eq_some_iff.mp found
    refine ⟨old, before, ?_⟩
    split
    · exact same old
    · rfl
  refine ⟨fun id device found => ?_, fun i j a b first second same => ?_, one.sessions⟩
  · obtain ⟨account, before, keys⟩ := one.devices id device found
    refine ⟨if device.accountId = accountId then set account else account, ?_, ?_⟩
    · simp [before]
    · split
      · exact (same account).trans keys
      · exact keys
  · obtain ⟨a', beforeA, keysA⟩ := keysOf i a first
    obtain ⟨b', beforeB, keysB⟩ := keysOf j b second
    exact one.distinct i j a' b' beforeA beforeB (by rw [← keysA, same, keysB])

theorem OneKeyset.addDevice {account : AccountRow} (owner : org.accounts[accountId]? = some account)
    (same : account.keys = keys) (free : org.devices[deviceId]? = none) :
    { org with devices := org.devices.insert deviceId { accountId, keys } }.OneKeyset := by
  refine ⟨fun id device found => ?_, one.distinct, fun id account' device session => ?_⟩
  · obtain ⟨-, rfl⟩ | ⟨-, found⟩ := of_insert found
    · exact ⟨account, owner, same⟩
    · exact one.devices id device found
  · obtain ⟨row, found, rfl⟩ := one.sessions id account' device session
    exact ⟨row, insert_of_free free found, rfl⟩

/-- A new account with a key of its own. -/
theorem OneKeyset.addAccount (free : org.accounts[accountId]? = none)
    (unused : ∀ (id : Bytes) other, org.accounts[id]? = some other →
      other.keys.ed25519Pub ≠ account.keys.ed25519Pub) :
    { org with accounts := org.accounts.insert accountId account }.OneKeyset := by
  refine ⟨fun id device found => ?_, fun i j a b first second same => ?_, one.sessions⟩
  · obtain ⟨owner, before, keys⟩ := one.devices id device found
    exact ⟨owner, insert_of_free free before, keys⟩
  · obtain ⟨rfl, rfl⟩ | ⟨-, first⟩ := of_insert first
    · obtain ⟨isJ, -⟩ | ⟨-, second⟩ := of_insert second
      · exact isJ
      · exact absurd same.symm (unused j b second)
    · obtain ⟨-, rfl⟩ | ⟨-, second⟩ := of_insert second
      · exact absurd same (unused i a first)
      · exact one.distinct i j a b first second same

end

theorem Enrols.oneKeyset {isOwner : Bool} (enrols : Enrols e isOwner external org org')
    (one : org.OneKeyset) (matched : e.isNew = false →
      ∃ account, org.accounts[e.accountId]? = some account ∧ account.keys = e.keys) :
    org'.OneKeyset := by
  obtain ⟨old, accounts⟩ | ⟨-, absent, unused, accounts⟩ := enrols.account
  · obtain ⟨_, found, same⟩ := matched old
    have after := one.addDevice found same enrols.free
    rw [← enrols.devices] at after
    rw [← enrols.rest, accounts]
    exact after
  · have added := @OneKeyset.addAccount org one e.accountId ⟨e.keys, isOwner, true, external⟩
      absent unused
    have after := @OneKeyset.addDevice _ added e.accountId e.deviceId e.keys _
      getElem?_insert_self rfl enrols.free
    rw [← enrols.rest, accounts, enrols.devices]
    exact after

end Org

/-- A join or a sign-in of an account that exists presents the keys stored for it. -/
def PresentsStoredKeys (org : Org) : OrgStatement → Prop
  | .join _ e _ => ∀ entry ∈ org.accounts.toList,
      entry.2.keys.ed25519Pub = e.keys.ed25519Pub → entry.2.keys = e.keys
  | .oidc _ external e _ => ∀ entry ∈ org.accounts.toList,
      entry.2.external = some external → entry.2.keys = e.keys
  | _ => True

instance (org : Org) (q : OrgStatement) : Decidable (PresentsStoredKeys org q) := by
  rcases q with ⟨⟩ <;> unfold PresentsStoredKeys <;> infer_instance

theorem exec_oneKeyset (one : org.OneKeyset) (presents : PresentsStoredKeys org q)
    (safe : Safe org q) :
    (OrgStatement.exec q org).2.OneKeyset := by
  by_cases quiet : q.WritesIdentities
  case neg => exact one.of_same (exec_same quiet)
  obtain ⟨_, isAfter, effect⟩ := q.exec_effect org
  rw [isAfter]
  cases effect with
  | nothing => exact one
  | setStatus => exact one.setAccount _ fun _ => rfl
  | setOwner => exact one.setAccount _ fun _ => rfl
  | claim enrols created =>
    exact (enrols.oneKeyset ⟨one.devices, one.distinct, one.sessions⟩
      fun old => nomatch old.symm.trans safe).of_same (Org.createSpace_same created)
  | createDevice free =>
    obtain ⟨account, owner, same⟩ := safe
    exact one.addDevice owner same free
  | createSession present =>
    obtain ⟨device, found⟩ := Option.isSome_iff_exists.mp present
    refine ⟨one.devices, one.distinct, fun id account' device' session => ?_⟩
    obtain ⟨-, same⟩ | ⟨-, session⟩ := of_insert session
    · obtain ⟨rfl, rfl⟩ := Prod.mk.inj same
      exact ⟨device, found, safe device found⟩
    · exact one.sessions id account' device' session
  | @join _ e _ _ ran =>
    obtain ⟨_, _, enrolled, _, redeem, enrols, join, rfl⟩ := Org.joinTx_eq_ok ran
    obtain ⟨-, rfl⟩ := Org.redeem_eq_ok redeem
    refine (enrols.oneKeyset ⟨one.devices, one.distinct, one.sessions⟩
      fun old => ?_).of_same (Org.joinTx_same join)
    obtain ⟨account, found, sameEd⟩ := safe old
    exact ⟨account, found, presents (e.accountId, account)
      (mem_toList_iff_getElem?_eq_some.mpr found) sameEd⟩
  | @oidc _ _ e _ _ ran =>
    obtain ⟨_, _, enrols, map, rfl⟩ := Org.oidcTx_eq_ok ran
    refine (enrols.oneKeyset ⟨one.devices, one.distinct, one.sessions⟩
      fun old => ?_).of_same (Org.oidcTx_same map)
    obtain ⟨account, found, isExternal⟩ := safe old
    exact ⟨account, found, presents (e.accountId, account)
      (mem_toList_iff_getElem?_eq_some.mpr found) isExternal⟩
  | _ => exact absurd quiet id

/-- Where joins and sign-ins present the stored keys, every device has the keys of its account, and
a session acts under its account's member id. -/
theorem one_account_one_keyset {org : Org}
    {running : List (Process OrgStatement OrgStatement.Res (Except AppError Unit))}
    (reached : Org.Reaches PresentsStoredKeys {} org running) :
    org.OneKeyset ∧ ∀ (sessionId accountId deviceId : Bytes),
      org.sessions[sessionId]? = some (accountId, deviceId) →
        org.deviceEd25519 sessionId = org.memberId accountId := by
  have one : org.OneKeyset := by
    refine reached.keeps ⟨?_, ?_, ?_⟩ fun _ _ one fine safe => exec_oneKeyset one fine safe
    all_goals simp
  exact ⟨one, fun _ _ _ session => one.authorised session⟩

open UniSsh.Server.Sample

/-- A second sign-in with other keys adds a device with another member id than the account's. -/
theorem sign_in_with_other_keys :
    ∃ org running, Org.Reaches (fun _ _ => True) {} org running ∧ ¬ org.OneKeyset ∧
      org.sessions[([2, 2] : Bytes)]? = some ([1, 0], [2, 1]) ∧
      org.deviceEd25519 [2, 2] = some [8, 0] ∧ org.memberId [1, 0] = some [7, 0] := by
  have start : Org.Reaches (fun _ _ => True) {} {} [] := .init
  obtain ⟨running, first⟩ := start.serve (signIn [] (keysOf 7) 1 [])
    (by decide)
  obtain ⟨_, second⟩ := first.serve (signIn [] (keysOf 8) 2 []) (by decide)
  have session : (Org.served (Org.served {} (signIn [] (keysOf 7) 1 []))
      (signIn [] (keysOf 8) 2 [])).sessions[([2, 2] : Bytes)]? =
      some ([1, 0], [2, 1]) := by decide
  refine ⟨_, _, second, fun one => ?_, session, by decide, by decide⟩
  exact absurd (one.authorised session) (by decide)

/-- An account made by a sign-in joins with an invite and signs in again, with its keys. -/
theorem one_account_one_keyset_signed_in :
    ∃ org running, Org.Reaches PresentsStoredKeys {} org running ∧
      org.devices[([5] : Bytes)]?.map AccountDevice.accountId = some [1, 0] ∧
      org.sessions[([2, 2] : Bytes)]? = some ([1, 0], [2, 1]) ∧
      org.OneKeyset ∧ org.deviceEd25519 [2, 2] = org.memberId [1, 0] := by
  have start : Org.Reaches PresentsStoredKeys {} {} [] := .init
  obtain ⟨_, claimed⟩ := start.serve (.claim (keysOf 7) [1] [2] [3]) (by decide)
  obtain ⟨_, first⟩ := claimed.serve (signIn [] (keysOf 8) 1 []) (by decide)
  obtain ⟨_, invited⟩ := first.serve (.inviteCreate [4] ⟨[([3], .member)], [], 9, false⟩) (by decide)
  obtain ⟨_, joined⟩ := invited.serve (.join (keysOf 8) [4] [9] [5] 0) (by decide)
  obtain ⟨_, again⟩ := joined.serve (signIn [] (keysOf 8) 2 []) (by decide)
  obtain ⟨one, authorised⟩ := one_account_one_keyset again
  exact ⟨_, _, again, rfl, rfl, one, authorised [2, 2] [1, 0] [2, 1] rfl⟩

end UniSsh.Server
