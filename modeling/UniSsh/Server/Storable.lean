import UniSsh.Server.Log

/-!
# What the store can take

A transaction fails on its objects when a number does not fit its column or a vault record is not
the owner's (`Storable`). What was stored once (`Settled`) can be stored again.
-/

namespace UniSsh.Server

open List Option

/-- The numbers of an object fit, and the columns its table needs are there. -/
structure ParsedObject.Fits (p : ParsedObject) : Prop where
  version : ∀ v, p.objVersion = some v → v ≤ i64Max
  epoch : ∀ e, p.keyEpoch = some e → e ≤ i64Max
  vault : p.tag = some .vault →
    p.vaultId ≠ none ∧ p.authorPubkey ≠ none ∧ p.objVersion ≠ none ∧ p.keyEpoch ≠ none
  membership : p.tag = some .membershipManifest ∨ p.tag = some .membershipGrant →
    p.keyEpoch ≠ none

/-- A vault record claims its vault for its author. -/
def ParsedObject.Claims (p : ParsedObject) (vaultId author : Bytes) : Prop :=
  p.tag = some .vault ∧ p.vaultId = some vaultId ∧ p.authorPubkey = some author

structure Storable (db : Db) (items : List PushObj) : Prop where
  fits : ∀ it ∈ items, it.parsed.Fits
  owned : ∀ it ∈ items, ∀ vaultId author, it.parsed.Claims vaultId author →
    ∀ owner, db.getVaultOwner vaultId = some owner → owner = author
  agree : ∀ it ∈ items, ∀ it' ∈ items, ∀ vaultId author author',
    it.parsed.Claims vaultId author → it'.parsed.Claims vaultId author' → author = author'

/-- The owners of `db` are the same in `db'`. -/
def Db.OwnersKept (db db' : Db) : Prop :=
  ∀ vaultId owner, db.getVaultOwner vaultId = some owner → db'.getVaultOwner vaultId = some owner

variable {db db' : Db} {items : List PushObj}

theorem Storable.earlier (storable : Storable db' items) (kept : db.OwnersKept db') :
    Storable db items where
  fits := storable.fits
  owned := fun it member vaultId author claims owner found =>
    storable.owned it member vaultId author claims owner (kept vaultId owner found)
  agree := storable.agree

/-- The objects fit, and every vault they claim is their author's. -/
structure Settled (db : Db) (items : List PushObj) : Prop where
  fits : ∀ it ∈ items, it.parsed.Fits
  claimed : ∀ it ∈ items, ∀ vaultId author, it.parsed.Claims vaultId author →
    db.getVaultOwner vaultId = some author

theorem Settled.later (settled : Settled db items) (kept : db.OwnersKept db') :
    Settled db' items where
  fits := settled.fits
  claimed := fun it member vaultId author claims =>
    kept vaultId author (settled.claimed it member vaultId author claims)

theorem Settled.storable (settled : Settled db items) : Storable db items where
  fits := settled.fits
  owned := fun it member vaultId author claims _ found =>
    some.inj (found.symm.trans (settled.claimed it member vaultId author claims))
  agree := fun it member it' member' vaultId author author' claims claims' =>
    some.inj ((settled.claimed it member vaultId author claims).symm.trans
      (settled.claimed it' member' vaultId author' claims'))

/-! ## Numbers -/

variable {v : UInt64} {field : Option UInt64}

theorem toI64_of_le (fits : v ≤ i64Max) (what : String) : ∃ n, toI64 v what = .ok n := by
  refine ⟨⟨v, fits⟩, ?_⟩
  rw [toI64, checkedVersion, dif_pos fits]
  rfl

theorem optU64_isOk : (∃ column, optU64 field = .ok column) ↔ ∀ v, field = some v → v ≤ i64Max := by
  cases field with
  | none => exact ⟨nofun, fun _ => ⟨none, rfl⟩⟩
  | some v =>
    constructor
    · rintro ⟨_, made⟩ _ ⟨⟩
      obtain ⟨n, made, -⟩ := map_eq_ok.mp made
      exact toI64_eq_ok made ▸ n.inRange
    · intro fits
      obtain ⟨n, made⟩ := toI64_of_le (fits v rfl) "integer"
      exact ⟨some n, map_eq_ok.mpr ⟨n, made, rfl⟩⟩

theorem reqU64_isOk (present : field ≠ none) (fits : ∀ v, field = some v → v ≤ i64Max)
    (what : String) : ∃ n, reqU64 field what = .ok n := by
  cases field with
  | none => exact (present rfl).elim
  | some v => exact toI64_of_le (fits v rfl) what

variable {p : ParsedObject} {now : Int64} {seq first : Nat} {it : PushObj}

theorem objectRow_isOk :
    (∃ row, objectRow p bytes now = .ok row) ↔
      (∀ v, p.objVersion = some v → v ≤ i64Max) ∧ ∀ e, p.keyEpoch = some e → e ≤ i64Max := by
  rw [← optU64_isOk, ← optU64_isOk]
  constructor
  · rintro ⟨_, made⟩
    obtain ⟨version, isVersion, made⟩ := bind_eq_ok.mp made
    obtain ⟨keyEpoch, isEpoch, -⟩ := bind_eq_ok.mp made
    exact ⟨⟨version, isVersion⟩, ⟨keyEpoch, isEpoch⟩⟩
  · rintro ⟨⟨version, isVersion⟩, ⟨keyEpoch, isEpoch⟩⟩
    exact ⟨_, bind_eq_ok.mpr ⟨version, isVersion, bind_eq_ok.mpr ⟨keyEpoch, isEpoch, rfl⟩⟩⟩

/-! ## One object -/

theorem materializeVault_isOk (fits : p.Fits) (isVault : p.tag = some .vault)
    (owned : ∀ vaultId author, p.Claims vaultId author →
      ∀ owner, db.getVaultOwner vaultId = some owner → owner = author) :
    ∃ db', (materializeVault p now).run db = .ok () db' := by
  obtain ⟨hasVault, hasAuthor, hasVersion, hasEpoch⟩ := fits.vault isVault
  obtain ⟨vaultId, names⟩ := ne_none_iff_exists'.mp hasVault
  obtain ⟨author, signs⟩ := ne_none_iff_exists'.mp hasAuthor
  obtain ⟨version, isVersion⟩ := reqU64_isOk hasVersion fits.version "vault.version"
  obtain ⟨epoch, isEpoch⟩ := reqU64_isOk hasEpoch fits.epoch "vault.key_epoch"
  have sameOwner : ∀ row, db.vaults[vaultId]? = some row → row.ownerPubkey = author := by
    intro row found
    exact owned vaultId author ⟨isVault, names, signs⟩ _ (map_eq_some_iff.mpr ⟨row, found, rfl⟩)
  obtain ⟨row, made⟩ : ∃ row, vaultRowAfter db author version epoch (p.syncTarget.getD 1)
      (p.cachePolicy.getD 0) (p.tombstone.getD false) now db.vaults[vaultId]? = .ok row := by
    cases stored : db.vaults[vaultId]? with
    | none => exact ⟨_, rfl⟩
    | some row =>
      rw [vaultRowAfter, if_neg (not_not.mpr (sameOwner row stored))]
      exact ⟨_, rfl⟩
  rw [materializeVault, read_bind_of_ok (s := db) (okOr_eq_ok.mpr names),
    read_bind_of_ok (s := db) (okOr_eq_ok.mpr signs), read_bind_of_ok (s := db) isVersion,
    read_bind_of_ok (s := db) isEpoch, read_bind_of_ok (s := db) made]
  exact ⟨_, rfl⟩

theorem materialize_isOk (fits : p.Fits) (owned : ∀ vaultId author, p.Claims vaultId author →
      ∀ owner, db.getVaultOwner vaultId = some owner → owner = author) :
    ∃ db', (materialize seq p now).run db = .ok () db' := by
  unfold materialize
  split
  · next isVault => exact materializeVault_isOk fits isVault owned
  · next isManifest =>
    obtain ⟨epoch, isEpoch⟩ :=
      reqU64_isOk (fits.membership (.inl isManifest)) fits.epoch "manifest.key_epoch"
    rw [materializeManifest, read_bind_of_ok (s := db) isEpoch]
    exact ⟨_, rfl⟩
  · next isGrant =>
    obtain ⟨_, isEpoch⟩ :=
      reqU64_isOk (fits.membership (.inr isGrant)) fits.epoch "grant.key_epoch"
    rw [materializeGrant, read_bind_of_ok (s := db) isEpoch]
    exact ⟨_, rfl⟩
  · unfold compactAccountState
    split
    · next version _ isVersion _ =>
      obtain ⟨n, made⟩ := toI64_of_le (fits.version version isVersion) "integer"
      rw [read_bind_of_ok (s := db) made]
      exact ⟨_, rfl⟩
    · exact ⟨db, rfl⟩
  · exact ⟨db, rfl⟩

theorem storeObject_fits (ran : (storeObject seq it now).run db = .ok () db') : it.parsed.Fits := by
  obtain ⟨_, _, inserted, ran⟩ := bind_run_ok ran
  obtain ⟨row, made, -, -⟩ := insertObject_run inserted
  obtain ⟨version, epoch⟩ := objectRow_isOk.mp ⟨row, made⟩
  refine ⟨version, epoch, ?_, ?_⟩
  · intro isVault
    rw [materialize, isVault] at ran
    obtain ⟨_, names, ran⟩ := read_bind_ok ran
    obtain ⟨_, signs, ran⟩ := read_bind_ok ran
    obtain ⟨n, isVersion, ran⟩ := read_bind_ok ran
    obtain ⟨e, isEpoch, -⟩ := read_bind_ok ran
    rw [okOr_eq_ok.mp names, okOr_eq_ok.mp signs, reqU64_eq_ok isVersion, reqU64_eq_ok isEpoch]
    exact ⟨nofun, nofun, nofun, nofun⟩
  · rintro (isManifest | isGrant)
    · rw [materialize, isManifest] at ran
      obtain ⟨e, isEpoch, -⟩ := read_bind_ok ran
      rw [reqU64_eq_ok isEpoch]
      nofun
    · rw [materialize, isGrant] at ran
      obtain ⟨e, isEpoch, -⟩ := read_bind_ok ran
      rw [reqU64_eq_ok isEpoch]
      nofun

theorem storeObject_isOk (below : Log.Below db.objects seq) (fits : it.parsed.Fits)
    (owned : ∀ vaultId author, it.parsed.Claims vaultId author →
      ∀ owner, db.getVaultOwner vaultId = some owner → owner = author) :
    ∃ db', (storeObject seq it now).run db = .ok () db' := by
  obtain ⟨row, made⟩ : ∃ row, objectRow it.parsed it.bytes now = .ok row :=
    objectRow_isOk.mpr ⟨fits.version, fits.epoch⟩
  have unused : db.objects[seq]? = none := by
    by_contra used
    obtain ⟨row, found⟩ := ne_none_iff_exists'.mp used
    exact Nat.lt_irrefl seq (below seq row found)
  have inserted : (insertObject seq it.parsed it.bytes now).run db =
      .ok () { db with objects := db.objects.insert seq row } := by
    have free : require (db.objects[seq]?.isNone)
        (.internal "db error: UNIQUE constraint failed: objects.server_seq") = .ok () :=
      require_eq_ok.mpr (by rw [unused]; rfl)
    rw [insertObject, read_bind_of_ok (s := db) made, read_bind_of_ok (s := db) free]
    rfl
  obtain ⟨db', materialized⟩ : ∃ db', (materialize seq it.parsed now).run
      { db with objects := db.objects.insert seq row } = .ok () db' :=
    materialize_isOk fits owned
  exact ⟨db', by rw [storeObject, bind_of_ok inserted, materialized]⟩

theorem storeObject_owners (ran : (storeObject seq it now).run db = .ok () db') :
    db.OwnersKept db' ∧ (∀ vaultId author, it.parsed.Claims vaultId author →
        db'.getVaultOwner vaultId = some author) ∧
      ∀ vaultId owner, db'.getVaultOwner vaultId = some owner →
        db.getVaultOwner vaultId = some owner ∨ it.parsed.Claims vaultId owner := by
  obtain ⟨_, _, inserted, ran⟩ := bind_run_ok ran
  obtain ⟨_, -, _, rfl⟩ := insertObject_run inserted
  have materialized := materialize_run ran
  refine ⟨?_, ?_, ?_⟩
  · intro vaultId owner found
    exact materialized.extends_.owner found
  · intro vaultId _ claims
    exact materialized.owner claims.1 claims.2.1 claims.2.2
  · intro _ _ found
    cases materialized with
    | vault _ _ _ isVault names signs isOwner =>
      obtain ⟨row', stored, rfl⟩ := map_eq_some_iff.mp found
      obtain ⟨rfl, rfl⟩ | ⟨-, stored⟩ := Table.of_insert stored
      · exact .inr ⟨isVault, names, isOwner ▸ signs⟩
      · exact .inl (map_eq_some_iff.mpr ⟨row', stored, rfl⟩)
    | _ => exact .inl found

/-! ## Lists of objects -/

variable {seqs : List Nat}

theorem storeObjects_owners (ran : (storeObjects now first items).run db = .ok seqs db') :
    db.OwnersKept db' ∧ ∀ it ∈ items, ∀ vaultId author, it.parsed.Claims vaultId author →
      db'.getVaultOwner vaultId = some author := by
  induction items generalizing first seqs db with
  | nil =>
    cases ran
    exact ⟨fun _ _ found => found, fun _ member => (not_mem_nil member).elim⟩
  | cons _ _ ih =>
    obtain ⟨_, _, stored, ran⟩ := bind_run_ok ran
    obtain ⟨_, _, storedRest, ran⟩ := bind_run_ok ran
    cases ran
    obtain ⟨kept, claimed, -⟩ := storeObject_owners stored
    obtain ⟨keptRest, claimedRest⟩ := ih storedRest
    refine ⟨fun vaultId owner found => keptRest _ _ (kept _ _ found), ?_⟩
    intro it' member vaultId author claims
    rcases mem_cons.mp member with rfl | old
    · exact keptRest _ _ (claimed vaultId author claims)
    · exact claimedRest it' old vaultId author claims

/-- What was stored fits, and the vaults it claims are its authors'. -/
theorem settled_of_stored (ran : (storeObjects now first items).run db = .ok seqs db') :
    Settled db' items := by
  refine ⟨?_, (storeObjects_owners ran).2⟩
  induction items generalizing first seqs db with
  | nil => exact fun _ member => (not_mem_nil member).elim
  | cons _ _ ih =>
    obtain ⟨_, _, stored, ran⟩ := bind_run_ok ran
    obtain ⟨_, _, storedRest, ran⟩ := bind_run_ok ran
    cases ran
    intro it' member
    rcases mem_cons.mp member with rfl | old
    · exact storeObject_fits stored
    · exact ih storedRest it' old

/-- What can be stored is stored. -/
theorem storeObjects_isOk (below : Log.Below db.objects first) (storable : Storable db items) :
    ∃ seqs db', (storeObjects now first items).run db = .ok seqs db' := by
  induction items generalizing first db with
  | nil => exact ⟨[], db, rfl⟩
  | cons it rest ih =>
    have head := mem_cons_self (a := it) (l := rest)
    have tail {it' : PushObj} (member : it' ∈ rest) := mem_cons_of_mem it member
    obtain ⟨mid, stored⟩ : ∃ mid, (storeObject first it now).run db = .ok () mid :=
      storeObject_isOk below (storable.fits it head) (storable.owned it head)
    have others : Storable mid rest := by
      refine ⟨fun it' member => storable.fits it' (tail member), ?_, ?_⟩
      · intro it' member vaultId author claims owner found
        -- A vault has its owner from before, or from the record just stored.
        rcases (storeObject_owners stored).2.2 vaultId owner found with old | claimed
        · exact storable.owned it' (tail member) vaultId author claims owner old
        · exact storable.agree it head it' (tail member) vaultId owner author claimed claims
      · intro it' member it'' member'
        exact storable.agree it' (tail member) it'' (tail member')
    have below' : Log.Below mid.objects (first + 1) := (storeObject_appends below stored).below
    obtain ⟨seqs, db', storedRest⟩ := ih below' others
    refine ⟨first :: seqs, db', ?_⟩
    rw [storeObjects, bind_of_ok stored, bind_of_ok storedRest]
    rfl

end UniSsh.Server
