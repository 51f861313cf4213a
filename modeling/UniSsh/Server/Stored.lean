import UniSsh.Server.Requests

/-!
# What storing objects does

`Stores db items db'` says what a transaction does to the tables that decide about access: owners
and manifests stay, and grants are old or written from one of the objects.
-/

namespace UniSsh.Server

open List Option

/-! ## Growth of the database -/

/-- Owners, manifests and logged grants of `db` are the same in `db'`. -/
structure Db.Extends (db db' : Db) : Prop where
  vaults : Table.Grows (fun row row' => row'.ownerPubkey = row.ownerPubkey) db.vaults db'.vaults
  manifests : Table.Grows Eq db.manifests db'.manifests
  log : ∀ (seq : Nat) row, db.objects[seq]? = some row → row.objectTag = 4 →
    db'.objects[seq]? = some row

instance : Std.Refl (@Eq ManifestRow) := ⟨fun _ => rfl⟩
instance : IsTrans ManifestRow Eq := ⟨fun _ _ _ => Eq.trans⟩
instance : Std.Refl fun row row' : VaultRow => row'.ownerPubkey = row.ownerPubkey :=
  ⟨fun _ => rfl⟩
instance : IsTrans VaultRow fun row row' => row'.ownerPubkey = row.ownerPubkey :=
  ⟨fun _ _ _ first second => second.trans first⟩

namespace Db.Extends

theorem refl (db : Db) : db.Extends db :=
  ⟨.refl _, .refl _, fun _ _ found _ => found⟩

variable {db db' : Db}

theorem trans (first : db.Extends mid) (second : mid.Extends db') :
    db.Extends db' where
  vaults := first.vaults.trans second.vaults
  manifests := first.manifests.trans second.manifests
  log := fun seq row found isGrant => second.log seq row (first.log seq row found isGrant) isGrant

instance : Std.Refl Db.Extends := ⟨refl⟩
instance : IsTrans Db Db.Extends := ⟨fun _ _ _ => trans⟩

theorem owner (grows : db.Extends db') {vaultId owner : Bytes}
    (found : db.getVaultOwner vaultId = some owner) : db'.getVaultOwner vaultId = some owner := by
  obtain ⟨row, present, rfl⟩ := map_eq_some_iff.mp found
  obtain ⟨row', present', same⟩ := grows.vaults vaultId row present
  exact map_eq_some_iff.mpr ⟨row', present', same⟩

end Db.Extends

/-- Every logged object parses to the tag it is logged under. -/
def Db.LogParses (db : Db) : Prop :=
  ∀ (seq : Nat) row, db.objects[seq]? = some row →
    ∃ p, parseOpen row.objectBytes = .ok p ∧ p.tagU8 = row.objectTag

/-! ## One object -/

variable {what : String} {n : SqlInt} {field : Option UInt64}

theorem toI64_eq_ok (made : toI64 v what = .ok n) : n.toU64 = v := by
  apply checkedVersion_eq_ok.mp
  unfold toI64 at made
  cases checked : checkedVersion v with
  | error =>
    rw [checked] at made
    cases made
  | ok =>
    rw [checked] at made
    cases made
    rfl

theorem reqU64_eq_ok (made : reqU64 field what = .ok n) : field = some n.toU64 := by
  cases field with
  | none => cases made
  | some => exact congrArg some (toI64_eq_ok made).symm

theorem optU64_eq_ok (made : optU64 field = .ok column) :
    column.map SqlInt.toU64 = field := by
  cases field with
  | none =>
    cases made
    rfl
  | some =>
    obtain ⟨n, made', rfl⟩ := map_eq_ok.mp made
    exact congrArg some (toI64_eq_ok made')

variable {p : ParsedObject} {now : Int64} {db db' : Db} {seq : Nat}
  {bytes : Bytes} {row : ObjectRow}

theorem objectRow_eq_ok (made : objectRow p bytes now = .ok row) :
    row.objectTag = p.tagU8 ∧ row.objectBytes = bytes ∧ row.vaultId = p.vaultId ∧
      row.memberPubkey = p.memberPubkey ∧ row.authorPubkey = p.authorPubkey ∧
      row.keyEpoch.map SqlInt.toU64 = p.keyEpoch := by
  obtain ⟨_, -, made⟩ := bind_eq_ok.mp made
  obtain ⟨_, checked, made⟩ := bind_eq_ok.mp made
  cases made
  exact ⟨rfl, rfl, rfl, rfl, rfl, optU64_eq_ok checked⟩

theorem objectRow_version (made : objectRow p bytes now = .ok row) :
    row.objVersion.map SqlInt.toU64 = p.objVersion := by
  obtain ⟨_, checked, made⟩ := bind_eq_ok.mp made
  obtain ⟨_, -, made⟩ := bind_eq_ok.mp made
  cases made
  exact optU64_eq_ok checked

theorem insertObject_run (ran : (insertObject seq p bytes now).run db = .ok () db') :
    ∃ row, objectRow p bytes now = .ok row ∧ db.objects[seq]? = none ∧
      db' = { db with objects := db.objects.insert seq row } := by
  obtain ⟨row, made, ran⟩ := read_bind_ok ran
  obtain ⟨_, unused, ran⟩ := read_bind_ok ran
  cases ran
  exact ⟨row, made, isNone_iff_eq_none.mp (require_eq_ok.mp unused), rfl⟩

/-- Everything the derived tables of one object can become. -/
inductive Materialized (seq : Nat) (p : ParsedObject) (now : Int64) (db : Db) : Db → Prop where
  | nothing (other : p.tag ≠ some .vault ∧ p.tag ≠ some .membershipManifest) :
      Materialized seq p now db db
  | vault (vaultId author : Bytes) (row : VaultRow) (isVault : p.tag = some .vault)
      (names : p.vaultId = some vaultId) (by_ : p.authorPubkey = some author)
      (owner : row.ownerPubkey = author)
      (claimed : ∀ old, db.vaults[vaultId]? = some old → old.ownerPubkey = author) :
      Materialized seq p now db { db with vaults := db.vaults.insert vaultId row }
  | known (epoch : SqlInt) (isManifest : p.tag = some .membershipManifest)
      (carries : p.keyEpoch = some epoch.toU64)
      (stored : db.manifests[(p.vaultId.getD [], epoch)]? ≠ none) : Materialized seq p now db db
  | manifest (epoch : SqlInt) (row : ManifestRow) (isManifest : p.tag = some .membershipManifest)
      (carries : p.keyEpoch = some epoch.toU64) (body : row.manifestBlob = p.manifestBlob.getD [])
      (first : db.manifests[(p.vaultId.getD [], epoch)]? = none) :
      Materialized seq p now db
        { db with manifests := db.manifests.insert (p.vaultId.getD [], epoch) row }
  | grant (epoch : SqlInt) (isGrant : p.tag = some .membershipGrant)
      (carries : p.keyEpoch = some epoch.toU64) :
      Materialized seq p now db { db with
        grants := db.grants.insert (grantKey p epoch)
          (grantRow seq p now db.grants[grantKey p epoch]?) }
  | compacted (pruned : ObjectRow → Bool) (isState : p.tag = some .accountState)
      (states : ∀ row, pruned row = true → row.objectTag = 7)
      (older : ∀ row, pruned row = true → row.objVersion.map SqlInt.toU64 ≠ p.objVersion) :
      Materialized seq p now db { db with objects := db.objects.filter fun _ row => !pruned row }

variable {author : Bytes}

/-- A vault row belongs to the author of its records, and stays in its space. -/
theorem vaultRowAfter_eq_ok {row : VaultRow}
    (made : vaultRowAfter db author version epoch syncTarget cachePolicy tombstone now old =
      .ok row) :
    row.ownerPubkey = author ∧ (∀ before, old = some before → before.ownerPubkey = author) ∧
      row.spaceId = old.bind VaultRow.spaceId := by
  cases old with
  | none =>
    cases made
    exact ⟨rfl, nofun, rfl⟩
  | some =>
    rw [vaultRowAfter] at made
    split at made
    · cases made
    · next same =>
      cases made
      rw [not_not] at same
      exact ⟨same, fun _ isOld => some.inj isOld ▸ same, rfl⟩

theorem materializeManifest_run (isManifest : p.tag = some .membershipManifest)
    (ran : (materializeManifest seq p now).run db = .ok () db') :
    Materialized seq p now db db' := by
  obtain ⟨epoch, carries, ran⟩ := read_bind_ok ran
  cases ran
  dsimp only
  have carries := reqU64_eq_ok carries
  cases stored : db.manifests[(p.vaultId.getD [], epoch)]? with
  | some row => exact .known epoch isManifest carries (stored ▸ some_ne_none row)
  | none => exact .manifest epoch _ isManifest carries rfl stored

theorem compactAccountState_run (isState : p.tag = some .accountState)
    (ran : (compactAccountState p).run db = .ok () db') : Materialized seq p now db db' := by
  unfold compactAccountState at ran
  split at ran
  · next author isVersion _ =>
    obtain ⟨n, made, ran⟩ := read_bind_ok ran
    cases ran
    let pruned (row : ObjectRow) : Bool := row.objectTag = 7 ∧ row.authorPubkey = some author ∧
      row.objVersion.any fun v => v.toU64 < n.toU64
    have older : ∀ row, pruned row = true → row.objVersion.map SqlInt.toU64 ≠ p.objVersion := by
      intro row isPruned same
      obtain ⟨-, -, below⟩ := of_decide_eq_true isPruned
      obtain ⟨v, found, below⟩ := any_eq_true _ _ |>.mp below
      rw [found, isVersion, ← toI64_eq_ok made] at same
      exact UInt64.lt_irrefl _ (some.inj same ▸ of_decide_eq_true below)
    have compacted := @Materialized.compacted seq p now db pruned isState
      (fun row isPruned => (of_decide_eq_true isPruned).1) older
    simpa [pruned] using compacted
  · cases ran
    have other : p.tag ≠ some .vault ∧ p.tag ≠ some .membershipManifest := by simp [isState]
    exact .nothing other

theorem materialize_run (ran : (materialize seq p now).run db = .ok () db') :
    Materialized seq p now db db' := by
  unfold materialize at ran
  split at ran
  · next isVault =>
    obtain ⟨vaultId, names, ran⟩ := read_bind_ok ran
    obtain ⟨author, signed, ran⟩ := read_bind_ok ran
    obtain ⟨_, -, ran⟩ := read_bind_ok ran
    obtain ⟨epoch, -, ran⟩ := read_bind_ok ran
    obtain ⟨row, made, ran⟩ := read_bind_ok ran
    cases ran
    obtain ⟨owner, claimed, -⟩ := vaultRowAfter_eq_ok made
    exact .vault vaultId author row isVault (okOr_eq_ok.mp names) (okOr_eq_ok.mp signed) owner
      claimed
  · next isManifest => exact materializeManifest_run isManifest ran
  · next isGrant =>
    obtain ⟨epoch, carries, ran⟩ := read_bind_ok ran
    cases ran
    exact .grant epoch isGrant (reqU64_eq_ok carries)
  · next isState => exact compactAccountState_run isState ran
  · next notVault notManifest _ _ =>
    cases ran
    exact .nothing ⟨notVault, notManifest⟩

/-! ## Lists of objects -/

/-- Who a grant row is from: its author and the log entry it was written from. -/
def GrantRow.source (row : GrantRow) : Bytes × Nat := (row.authorPubkey, row.serverSeq)

/-- The row under `key` was written from this object, which is in the log. -/
def PushObj.Wrote (it : PushObj) (db : Db) (key : Bytes × Bytes × SqlInt) (row : GrantRow) : Prop :=
  it.parsed.tag = some .membershipGrant ∧ grantKey it.parsed key.2.2 = key ∧
    it.parsed.keyEpoch = some key.2.2.toU64 ∧ row.authorPubkey = it.parsed.authorPubkey.getD [] ∧
    ∃ obj now, db.objects[row.serverSeq]? = some obj ∧ objectRow it.parsed it.bytes now = .ok obj

theorem tag_eq_grant (isGrant : ObjectTag.fromU8 b = some .membershipGrant) : b = 4 := by
  unfold ObjectTag.fromU8 at isGrant
  grind

variable {it : PushObj}

theorem PushObj.Wrote.mono {row row' : GrantRow} (wrote : it.Wrote db key row)
    (grows : db.Extends db') (same : row'.source = row.source) :
    it.Wrote db' key row' := by
  obtain ⟨isGrant, isKey, epoch, author, obj, now, logged, made⟩ := wrote
  obtain ⟨sameAuthor, sameSeq⟩ := Prod.ext_iff.mp same
  refine ⟨isGrant, isKey, epoch, sameAuthor.trans author, obj, now, ?_, made⟩
  have logTag : obj.objectTag = 4 := (objectRow_eq_ok made).1.trans (tag_eq_grant isGrant)
  rw [show row'.serverSeq = row.serverSeq from sameSeq]
  exact grows.log _ obj logged logTag

/-- What storing objects does to owners, manifests, grants and the log. -/
structure Stores (db : Db) (items : List PushObj) (db' : Db) : Prop where
  grows : db.Extends db'
  parses : db.LogParses → db'.LogParses
  owners : ∀ it ∈ items, it.parsed.tag = some .vault → ∀ vaultId author,
    it.parsed.vaultId = some vaultId → it.parsed.authorPubkey = some author →
      db'.getVaultOwner vaultId = some author
  grants : ∀ key row', db'.grants[key]? = some row' →
    (∃ row, db.grants[key]? = some row ∧ row'.source = row.source) ∨
      ∃ it ∈ items, it.Wrote db' key row'
  frame : ∀ key : Bytes × Bytes × SqlInt,
    (∀ it ∈ items, it.parsed.tag = some .membershipGrant → it.parsed.vaultId.getD [] ≠ key.1) →
      db'.grants[key]? = db.grants[key]?

namespace Stores

/-- Writes to other tables store nothing. -/
theorem of_tables (vaults : db'.vaults = db.vaults) (manifests : db'.manifests = db.manifests)
    (objects : db'.objects = db.objects) (grants : db'.grants = db.grants) : Stores db [] db' where
  grows := ⟨vaults ▸ .refl _, manifests ▸ .refl _, fun _ _ found _ => objects ▸ found⟩
  parses := fun parses seq row found => parses seq row (objects ▸ found)
  owners := fun _ member => (not_mem_nil member).elim
  grants := fun _ row found => .inl ⟨row, grants ▸ found, rfl⟩
  frame := fun key _ => congrArg (fun rows => rows[key]?) grants

theorem nil (db : Db) : Stores db [] db := .of_tables rfl rfl rfl rfl

theorem append (before : Stores db first mid) (after : Stores mid second db') :
    Stores db (first ++ second) db' where
  grows := before.grows.trans after.grows
  parses := after.parses ∘ before.parses
  owners := by
    intro it member isVault vaultId author names signed
    rcases mem_append.mp member with early | late
    · exact after.grows.owner (before.owners it early isVault vaultId author names signed)
    · exact after.owners it late isVault vaultId author names signed
  grants := by
    intro key row' found
    rcases after.grants key row' found with ⟨row, found', same⟩ | ⟨it, member, wrote⟩
    · rcases before.grants key row found' with ⟨row₀, found₀, same₀⟩ | ⟨it, member, wrote⟩
      · exact .inl ⟨row₀, found₀, same.trans same₀⟩
      · exact .inr ⟨it, mem_append_left _ member, wrote.mono after.grows same⟩
    · exact .inr ⟨it, mem_append_right _ member, wrote⟩
  frame := by
    intro key others
    have late := after.frame key fun it member => others it (mem_append_right _ member)
    have early := before.frame key fun it member => others it (mem_append_left _ member)
    exact late.trans early

end Stores

/-- Appending an object to the log changes nothing that decides about access. -/
theorem insertObject_extends (unused : db.objects[seq]? = none) :
    db.Extends { db with objects := db.objects.insert seq row } := by
  refine ⟨.refl _, .refl _, ?_⟩
  intro _ _ found _
  exact Table.insert_of_free unused found

namespace Materialized

variable {seq : Nat} {p : ParsedObject} {now : Int64} {db db' : Db}
  (materialized : Materialized seq p now db db')
include materialized

theorem extends_ : db.Extends db' := by
  have same := Db.Extends.refl db
  cases materialized with
  | vault _ _ _ _ _ _ owner claimed =>
    refine { same with vaults := Table.Grows.insert ?_ }
    intro old found
    exact owner.trans (claimed old found).symm
  | manifest _ _ _ _ _ first =>
    refine { same with manifests := Table.Grows.insert ?_ }
    intro _ found
    rw [first] at found
    cases found
  | grant => exact { same with }
  | compacted pruned isState states =>
    refine { same with log := ?_ }
    intro _ row found isGrant
    have kept : pruned row = false := by
      by_contra chosen
      have isState := states row (Bool.not_eq_false _ ▸ chosen)
      rw [isGrant] at isState
      revert isState
      decide
    simp [found, kept]
  | _ => exact same

theorem parses (parses : db.LogParses) : db'.LogParses := by
  cases materialized with
  | compacted =>
    intro seq' row found
    rw [getElem?_filter'] at found
    exact parses seq' row (filter_eq_some_iff.mp found).1
  | _ => exact parses

theorem owner (isVault : p.tag = some .vault) (names : p.vaultId = some vaultId)
    (signed : p.authorPubkey = some author) : db'.getVaultOwner vaultId = some author := by
  cases materialized with
  | nothing other => exact (other.1 isVault).elim
  | known _ isManifest => cases isVault.symm.trans isManifest
  | vault _ _ _ _ names' signed' owner =>
    cases names.symm.trans names'
    cases signed.symm.trans signed'
    simp [Db.getVaultOwner, owner]
  | manifest _ _ isManifest => cases isVault.symm.trans isManifest
  | grant _ isGrant => cases isVault.symm.trans isGrant
  | compacted _ isState => cases isVault.symm.trans isState

theorem grants (key : Bytes × Bytes × SqlInt) :
    db'.grants[key]? = db.grants[key]? ∨ p.tag = some .membershipGrant ∧ grantKey p key.2.2 = key ∧
        p.keyEpoch = some key.2.2.toU64 ∧
        db'.grants[key]? = some (grantRow seq p now db.grants[key]?) := by
  cases materialized with
  | grant epoch isGrant carries =>
    by_cases own : grantKey p epoch = key
    · right
      subst own
      exact ⟨isGrant, rfl, carries, getElem?_insert_self⟩
    · left
      rw [Table.getElem?_insert, if_neg own]
  | _ => exact .inl rfl

end Materialized

theorem storeObject_stores (parsed : parseOpen it.bytes = .ok it.parsed)
    (ran : (storeObject seq it now).run db = .ok () db') : Stores db [it] db' := by
  obtain ⟨_, _, inserted, ran⟩ := bind_run_ok ran
  obtain ⟨row, made, unused, rfl⟩ := insertObject_run inserted
  have materialized := materialize_run ran
  obtain ⟨isTag, isBytes, -⟩ := objectRow_eq_ok made
  refine
    { grows := (insertObject_extends unused).trans materialized.extends_
      parses := fun parses => materialized.parses fun seq' row' found => by
        obtain ⟨-, rfl⟩ | ⟨-, found⟩ := Table.of_insert found
        · exact ⟨it.parsed, isBytes ▸ parsed, isTag.symm⟩
        · exact parses seq' row' found
      owners := ?_
      grants := ?_
      frame := ?_ }
  · intro _ member isVault _ _ names signed
    cases mem_singleton.mp member
    exact materialized.owner isVault names signed
  · intro key row' found
    rcases materialized.grants key with same | ⟨isGrant, isKey, epoch, wrote⟩
    · exact .inl ⟨row', same.symm.trans found, rfl⟩
    · right
      refine ⟨it, mem_singleton_self it, isGrant, isKey, epoch, ?_⟩
      cases wrote.symm.trans found
      refine ⟨rfl, row, now, ?_, made⟩
      have logged : row.objectTag = 4 := isTag.trans (tag_eq_grant isGrant)
      exact materialized.extends_.log seq row getElem?_insert_self logged
  · intro key others
    rcases materialized.grants key with same | ⟨isGrant, isKey, -⟩
    · exact same
    · exact (others it (mem_singleton_self it) isGrant (congrArg Prod.fst isKey)).elim

variable {seqs : List Nat} {result : Option (List Nat)} {newEpoch : SqlInt}
  {items : List PushObj} {vaultId : Bytes}

theorem storeObjects_stores (parsed : ∀ it ∈ items, parseOpen it.bytes = .ok it.parsed)
    (ran : (storeObjects now seq items).run db = .ok seqs db') : Stores db items db' := by
  induction items generalizing seq seqs db with
  | nil =>
    cases ran
    exact .nil _
  | cons it _ ih =>
    obtain ⟨_, _, first, ran⟩ := bind_run_ok ran
    obtain ⟨_, _, second, ran⟩ := bind_run_ok ran
    cases ran
    have head := storeObject_stores (parsed it mem_cons_self) first
    exact head.append (ih (fun it member => parsed it (mem_cons_of_mem _ member)) second)

/-! ## The transactions -/

theorem transact_eq_ok {α : Type} {tx : Tx α} {a : α} (ran : transact tx db = .ok (a, db')) :
    tx.run db = .ok a db' := by
  unfold transact at ran
  cases outcome : tx.run db with
  | ok =>
    rw [outcome] at ran
    cases ran
    rfl
  | error =>
    rw [outcome] at ran
    cases ran

theorem numbered_stores {first n : Nat} (parsed : ∀ it ∈ items, parseOpen it.bytes = .ok it.parsed)
    (ran : (storeObjects now first items).run { db with nextSeq := n } = .ok seqs db') :
    Stores db items db' := by
  have numbered : Stores db [] { db with nextSeq := n } := .of_tables rfl rfl rfl rfl
  exact numbered.append (storeObjects_stores parsed ran)

variable {idem : Option Bytes} {requestHash : Bytes}

/-- A push stored its objects and recorded them under its key, or the key was taken. -/
theorem commitPush_parts (ran : commitPush idem requestHash items now db = .ok (result, db')) :
    ∃ seqs stored, (storeObjects now (db.nextSeq + 1) items).run
        { db with nextSeq := db.nextSeq + items.length } = .ok seqs stored ∧
      ((result = none ∧ db' = db ∧
          ∃ key record, idem = some key ∧ stored.idempotencyKeys[key]? = some record) ∨
        result = some seqs ∧ ∃ keys, db' = { stored with idempotencyKeys := keys } ∧
          (idem = none → keys = stored.idempotencyKeys) ∧
          ∀ key, idem = some key → stored.idempotencyKeys[key]? = none ∧
            keys = stored.idempotencyKeys.insert key { requestHash, response := seqs }) := by
  unfold commitPush at ran
  cases done : transact (pushTx idem requestHash items now) db with
  | error =>
    rw [done] at ran
    cases ran
  | ok outcome =>
    rw [done] at ran
    obtain ⟨_, _⟩ := outcome
    obtain ⟨_, _, allocated, done⟩ := bind_run_ok (transact_eq_ok done)
    cases allocated
    obtain ⟨seqs, stored, wrote, done⟩ := bind_run_ok done
    refine ⟨seqs, stored, wrote, ?_⟩
    cases idem with
    | none =>
      cases done
      cases ran
      exact .inr ⟨rfl, _, rfl, fun _ => rfl, nofun⟩
    | some key =>
      obtain ⟨_, _, read, done⟩ := bind_run_ok done
      cases read
      split at done
      · next record taken =>
        cases done
        cases ran
        exact .inl ⟨rfl, rfl, key, record, rfl, taken⟩
      · next free =>
        cases done
        cases ran
        refine .inr ⟨rfl, _, rfl, nofun, ?_⟩
        rintro _ ⟨⟩
        exact ⟨free, rfl⟩

/-- A push stores its objects or nothing. -/
theorem commitPush_stores (parsed : ∀ it ∈ items, parseOpen it.bytes = .ok it.parsed)
    (ran : commitPush idem requestHash items now db = .ok (result, db')) :
    db' = db ∨ Stores db items db' := by
  obtain ⟨_, stored, wrote, ⟨-, same, -⟩ | ⟨-, keys, rfl, -⟩⟩ := commitPush_parts ran
  · exact .inl same
  · have remembered : Stores stored [] { stored with idempotencyKeys := keys } :=
      .of_tables rfl rfl rfl rfl
    have stores := (numbered_stores parsed wrote).append remembered
    rw [append_nil] at stores
    exact .inr stores

/-- What is stored again for new members is in the log of the vault, and is no grant. -/
theorem mem_reemitted (member : row ∈ reemitted db vaultId newEpoch) :
    row.objectTag ≠ 4 ∧ row.vaultId = some vaultId ∧ ∃ seq : Nat, db.objects[seq]? = some row := by
  have logged : ∀ {κ : Type} [DecidableEq κ] {tag : UInt8} {group : ObjectRow → κ}, tag ≠ 4 →
      row ∈ lastOf (db.objects.toList.filter fun entry => entry.2.vaultId = some vaultId)
        (fun row => row.objectTag = tag) group →
      row.objectTag ≠ 4 ∧ row.vaultId = some vaultId ∧
        ∃ seq : Nat, db.objects[seq]? = some row := by
    intro κ _ _ _ other last
    obtain ⟨_, listed, picked⟩ := mem_filterMap.mp last
    split at picked
    · cases picked
    · cases picked
      obtain ⟨-, -, isRow⟩ := mem_zipIdx listed
      obtain ⟨inRows, isTag⟩ := mem_filter.mp (isRow ▸ getElem_mem _)
      obtain ⟨⟨seq, _⟩, inRows, rfl⟩ := mem_map.mp inRows
      obtain ⟨inLog, isVault⟩ := mem_filter.mp inRows
      refine ⟨of_decide_eq_true isTag ▸ other, of_decide_eq_true isVault, seq, ?_⟩
      exact mem_toList_iff_getElem?_eq_some.mp inLog
  rcases mem_append.mp member with early | item
  · rcases mem_append.mp early with vault | manifest
    · exact logged (by decide) vault
    · exact logged (by decide) (mem_filter.mp manifest).1
  · exact logged (by decide) (mem_filter.mp item).1

/-- A logged object, parsed again. -/
def ObjectRow.reparse (row : ObjectRow) : Except AppError PushObj := do
  let parsed ← parseOpen row.objectBytes
  .ok { bytes := row.objectBytes, parsed }

theorem reparse_eq_ok (made : row.reparse = .ok it) :
    it.bytes = row.objectBytes ∧ parseOpen row.objectBytes = .ok it.parsed := by
  obtain ⟨_, read, made⟩ := bind_eq_ok.mp made
  cases made
  exact ⟨rfl, read⟩

theorem storeAgain_run (ran : (storeAgain now seq rows).run db = .ok () db') :
    ∃ items seqs, rows.mapM ObjectRow.reparse = .ok items ∧
      (storeObjects now seq items).run db = .ok seqs db' := by
  induction rows generalizing seq db with
  | nil =>
    cases ran
    exact ⟨[], [], rfl, rfl⟩
  | cons row _ ih =>
    obtain ⟨parsed, read, ran⟩ := read_bind_ok ran
    obtain ⟨_, _, first, ran⟩ := bind_run_ok ran
    obtain ⟨items, seqs, same, later⟩ := ih ran
    refine ⟨{ bytes := row.objectBytes, parsed } :: items, seq :: seqs, ?_, ?_⟩
    · rw [mapM_cons, ObjectRow.reparse, read, ok_bind, ok_bind, same]
      rfl
    · rw [storeObjects, EStateM.run_bind, first]
      dsimp only
      rw [EStateM.run_bind, later]
      rfl

theorem reemitted_reparsed (parses : db.LogParses)
    (reparsed : (reemitted db vaultId newEpoch).mapM ObjectRow.reparse = .ok again) (it : PushObj)
    (member : it ∈ again) :
    parseOpen it.bytes = .ok it.parsed ∧ it.parsed.tag ≠ some .membershipGrant := by
  obtain ⟨row, listed, made⟩ := (mapM_eq_ok reparsed).1 it member
  obtain ⟨isBytes, read⟩ := reparse_eq_ok made
  refine ⟨isBytes ▸ read, fun isGrant => ?_⟩
  obtain ⟨other, -, seq, logged⟩ := mem_reemitted listed
  obtain ⟨p, read', isTag⟩ := parses seq row logged
  cases read'.symm.trans read
  exact other (isTag ▸ tag_eq_grant isGrant)

/-- Only the grants of one vault changed, and none of those its source. -/
structure Revokes (vaultId : Bytes) (db db' : Db) : Prop where
  vaults : db'.vaults = db.vaults
  manifests : db'.manifests = db.manifests
  objects : db'.objects = db.objects
  grants : ∀ (key : Bytes × Bytes × SqlInt) row', db'.grants[key]? = some row' →
    ∃ row, db.grants[key]? = some row ∧ row'.source = row.source
  frame : ∀ key : Bytes × Bytes × SqlInt, key.1 ≠ vaultId → db'.grants[key]? = db.grants[key]?

variable {revokeEpoch : Option Int}

theorem revokeGrants_revokes (ran : (revokeGrants vaultId revokeEpoch).run db = .ok () db') :
    Revokes vaultId db db' := by
  cases revokeEpoch with
  | none =>
    cases ran
    exact ⟨rfl, rfl, rfl, fun _ row found => ⟨row, found, rfl⟩, fun _ _ => rfl⟩
  | some =>
    cases ran
    refine ⟨rfl, rfl, rfl, ?_, ?_⟩
    · intro key _ found
      rw [Table.getElem?_updateWhere] at found
      obtain ⟨row, old, rfl⟩ := map_eq_some_iff.mp found
      refine ⟨row, old, ?_⟩
      split <;> rfl
    · intro _ other
      rw [Table.getElem?_updateWhere]
      simp [other]

variable {manifest : PushObj}

/-- The parts of a publish: its objects, the current state of the vault again, the revocation. -/
theorem publishTx_parts
    (ran : (publishTx vaultId manifest grants revokeEpoch now).run db = .ok seqs db') :
    ∃ stored newEpoch again seqs' last, (storeObjects now (db.nextSeq + 1) (manifest :: grants)).run
        { db with nextSeq := db.nextSeq + (manifest :: grants).length } = .ok seqs stored ∧
      toI64 (manifest.parsed.keyEpoch.getD 0) "manifest.key_epoch" = .ok newEpoch ∧
      (reemitted stored vaultId newEpoch).mapM ObjectRow.reparse = .ok again ∧
      (storeObjects now (stored.nextSeq + 1) again).run
        { stored with nextSeq := stored.nextSeq + again.length } = .ok seqs' last ∧
      (revokeGrants vaultId revokeEpoch).run last = .ok () db' := by
  obtain ⟨_, _, allocated, ran⟩ := bind_run_ok ran
  cases allocated
  obtain ⟨_, stored, wrote, ran⟩ := bind_run_ok ran
  obtain ⟨newEpoch, isEpoch, ran⟩ := read_bind_ok ran
  obtain ⟨_, mid, emitted, ran⟩ := bind_run_ok ran
  obtain ⟨_, _, revoked, ran⟩ := bind_run_ok ran
  cases ran
  rw [Nat.add_comm 1] at wrote
  obtain ⟨_, read, emitted⟩ := read_bind_ok emitted
  cases read
  obtain ⟨_, _, allocated, emitted⟩ := bind_run_ok emitted
  cases allocated
  obtain ⟨again, seqs', reparsed, storedAgain⟩ := storeAgain_run emitted
  exact ⟨stored, newEpoch, again, seqs', mid, wrote, isEpoch, reparsed,
    mapM_length reparsed ▸ storedAgain, revoked⟩

/-- A publish stores its manifest, its grants and no other grant, and then revokes. -/
theorem publishTx_run (parses : db.LogParses)
    (parsed : ∀ it ∈ manifest :: grants, parseOpen it.bytes = .ok it.parsed)
    (ran : (publishTx vaultId manifest grants revokeEpoch now).run db = .ok seqs db') :
    ∃ items mid, (∀ it ∈ items, it.parsed.tag = some .membershipGrant → it ∈ manifest :: grants) ∧
      Stores db items mid ∧ Revokes vaultId mid db' := by
  obtain ⟨_, _, _, _, last, wrote, -, reparsed, wroteAgain, revoked⟩ :=
    publishTx_parts ran
  have stores := numbered_stores parsed wrote
  have others := fun it member => (reemitted_reparsed (stores.parses parses) reparsed it member).2
  have storesAgain := numbered_stores (fun it member =>
    (reemitted_reparsed (stores.parses parses) reparsed it member).1) wroteAgain
  refine ⟨_, last, ?_, stores.append storesAgain, revokeGrants_revokes revoked⟩
  intro it member isGrant
  rcases mem_append.mp member with own | old
  · exact own
  · exact (others it old isGrant).elim

end UniSsh.Server
