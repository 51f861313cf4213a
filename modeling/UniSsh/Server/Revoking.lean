import UniSsh.Server.Acl
import UniSsh.Server.Storable

/-!
# Who can revoke

A publish revokes grants of its manifest's vault. The handler resolves the role of the manifest's
author but never that of the caller, so the vaults affected are exactly the ones named.
-/

namespace UniSsh.Server

open Option

open List

variable {P : Primitives} {config : Config}

/-- The owner of a vault, or an admin of one of its stored manifests. -/
def Db.AdminIn (db : Db) (vaultId key : Bytes) : Prop := ∃ epoch, db.AdminOf vaultId epoch key

/-! ## Derived rows -/

/-- The row that a vault record or a manifest is written to is there. -/
structure ParsedObject.Derived (p : ParsedObject) (db : Db) : Prop where
  vault : p.tag = some .vault → ∀ vaultId, p.vaultId = some vaultId →
    db.getVaultOwner vaultId ≠ none
  manifest : p.tag = some .membershipManifest → ∀ epoch : SqlInt,
    p.keyEpoch = some epoch.toU64 → db.manifests[(p.vaultId.getD [], epoch)]? ≠ none

/-- The manifest row under `key` has the body of this object. -/
def ParsedObject.Makes (p : ParsedObject) (key : Bytes × SqlInt) (row : ManifestRow) : Prop :=
  p.tag = some .membershipManifest ∧ key.1 = p.vaultId.getD [] ∧
    p.keyEpoch = some key.2.toU64 ∧ row.manifestBlob = p.manifestBlob.getD []

variable {db db' : Db}

theorem ParsedObject.Derived.mono {p : ParsedObject} (derived : p.Derived db)
    (grows : db.Extends db') : p.Derived db' where
  vault := by
    intro isVault vaultId names
    obtain ⟨owner, found⟩ := ne_none_iff_exists'.mp (derived.vault isVault vaultId names)
    exact grows.owner found ▸ some_ne_none owner
  manifest := by
    intro isManifest epoch carries
    obtain ⟨row, found⟩ := ne_none_iff_exists'.mp (derived.manifest isManifest epoch carries)
    obtain ⟨row', found', -⟩ := grows.manifests _ row found
    exact found' ▸ some_ne_none row'

/-- Every owner, manifest and revocation is an old one, or comes from one of the objects. -/
structure Derives (db : Db) (items : List PushObj) (db' : Db) : Prop where
  grows : db.Extends db'
  derived : ∀ it ∈ items, it.parsed.Derived db'
  owners : ∀ vaultId owner, db'.getVaultOwner vaultId = some owner →
    db.getVaultOwner vaultId = some owner ∨ ∃ it ∈ items, it.parsed.Claims vaultId owner
  manifests : ∀ (key : Bytes × SqlInt) row, db'.manifests[key]? = some row →
    db.manifests[key]? = some row ∨ ∃ it ∈ items, it.parsed.Makes key row
  revoked : ∀ (key : Bytes × Bytes × SqlInt) row', db'.grants[key]? = some row' →
    row'.revoked = true → ∃ row, db.grants[key]? = some row ∧ row.revoked = true

namespace Derives

theorem of_tables (vaults : db'.vaults = db.vaults) (manifests : db'.manifests = db.manifests)
    (objects : db'.objects = db.objects) (grants : db'.grants = db.grants) : Derives db [] db' where
  grows := ⟨vaults ▸ .refl _, manifests ▸ .refl _, fun _ _ found _ => objects ▸ found⟩
  derived := fun _ member => (not_mem_nil member).elim
  owners := fun vaultId _ found => .inl (by rwa [Db.getVaultOwner, vaults] at found)
  manifests := fun _ _ found => .inl (manifests ▸ found)
  revoked := fun _ row found isRevoked => ⟨row, grants ▸ found, isRevoked⟩

variable {items : List PushObj}

theorem append (first : Derives db items mid) (second : Derives mid items' db') :
    Derives db (items ++ items') db' where
  grows := first.grows.trans second.grows
  derived := by
    intro it member
    rcases mem_append.mp member with early | late
    · exact (first.derived it early).mono second.grows
    · exact second.derived it late
  owners := by
    intro vaultId owner found
    rcases second.owners vaultId owner found with found | ⟨it, late, claims⟩
    · rcases first.owners vaultId owner found with old | ⟨it, early, claims⟩
      · exact .inl old
      · exact .inr ⟨it, mem_append_left _ early, claims⟩
    · exact .inr ⟨it, mem_append_right _ late, claims⟩
  manifests := by
    intro key row found
    rcases second.manifests key row found with found | ⟨it, late, makes⟩
    · rcases first.manifests key row found with old | ⟨it, early, makes⟩
      · exact .inl old
      · exact .inr ⟨it, mem_append_left _ early, makes⟩
    · exact .inr ⟨it, mem_append_right _ late, makes⟩
  revoked := by
    intro key row' found isRevoked
    obtain ⟨row, found, isRevoked⟩ := second.revoked key row' found isRevoked
    exact first.revoked key row found isRevoked

theorem idle (derives : Derives db items db') (already : ∀ it ∈ items, it.parsed.Derived db) :
    (∀ vaultId, db'.getVaultOwner vaultId = db.getVaultOwner vaultId) ∧
      ∀ key : Bytes × SqlInt, db'.manifests[key]? = db.manifests[key]? := by
  constructor
  · intro vaultId
    cases before : db.getVaultOwner vaultId with
    | some => exact derives.grows.owner before
    | none =>
      refine eq_none_iff_forall_ne_some.mpr fun owner found => ?_
      rcases derives.owners vaultId owner found with old | ⟨it, member, isVault, names, -⟩
      · exact some_ne_none owner (old.symm.trans before)
      · exact (already it member).vault isVault vaultId names before
  · rintro ⟨vaultId, epoch⟩
    cases before : db.manifests[(vaultId, epoch)]? with
    | some row =>
      obtain ⟨row', after, rfl⟩ := derives.grows.manifests _ row before
      exact after
    | none =>
      refine eq_none_iff_forall_ne_some.mpr fun row found => ?_
      rcases derives.manifests _ row found with old | ⟨it, member, isManifest, rfl, carries, -⟩
      · exact some_ne_none row (old.symm.trans before)
      · exact (already it member).manifest isManifest epoch carries before

end Derives

namespace Materialized

variable {seq : Nat} {p : ParsedObject} {now : Int64} {db db' : Db}

theorem derived (materialized : Materialized seq p now db db') : p.Derived db' where
  vault := by
    intro isVault vaultId names
    cases materialized with
    | nothing other => exact (other.1 isVault).elim
    | known _ isManifest => cases isVault.symm.trans isManifest
    | vault _ _ _ _ names' =>
      cases names.symm.trans names'
      simp [Db.getVaultOwner]
    | manifest _ _ isManifest => cases isVault.symm.trans isManifest
    | grant _ isGrant => cases isVault.symm.trans isGrant
    | compacted _ isState => cases isVault.symm.trans isState
  manifest := by
    intro isManifest epoch carries
    cases materialized with
    | nothing other => exact (other.2 isManifest).elim
    | known _ _ carries' stored =>
      cases SqlInt.ext (Option.some.inj (carries.symm.trans carries'))
      exact stored
    | vault _ _ _ isVault => cases isManifest.symm.trans isVault
    | manifest _ _ _ carries' =>
      cases SqlInt.ext (Option.some.inj (carries.symm.trans carries'))
      simp
    | grant _ isGrant => cases isManifest.symm.trans isGrant
    | compacted _ isState => cases isManifest.symm.trans isState

theorem manifests (materialized : Materialized seq p now db db') {key : Bytes × SqlInt}
    (found : db'.manifests[key]? = some row) :
    db.manifests[key]? = some row ∨ p.Makes key row := by
  cases materialized with
  | manifest _ _ isManifest carries body =>
    obtain ⟨rfl, rfl⟩ | ⟨-, found⟩ := Table.of_insert found
    · exact .inr ⟨isManifest, rfl, carries, body⟩
    · exact .inl found
  | _ => exact .inl found

end Materialized

variable {seq : Nat} {now : Int64}

variable {it : PushObj}

theorem storeObject_derives (ran : (storeObject seq it now).run db = .ok () db') :
    Derives db [it] db' := by
  have owners := (storeObject_owners ran).2.2
  obtain ⟨_, mid, inserted, ran⟩ := bind_run_ok ran
  obtain ⟨row, made, unused, rfl⟩ := insertObject_run inserted
  have materialized := materialize_run ran
  refine ⟨(insertObject_extends unused).trans materialized.extends_, ?_, ?_, ?_, ?_⟩
  · intro it' member
    cases mem_singleton.mp member
    exact materialized.derived
  · intro vaultId owner found
    exact (owners vaultId owner found).imp_right fun claims =>
      ⟨it, mem_singleton_self it, claims⟩
  · intro key row found
    exact (materialized.manifests found).imp_right fun makes =>
      ⟨it, mem_singleton_self it, makes⟩
  · intro key row' found isRevoked
    rcases materialized.grants key with same | ⟨-, -, -, wrote⟩
    · exact ⟨row', same.symm.trans found, isRevoked⟩
    · -- A grant written over a row keeps its revocation.
      cases wrote.symm.trans found
      obtain ⟨old, present, isRevoked⟩ : ∃ old, db.grants[key]? = some old ∧
          old.revoked = true := by
        cases before : db.grants[key]? with
        | none => simp [grantRow, before] at isRevoked
        | some old => exact ⟨old, rfl, by simpa [grantRow, before] using isRevoked⟩
      exact ⟨old, present, isRevoked⟩

variable {items : List PushObj}

variable {seqs : List Nat}

theorem storeObjects_derives (ran : (storeObjects now seq items).run db = .ok seqs db') :
    Derives db items db' := by
  induction items generalizing seq seqs db with
  | nil =>
    cases ran
    exact .of_tables rfl rfl rfl rfl
  | cons _ _ ih =>
    obtain ⟨_, mid, stored, ran⟩ := bind_run_ok ran
    obtain ⟨others, last, storedRest, ran⟩ := bind_run_ok ran
    cases ran
    exact (storeObject_derives stored).append (ih storedRest)

theorem numbered_derives
    (ran : (storeObjects now first items).run { db with nextSeq := n } = .ok seqs db') :
    Derives db items db' := by
  have numbered : Derives db [] { db with nextSeq := n } := .of_tables rfl rfl rfl rfl
  exact numbered.append (storeObjects_derives ran)

/-! ## The invariant -/

/-- Every logged object is what its row says, and its derived row is there. -/
structure LogInvariant (db : Db) : Prop where
  below : Log.Below db.objects (db.nextSeq + 1)
  logged : ∀ (seq : Nat) row, db.objects[seq]? = some row →
    ∃ p now, parseOpen row.objectBytes = .ok p ∧ objectRow p row.objectBytes now = .ok row ∧
      p.Derived db

theorem Committed.invariant (parsed : ∀ it ∈ items, parseOpen it.bytes = .ok it.parsed)
    (committed : Committed db items db') (derives : Derives db items db')
    (invariant : LogInvariant db) : LogInvariant db' where
  below := by
    rw [committed.next, Nat.add_right_comm]
    exact committed.log.below
  logged := by
    intro seq row found
    rcases Nat.lt_or_ge seq (db.nextSeq + 1) with early | late
    · obtain ⟨p, now, read, made, derived⟩ :=
        invariant.logged seq row (committed.log.old seq row found early)
      exact ⟨p, now, read, made, derived.mono derives.grows⟩
    · obtain ⟨i, rfl⟩ := Nat.exists_eq_add_of_le late
      have within : i < items.length := by
        have := committed.log.below _ row found
        omega
      have item : items[i]? = some items[i] := getElem?_eq_getElem within
      have member : items[i] ∈ items := getElem_mem within
      obtain ⟨now, made⟩ := committed.log.made i items[i] row item found
      have isBytes : row.objectBytes = items[i].bytes := (objectRow_eq_ok made).2.1
      rw [isBytes]
      exact ⟨items[i].parsed, now, parsed _ member, made, derives.derived _ member⟩

theorem LogInvariant.parses (invariant : LogInvariant db) : db.LogParses := by
  intro seq row found
  obtain ⟨p, now, read, made, -⟩ := invariant.logged seq row found
  exact ⟨p, read, (objectRow_eq_ok made).1.symm⟩

theorem LogInvariant.of_tables (invariant : LogInvariant db) (next : db'.nextSeq = db.nextSeq)
    (objects : db'.objects = db.objects) (grows : db.Extends db') : LogInvariant db' where
  below := by
    rw [next, objects]
    exact invariant.below
  logged := by
    intro seq row found
    obtain ⟨p, now, read, made, derived⟩ := invariant.logged seq row (objects ▸ found)
    exact ⟨p, now, read, made, derived.mono grows⟩

variable {again : List PushObj}

theorem LogInvariant.reemitted (invariant : LogInvariant db)
    (reparsed : (reemitted db vaultId newEpoch).mapM ObjectRow.reparse = .ok again) (it : PushObj)
    (member : it ∈ again) : it.parsed.vaultId = some vaultId ∧ it.parsed.Derived db := by
  obtain ⟨row, listed, reparse⟩ := (mapM_eq_ok reparsed).1 it member
  obtain ⟨-, isVault, seq, found⟩ := mem_reemitted listed
  obtain ⟨p, now, read, made, derived⟩ := invariant.logged seq row found
  cases read.symm.trans (reparse_eq_ok reparse).2
  exact ⟨(objectRow_eq_ok made).2.2.1.symm.trans isVault, derived⟩

/-! ## The effect of a publish -/

/-- A grant of the vault becomes revoked, or an object of the vault is appended to the log. -/
def Affects (db db' : Db) (vaultId : Bytes) : Prop :=
  (∃ (key : Bytes × Bytes × SqlInt) (row' : GrantRow), key.1 = vaultId ∧
    db'.grants[key]? = some row' ∧ row'.revoked = true ∧
      ∀ row, db.grants[key]? = some row → row.revoked = false) ∨
  ∃ (seq : Nat) (row : ObjectRow), db'.objects[seq]? = some row ∧ db.objects[seq]? = none ∧
    row.vaultId = some vaultId

/-- The manifest or a grant of the request is of the vault. -/
def PublishReq.Names (req : PublishReq) (vaultId : Bytes) : Prop :=
  ∃ bytes ∈ req.manifest :: req.grants, ∃ p, parseOpen bytes = .ok p ∧ p.vaultId = some vaultId

/-- The manifest of the request is the first of its epoch and has `key` as an admin. -/
def PublishReq.Appoints (req : PublishReq) (db : Db) (vaultId key : Bytes) : Prop :=
  ∃ (m : ParsedObject) (epoch : SqlInt) (set : MemberSet),
    parseOpen req.manifest = .ok m ∧ m.vaultId = some vaultId ∧
    m.keyEpoch = some epoch.toU64 ∧ db.manifests[(vaultId, epoch)]? = none ∧
    parseMemberSet (m.manifestBlob.getD []) = .ok set ∧ set.roleOf key = some .admin

structure PublishReq.Effect (req : PublishReq) (db db' : Db) : Prop where
  affects : ∀ vaultId, Affects db db' vaultId ↔ req.Names vaultId
  admins : ∀ vaultId key, db'.AdminIn vaultId key ↔
    db.AdminIn vaultId key ∨ req.Appoints db vaultId key

/-- The objects of a publish are those of its request. -/
structure PublishReq.ReadAs (req : PublishReq) (vaultId : Bytes) (manifest : PushObj)
    (grants : List PushObj) : Prop where
  names : manifest.parsed.vaultId = some vaultId
  isManifest : manifest.parsed.tag = some .membershipManifest
  isGrant : ∀ it ∈ grants, it.parsed.tag = some .membershipGrant
  parsed : ∀ it ∈ manifest :: grants, parseOpen it.bytes = .ok it.parsed
  isBytes : manifest.bytes = req.manifest
  listed : ∀ it ∈ manifest :: grants, it.bytes ∈ req.manifest :: req.grants
  all : ∀ bytes ∈ req.manifest :: req.grants, ∃ it ∈ manifest :: grants,
    parseOpen bytes = .ok it.parsed

section Publish

variable {req : PublishReq} {vaultId : Bytes} {manifest : PushObj} {grants : List PushObj}
  {revokeEpoch : Option Int} {now : Int64} {db db' : Db} {seqs : List Nat}

theorem PublishReq.ReadAs.names_iff (readAs : req.ReadAs vaultId manifest grants) (v : Bytes) :
    req.Names v ↔ ∃ it ∈ manifest :: grants, it.parsed.vaultId = some v := by
  constructor
  · rintro ⟨bytes, listed, p, read, names⟩
    obtain ⟨it, member, read'⟩ := readAs.all bytes listed
    cases read.symm.trans read'
    exact ⟨it, member, names⟩
  · rintro ⟨it, member, names⟩
    exact ⟨it.bytes, readAs.listed it member, it.parsed, readAs.parsed it member, names⟩

/-- The states of a publish: after its own objects, after the vault's state again, and at the
end. -/
structure PublishPhases (vaultId : Bytes) (items : List PushObj) (db stored : Db)
    (again : List PushObj) (last db' : Db) : Prop where
  committed : Committed db items stored
  derives : Derives db items stored
  current : ∀ it ∈ again, it.parsed.vaultId = some vaultId ∧ it.parsed.Derived stored
  committedAll : Committed db (items ++ again) last
  derivesAgain : Derives stored again last
  invariant : LogInvariant last
  revokes : Revokes vaultId last db'
  next : db'.nextSeq = last.nextSeq

theorem publishTx_phases (readAs : req.ReadAs vaultId manifest grants) (invariant : LogInvariant db)
    (ran : (publishTx vaultId manifest grants revokeEpoch now).run db = .ok seqs db') :
    ∃ stored again last, PublishPhases vaultId (manifest :: grants) db stored again last db' := by
  obtain ⟨stored, newEpoch, again, _, last, wrote, -, reparsed, wroteAgain, revoked⟩ :=
    publishTx_parts ran
  obtain ⟨-, committed, -⟩ := storeObjects_committed invariant.below wrote
  have derives := numbered_derives wrote
  have mid := committed.invariant readAs.parsed derives invariant
  obtain ⟨-, committedAgain, -⟩ := storeObjects_committed mid.below wroteAgain
  have derivesAgain := numbered_derives wroteAgain
  have parsedAgain := fun it member => (reemitted_reparsed mid.parses reparsed it member).1
  exact ⟨stored, again, last,
    { committed, derives, derivesAgain
      current := mid.reemitted reparsed
      committedAll := committed.append committedAgain
      invariant := committedAgain.invariant parsedAgain derivesAgain mid
      revokes := revokeGrants_revokes revoked
      next := congrArg Prod.fst (revokeGrants_log revoked).1 }⟩

namespace PublishPhases

variable {items again : List PushObj} {stored last : Db}
  (phases : PublishPhases vaultId items db stored again last db')
include phases

theorem grows : db.Extends db' :=
  phases.derives.grows.trans (phases.derivesAgain.grows.trans phases.revokes.extends)

theorem kept : LogInvariant db' :=
  phases.invariant.of_tables phases.next phases.revokes.objects phases.revokes.extends

/-- Only grants of the vault become revoked. -/
theorem revoked {key : Bytes × Bytes × SqlInt} (found : db'.grants[key]? = some row')
    (isRevoked : row'.revoked = true)
    (before : ∀ row, db.grants[key]? = some row → row.revoked = false) : key.1 = vaultId := by
  by_contra other
  rw [phases.revokes.frame key other] at found
  obtain ⟨mid, found, isRevoked⟩ := phases.derivesAgain.revoked key row' found isRevoked
  obtain ⟨row, found, isRevoked⟩ := phases.derives.revoked key mid found isRevoked
  exact Bool.false_ne_true ((before row found).symm.trans isRevoked)

theorem appended {row : ObjectRow}
    (found : db'.objects[seq]? = some row) (fresh : db.objects[seq]? = none) :
    ∃ it ∈ items ++ again, row.vaultId = it.parsed.vaultId := by
  rw [phases.revokes.objects] at found
  have late : db.nextSeq + 1 ≤ seq := by
    by_contra early
    have old := phases.committedAll.log.old seq row found (Nat.not_le.mp early)
    exact some_ne_none row (old.symm.trans fresh)
  obtain ⟨i, rfl⟩ := Nat.exists_eq_add_of_le late
  have within : i < (items ++ again).length := by
    have := phases.committedAll.log.below _ row found
    omega
  obtain ⟨_, made⟩ := phases.committedAll.log.made i _ row (getElem?_eq_getElem within) found
  exact ⟨_, getElem_mem within, (objectRow_eq_ok made).2.2.1⟩

theorem appends (below : Log.Below db.objects (db.nextSeq + 1)) (member : it ∈ items)
    (other : it.parsed.tagU8 ≠ 7) :
    ∃ (seq : Nat) (row : ObjectRow), db'.objects[seq]? = some row ∧ db.objects[seq]? = none ∧
      row.vaultId = it.parsed.vaultId := by
  obtain ⟨i, item⟩ := mem_iff_getElem?.mp (mem_append_left again member)
  obtain ⟨row, found⟩ := phases.committedAll.log.present i it item other
  obtain ⟨_, made⟩ := phases.committedAll.log.made i it row item found
  refine ⟨_, row, phases.revokes.objects ▸ found, ?_, (objectRow_eq_ok made).2.2.1⟩
  refine eq_none_iff_forall_ne_some.mpr fun old present => ?_
  have := below _ old present
  omega

theorem admins (v key : Bytes) : db'.AdminIn v key ↔ stored.AdminIn v key := by
  obtain ⟨owners, manifests⟩ := phases.derivesAgain.idle fun it member =>
    (phases.current it member).2
  have owner : db'.getVaultOwner v = stored.getVaultOwner v := by
    rw [← owners v, Db.getVaultOwner, phases.revokes.vaults]
    rfl
  unfold Db.AdminIn Db.AdminOf
  rw [owner, phases.revokes.manifests]
  simp only [manifests]

end PublishPhases

variable {stored last : Db}

theorem publishTx_affects (readAs : req.ReadAs vaultId manifest grants)
    (invariant : LogInvariant db)
    (phases : PublishPhases vaultId (manifest :: grants) db stored again last db') (v : Bytes) :
    Affects db db' v ↔ req.Names v := by
  rw [readAs.names_iff]
  constructor
  · rintro (⟨key, row', rfl, found, isRevoked, before⟩ | ⟨seq, row, found, fresh, isVault⟩)
    · refine ⟨manifest, mem_cons_self, ?_⟩
      rw [phases.revoked found isRevoked before]
      exact readAs.names
    · obtain ⟨it, member, same⟩ := phases.appended found fresh
      rcases mem_append.mp member with own | current
      · exact ⟨it, own, same.symm.trans isVault⟩
      · refine ⟨manifest, mem_cons_self, readAs.names.trans ?_⟩
        rw [← (phases.current it current).1, ← same, isVault]
  · rintro ⟨it, member, names⟩
    have other : it.parsed.tagU8 ≠ 7 := by
      intro isState
      have tag : it.parsed.tag = some .accountState := by
        rw [ParsedObject.tag, isState]
        rfl
      rcases mem_cons.mp member with rfl | isGrant
      · cases readAs.isManifest.symm.trans tag
      · cases (readAs.isGrant it isGrant).symm.trans tag
    obtain ⟨seq, row, found, fresh, same⟩ := phases.appends invariant.below member other
    exact .inr ⟨seq, row, found, fresh, same.trans names⟩

theorem publishTx_admins (readAs : req.ReadAs vaultId manifest grants)
    (phases : PublishPhases vaultId (manifest :: grants) db stored again last db') (v key : Bytes) :
    db'.AdminIn v key ↔ db.AdminIn v key ∨ req.Appoints db v key := by
  have read : parseOpen req.manifest = .ok manifest.parsed :=
    readAs.isBytes ▸ readAs.parsed manifest mem_cons_self
  -- Of the objects of a publish, only the manifest has that tag.
  have only {it : PushObj} (member : it ∈ manifest :: grants)
      (isManifest : it.parsed.tag = some .membershipManifest) : it = manifest := by
    rcases mem_cons.mp member with same | isGrant
    · exact same
    · cases (readAs.isGrant it isGrant).symm.trans isManifest
  rw [phases.admins]
  constructor
  · rintro ⟨epoch, owner | ⟨row, set, found, parsed, role⟩⟩
    · rcases phases.derives.owners v key owner with old | ⟨it, member, isVault, -⟩
      · exact .inl ⟨epoch, .inl old⟩
      · rcases mem_cons.mp member with rfl | isGrant
        · cases readAs.isManifest.symm.trans isVault
        · cases (readAs.isGrant it isGrant).symm.trans isVault
    · cases before : db.manifests[(v, epoch)]? with
      | some row' =>
        obtain ⟨_, found', rfl⟩ := phases.derives.grows.manifests _ row' before
        cases found.symm.trans found'
        exact .inl ⟨epoch, .inr ⟨row, set, before, parsed, role⟩⟩
      | none =>
        rcases phases.derives.manifests _ row found with
          old | ⟨it, member, isManifest, isVault, carries, body⟩
        · exact absurd (old.symm.trans before) (some_ne_none row)
        · cases only member isManifest
          rw [readAs.names, getD_some] at isVault
          have names := readAs.names.trans (congrArg some isVault.symm)
          exact .inr ⟨manifest.parsed, epoch, set, read, names, carries, before, body ▸ parsed,
            role⟩
  · rintro (⟨epoch, admin⟩ | ⟨m, epoch, set, read', names, carries, before, parsed, role⟩)
    · exact ⟨epoch, admin.mono phases.derives.grows⟩
    · cases read.symm.trans read'
      have derived := phases.derives.derived manifest mem_cons_self
      have present := derived.manifest readAs.isManifest epoch carries
      rw [names, getD_some] at present
      obtain ⟨row, found⟩ := ne_none_iff_exists'.mp present
      refine ⟨epoch, .inr ⟨row, set, found, ?_, role⟩⟩
      rcases phases.derives.manifests _ row found with old | ⟨it, member, isManifest, -, -, body⟩
      · exact absurd (old.symm.trans before) (some_ne_none row)
      · cases only member isManifest
        exact body ▸ parsed

end Publish

/-! ## All interleavings -/

/-- What a step of a request does: a publish that writes has the effect of its request. -/
def Request.Effects : Request → Db → Db → Prop
  | .push _, db, db' => db.Extends db'
  | .publish req, db, db' => db.Extends db' ∧ (db' = db ∨ req.Effect db db')
  | .claim _, db, db' => db.Extends db'
  | .administer _, db, db' => db.Extends db'

theorem Request.Effects.extends {request : Request} (effects : request.Effects db db') :
    db.Extends db' := by
  cases request with
  | publish => exact effects.1
  | _ => exact effects

instance (request : Request) : Std.Refl request.Effects where
  refl db := by
    cases request with
    | publish => exact ⟨.refl db, .inl rfl⟩
    | _ => exact .refl db

variable {idem : Option Bytes} {result : Option (List Nat)}

variable {arrival : Db}

theorem push_logs :
    (push P config req).Sound Db.Extends (Request.push req).Effects LogInvariant
      (fun _ _ => True) arrival := by
  refine .lift_bind fun _ _ => ?_
  refine genesisKey_sound.bind fun s genesis _ => ?_
  refine .lift_bind fun items admitted => ?_
  have parsed : ∀ it ∈ items, parseOpen it.bytes = .ok it.parsed := by
    intro it member
    obtain ⟨bytes, -, made⟩ := (mapM_eq_ok admitted).1 it member
    obtain ⟨rfl, read⟩ := admitObject_eq_ok made
    exact read
  refine .lift_bind fun _ _ => ?_
  refine (writeAccept_sound _ _ parsed (fun _ _ => id) (.refl s)).bind fun s' _ _ => ?_
  refine .lift_bind fun _ _ => ?_
  refine .query_bind fun s'' record _ _ _ => ?_
  cases record with
  | some => exact .lift fun _ _ => trivial
  | none =>
    refine .commit_bind fun db stored db' _ invariant ran => ?_
    have kept : LogInvariant db' ∧ db.Extends db' := by
      obtain ⟨_, stored, wrote, ⟨-, rfl, -⟩ | ⟨-, _, rfl, -⟩⟩ := commitPush_parts ran
      · exact ⟨invariant, .refl _⟩
      · obtain ⟨-, committed, -⟩ := storeObjects_committed invariant.below wrote
        have derives := numbered_derives wrote
        have kept := committed.invariant parsed derives invariant
        exact ⟨kept.of_tables rfl rfl { Db.Extends.refl stored with }, { derives.grows with }⟩
    refine ⟨kept.1, kept.2, ?_⟩
    cases stored with
    | some => exact .pure trivial
    | none => exact .query fun _ _ _ _ _ => trivial

theorem publish_logs :
    (grantsPublish P req).Sound Db.Extends (Request.publish req).Effects LogInvariant
      (fun _ _ => True) arrival := by
  refine .lift_bind fun manifest admitted => ?_
  obtain ⟨isBytes, parsed, isManifest⟩ := admitManifest_eq_ok admitted
  refine .lift_bind fun vaultId named => ?_
  have names := okOr_eq_ok.mp named
  refine .lift_bind fun epoch _ => ?_
  refine .query_bind fun s canTouch _ _ _ => ?_
  refine .lift_bind fun _ _ => ?_
  refine authorRole_sound.bind fun s' role _ => ?_
  refine .lift_bind fun _ _ => ?_
  refine .lift_bind fun grants made => ?_
  have readAs : req.ReadAs vaultId manifest grants := by
    obtain ⟨back, forth⟩ := mapM_eq_ok made
    refine ⟨names, isManifest, ?_, ?_, isBytes, ?_, ?_⟩
    · intro it member
      obtain ⟨bytes, -, made⟩ := back it member
      exact (admitGrant_eq_ok made).2.2.1
    · intro it member
      rcases mem_cons.mp member with rfl | isGrant
      · exact isBytes ▸ parsed
      · obtain ⟨bytes, -, made⟩ := back it isGrant
        obtain ⟨rfl, read, -⟩ := admitGrant_eq_ok made
        exact read
    · intro it member
      rcases mem_cons.mp member with rfl | isGrant
      · exact isBytes ▸ mem_cons_self
      · obtain ⟨bytes, listed, made⟩ := back it isGrant
        exact mem_cons_of_mem _ ((admitGrant_eq_ok made).1 ▸ listed)
    · intro bytes listed
      rcases mem_cons.mp listed with rfl | isGrant
      · exact ⟨manifest, mem_cons_self, parsed⟩
      · obtain ⟨it, member, made⟩ := forth bytes isGrant
        exact ⟨it, mem_cons_of_mem _ member, (admitGrant_eq_ok made).2.1⟩
  refine .commit fun db seqs db' _ invariant ran => ?_
  obtain ⟨stored, again, last, phases⟩ := publishTx_phases readAs invariant (transact_eq_ok ran)
  exact ⟨phases.kept, ⟨phases.grows, .inr ⟨publishTx_affects readAs invariant phases,
    publishTx_admins readAs phases⟩⟩, trivial⟩

theorem serve_logs {request : Request} :
    (serve P config request).Sound Db.Extends request.Effects LogInvariant
      (fun _ _ => True) arrival := by
  cases request with
  | push => exact push_logs
  | publish => exact publish_logs
  | claim =>
    refine claim_sound_of (fun vaultId row s s' invariant ran => ?_)
    obtain ⟨grows, objects, -⟩ := insertVault_extends ran
    have next : s'.nextSeq = s.nextSeq := by
      obtain ⟨_, -, ran⟩ := read_bind_ok ran
      cases ran
      rfl
    exact ⟨invariant.of_tables next objects grows, grows⟩
  | administer =>
    unfold serve administer
    refine .commit fun s _ s' _ invariant ran => ?_
    obtain ⟨next, objects, grows⟩ :
        s'.nextSeq = s.nextSeq ∧ s'.objects = s.objects ∧ s.Extends s' := by
      cases ran
      exact ⟨rfl, rfl, .refl _, .refl _, fun _ _ found _ => found⟩
    exact ⟨invariant.of_tables next objects grows, grows, trivial⟩

theorem Db.Empty.logInvariant (empty : db.Empty) : LogInvariant db where
  below := fun seq row found => by simp [empty.objects] at found
  logged := fun seq row found => by simp [empty.objects] at found

/-- A publish is by an admin of every vault it affects if and only if its caller is one of every
vault it names, or becomes one by its manifest. -/
theorem revokes_by_admin_iff (P : Primitives) (config : Config) {init : Db} (empty : init.Empty)
    {pool pool' : Pool Db AppError (List Nat) Request}
    (reached : Pool.Reached (serve P config) (fun _ _ => True) init pool) {req : PublishReq}
    (moves : pool.Moves (.publish req) pool') (wrote : pool'.state ≠ pool.state) :
    (∀ vaultId, Affects pool.state pool'.state vaultId →
      pool'.state.AdminIn vaultId req.auth.deviceEd25519) ↔
    ∀ vaultId, req.Names vaultId → pool.state.AdminIn vaultId req.auth.deviceEd25519 ∨
      req.Appoints pool.state vaultId req.auth.deviceEd25519 := by
  have respects : ∀ request s s', Request.Effects request s s' → s.Extends s' :=
    fun _ _ _ effects => effects.extends
  have coherent : pool.Coherent Db.Extends Request.Effects LogInvariant (fun _ _ _ => True) :=
    reached.coherent empty.logInvariant respects fun request s _ _ => serve_logs
  obtain ⟨-, same | effect⟩ := (coherent.moves respects moves).2
  · exact absurd same wrote
  · simp only [effect.affects, effect.admins]

namespace Sample

open UniSsh.Sample

/-- A manifest with the owner as the only admin, and the owner's grant of its epoch. -/
def rotation (epoch : UInt64) : SyncObject × SyncObject :=
  (.membershipManifest ((buildManifest .transparent owner vaultId epoch
      [{ ed25519Pub := ownerKey, role := .admin }]).toOption.getD
      { vaultId, keyEpoch := epoch, manifestBlob := [], signature := [], authorPubkey := [] }),
    .membershipGrant
      { vaultId, memberPubkey := ownerKey, keyEpoch := epoch, role := .admin, notAfter := 0,
        wrappedVk := [],
        signature := signature owner (grantAad vaultId ownerKey epoch)
          (grantSignedContent .admin 0 []),
        authorPubkey := ownerKey })

def rotating (epoch : UInt64) (revokeEpoch : Option Int) : PublishReq :=
  { auth := caller owner, manifest := encoded (rotation epoch).1,
    grants := [encoded (rotation epoch).2], revokeEpoch, newEpoch := none, now := 0 }

/-- A member of the space replays the owner's first manifest to revoke the second epoch. -/
def replaying : PublishReq :=
  { auth := caller member, manifest := encoded (rotation 1).1, grants := [],
    revokeEpoch := some 2, newEpoch := none, now := 0 }

/-- The owner and the member share a space, and the owner claims a vault there. -/
def shared : List Request :=
  [.administer { instanceOwner := none, accounts := ∅,
                 spaceMembers := [([1], owner.signing), ([1], member.signing)] },
   .claim { auth := caller owner, vaultId, spaceId := some [1], now := 0 }]

/-- The requests one after the other, then some reads of the last one. -/
def upTo (requests : List Request) (request : PublishReq) (reads : Nat) :
    Pool Db AppError (List Nat) Request :=
  let start (pool : Pool Db AppError (List Nat) Request) (request : Request) :
      Pool Db AppError (List Nat) Request :=
    { pool with running := (request, serve .transparent settings request) :: pool.running }
  let all := requests.foldl (fun pool request =>
    (List.replicate 4 0).foldl Pool.advance (start pool request)) ⟨{}, []⟩
  (List.replicate reads 0).foldl Pool.advance (start all (.publish request))

/-- The owner rotates to the second epoch and revokes the first. -/
def rotated : Pool Db AppError (List Nat) Request :=
  upTo (shared ++ [.publish (rotating 1 none)]) (rotating 2 (some 1)) 3

/-- The member's replay, after the owner's two epochs. -/
def replayed : Pool Db AppError (List Nat) Request :=
  upTo (shared ++ [.publish (rotating 1 none), .publish (rotating 2 (some 1))]) replaying 2

/-- The owner's grant of the second epoch. -/
def currentKey : Bytes × Bytes × SqlInt := (vaultId, ownerKey, ⟨2, by decide +kernel⟩)

def adminless (db : Db) (vaultId key : Bytes) : Bool :=
  db.getVaultOwner vaultId ≠ some key ∧ db.manifests.toList.all fun entry =>
    (parseMemberSet entry.2.manifestBlob).toOption.all fun set => set.roleOf key ≠ some .admin

end Sample

open UniSsh.Server.Sample

variable {requests : List Request} {request : PublishReq} {reads : Nat}

theorem Sample.upTo_reached :
    Pool.Reached (serve .transparent settings) (fun _ _ => True) {}
      (upTo requests request reads) := by
  have all : ∀ pool, Pool.Reached (serve .transparent settings) (fun _ _ => True) {} pool →
      Pool.Reached (serve .transparent settings) (fun _ _ => True) {}
        (requests.foldl (fun pool request => (List.replicate 4 0).foldl Pool.advance
          { pool with running := (request, serve .transparent settings request) :: pool.running })
          pool) := by
    induction requests with
    | nil => exact fun _ reached => reached
    | cons first _ ih =>
      exact fun _ reached => ih _ ((reached.start first trivial).advances _)
  exact ((all _ .init).start _ trivial).advances _

/-- The step of the last request that writes. -/
theorem Sample.upTo_moves (isPool : pool = upTo requests request reads)
    (wrote : (pool.advance 0).state.nextSeq ≠ pool.state.nextSeq) :
    pool.Moves (.publish request) (pool.advance 0) := by
  refine Pool.moves_of_advance ?_ fun same => wrote (congrArg Db.nextSeq same)
  rw [← getElem?_map, isPool, upTo, Pool.advances_requests]
  rfl

theorem Sample.not_adminIn (adminless : adminless db vaultId key = true) :
    ¬ db.AdminIn vaultId key := by
  obtain ⟨other, none⟩ := of_decide_eq_true adminless
  rintro ⟨epoch, owner | ⟨row, set, found, parsed, role⟩⟩
  · exact other owner
  · have listed := mem_toList_iff_getElem?_eq_some.mpr found
    have checked := all_eq_true.mp none _ listed
    simp [parsed, Except.toOption, role] at checked

/-- What the two runs write, and what the server reads from the rotation's objects. -/
theorem Sample.rotations_run :
    (∀ bytes ∈ [encoded (rotation 2).1, encoded (rotation 2).2],
      (parseOpen bytes).map ParsedObject.vaultId = .ok (some UniSsh.Sample.vaultId)) ∧
    (rotated.advance 0).state.nextSeq ≠ rotated.state.nextSeq ∧
    rotated.state.getVaultOwner UniSsh.Sample.vaultId = some UniSsh.Sample.ownerKey ∧
    (replayed.advance 0).state.nextSeq ≠ replayed.state.nextSeq ∧
    replayed.state.grants[currentKey]?.map GrantRow.revoked = some false ∧
    (replayed.advance 0).state.grants[currentKey]?.map GrantRow.revoked = some true ∧
    adminless (replayed.advance 0).state UniSsh.Sample.vaultId replaying.auth.deviceEd25519 := by
  decide +kernel

/-- The owner rotates the vault. -/
theorem revokes_by_admin_iff_owner :
    rotated.Moves (.publish (rotating 2 (some 1))) (rotated.advance 0) ∧
    ∀ vaultId, Affects rotated.state (rotated.advance 0).state vaultId →
      (rotated.advance 0).state.AdminIn vaultId UniSsh.Sample.ownerKey := by
  obtain ⟨parsed, wrote, owned, -⟩ := rotations_run
  have moves := upTo_moves (rfl : rotated = _) wrote
  have property := revokes_by_admin_iff .transparent settings ⟨rfl, rfl, rfl, rfl⟩
    upTo_reached moves fun same => wrote (congrArg Db.nextSeq same)
  refine ⟨moves, property.mpr fun vaultId names => ?_⟩
  obtain ⟨bytes, listed, p, read, names⟩ := names
  cases names.symm.trans (columns_of (parsed bytes listed) read)
  exact .inl ⟨firstEpoch, .inl owned⟩

/-- A member replays the owner's manifest, and the current epoch's grants are revoked. -/
theorem replayed_manifest_revokes :
    Pool.Reached (serve .transparent settings) (fun _ _ => True) {} replayed ∧
    replayed.Moves (.publish replaying) (replayed.advance 0) ∧
    Affects replayed.state (replayed.advance 0).state UniSsh.Sample.vaultId ∧
    ¬ (replayed.advance 0).state.AdminIn UniSsh.Sample.vaultId replaying.auth.deviceEd25519 := by
  obtain ⟨-, -, -, wrote, before, after, adminless⟩ := rotations_run
  obtain ⟨row', found, isRevoked⟩ := map_eq_some_iff.mp after
  refine ⟨upTo_reached, upTo_moves rfl wrote,
    .inl ⟨currentKey, row', rfl, found, isRevoked, ?_⟩, not_adminIn adminless⟩
  intro row present
  rw [present] at before
  exact Option.some.inj before

end UniSsh.Server
