import UniSsh.Server.Stored
import UniSsh.Sync.Object

/-!
# Integrity of the grants

A grant's author must be an admin of its vault. What a request learned stays true while others
write (`Db.Extends`). The condition `Request.Admissible` is needed because every author counts as
admin of a vault that does not exist, and `grantsPublish` checks the manifest's author only.
-/

namespace UniSsh.Server

open Option List

variable {P : Primitives} {config : Config}

/-! ## Admins -/

/-- The owner of a vault, or an admin of the manifest stored for the epoch. -/
def Db.AdminOf (db : Db) (vaultId : Bytes) (epoch : SqlInt) (key : Bytes) : Prop :=
  db.getVaultOwner vaultId = some key ∨
    ∃ row set, db.manifests[(vaultId, epoch)]? = some row ∧
      parseMemberSet row.manifestBlob = .ok set ∧ set.roleOf key = some .admin

variable {db db' : Db} {epoch : SqlInt}

theorem Db.AdminOf.mono {vaultId key : Bytes} (admin : db.AdminOf vaultId epoch key)
    (grows : db.Extends db') : db'.AdminOf vaultId epoch key := by
  rcases admin with owner | ⟨row, set, stored, parsed, role⟩
  · exact .inl (grows.owner owner)
  · obtain ⟨row', stored', rfl⟩ := grows.manifests (vaultId, epoch) row stored
    exact .inr ⟨row, set, stored', parsed, role⟩

/-- The author of an object is an admin of the vault it names, at the epoch it carries. -/
def ParsedObject.EntitledIn (p : ParsedObject) (db : Db) : Prop :=
  ∀ epoch : SqlInt, p.keyEpoch = some epoch.toU64 →
    db.AdminOf (p.vaultId.getD []) epoch (p.authorPubkey.getD [])

variable {p : ParsedObject}

theorem ParsedObject.EntitledIn.mono (entitled : p.EntitledIn db) (grows : db.Extends db') :
    p.EntitledIn db' :=
  fun epoch carries => (entitled epoch carries).mono grows

/-- A grant row was written from a signed grant object of an admin of its vault. -/
structure GrantBacked (P : Primitives) (db : Db) (key : Bytes × Bytes × SqlInt) (row : GrantRow) :
    Prop where
  admin : db.AdminOf key.1 key.2.2 row.authorPubkey
  written : ∃ obj, db.objects[row.serverSeq]? = some obj ∧ obj.objectTag = 4 ∧
    obj.vaultId = some key.1 ∧ obj.memberPubkey = some key.2.1 ∧ obj.keyEpoch = some key.2.2 ∧
    obj.authorPubkey = some row.authorPubkey ∧ verifyRecordSig P obj.objectBytes = .ok ()

def AclIntegrity (P : Primitives) (db : Db) : Prop :=
  ∀ (key : Bytes × Bytes × SqlInt) row, db.grants[key]? = some row →
    GrantBacked P db key row

/-- What every transaction keeps. -/
structure AclInvariant (P : Primitives) (db : Db) : Prop where
  integrity : AclIntegrity P db
  parses : db.LogParses

variable {key : Bytes × Bytes × SqlInt} {row : GrantRow}

theorem GrantBacked.mono {row' : GrantRow} (backed : GrantBacked P db key row)
    (grows : db.Extends db') (same : row'.source = row.source) : GrantBacked P db' key row' := by
  obtain ⟨sameAuthor, sameSeq⟩ := Prod.ext_iff.mp same
  change row'.authorPubkey = row.authorPubkey at sameAuthor
  change row'.serverSeq = row.serverSeq at sameSeq
  obtain ⟨obj, logged, isGrant, columns⟩ := backed.written
  refine ⟨sameAuthor ▸ backed.admin.mono grows, obj, ?_, isGrant, ?_⟩
  · rw [sameSeq]
    exact grows.log _ obj logged isGrant
  · rw [sameAuthor]
    exact columns

variable {it : PushObj}

theorem PushObj.Wrote.backed (wrote : it.Wrote db key row)
    (parsed : parseOpen it.bytes = .ok it.parsed) (signed : verifyRecordSig P it.bytes = .ok ())
    (entitled : it.parsed.EntitledIn db) : GrantBacked P db key row := by
  obtain ⟨isGrant, isKey, carries, author, obj, now, logged, made⟩ := wrote
  obtain ⟨keyVault, keyMember, epoch⟩ := key
  obtain ⟨vaultId, memberPubkey, _, authorPubkey, names, grants, -, signs⟩ :=
    parseOpen_complete parsed isGrant
  obtain ⟨isTag, isBytes, isVault, isMember, isAuthor, isEpoch⟩ := objectRow_eq_ok made
  simp only [grantKey, names, grants, getD_some, Prod.mk.injEq, and_true] at isKey
  obtain ⟨rfl, rfl⟩ := isKey
  rw [signs, getD_some] at author
  have admin := entitled epoch carries
  rw [names, signs, getD_some, getD_some, ← author] at admin
  have logEpoch : obj.keyEpoch = some epoch := by
    obtain ⟨n, stored, same⟩ := map_eq_some_iff.mp (isEpoch.trans carries)
    rw [stored, SqlInt.ext same]
  refine ⟨admin, obj, logged, isTag.trans (tag_eq_grant isGrant), isVault.trans names,
    isMember.trans grants, logEpoch, ?_, ?_⟩
  · rw [isAuthor, signs, author]
  · rw [isBytes]
    exact signed

variable {items : List PushObj}

/-- Storing keeps the invariant if every grant stored is signed by an entitled author. -/
theorem Stores.invariant (stores : Stores db items db') (invariant : AclInvariant P db)
    (backed : ∀ it ∈ items, it.parsed.tag = some .membershipGrant →
      parseOpen it.bytes = .ok it.parsed ∧ verifyRecordSig P it.bytes = .ok () ∧
        it.parsed.EntitledIn db') : AclInvariant P db' := by
  refine ⟨?_, stores.parses invariant.parses⟩
  intro key row' found
  rcases stores.grants key row' found with ⟨row, old, same⟩ | ⟨it, member, wrote⟩
  · exact (invariant.integrity key row old).mono stores.grows same
  · obtain ⟨parsed, signed, entitled⟩ := backed it member wrote.1
    exact wrote.backed parsed signed entitled

theorem Revokes.extends (revokes : Revokes vaultId db db') : db.Extends db' :=
  ⟨revokes.vaults ▸ .refl _, revokes.manifests ▸ .refl _,
    fun _ _ found _ => revokes.objects ▸ found⟩

theorem Revokes.invariant {vaultId : Bytes} (revokes : Revokes vaultId db db')
    (invariant : AclInvariant P db) : AclInvariant P db' := by
  refine ⟨?_, fun seq row found => invariant.parses seq row (revokes.objects ▸ found)⟩
  intro key row' found
  obtain ⟨row, old, same⟩ := revokes.grants key row' found
  exact (invariant.integrity key row old).mono revokes.extends same

/-! ## Admissible requests -/

/-- A pushed grant is for an existing vault, from an admin, or comes with the record claiming the
vault. -/
def PushReq.Admissible (db : Db) (req : PushReq) : Prop :=
  ∀ bytes ∈ req.objects, ∀ g, parseOpen bytes = .ok g → g.tag = some .membershipGrant →
    db.getVaultOwner (g.vaultId.getD []) ≠ none ∨ g.EntitledIn db ∨
      ∃ bytes' ∈ req.objects, ∃ r, parseOpen bytes' = .ok r ∧ r.tag = some .vault ∧
        r.vaultId = g.vaultId ∧ r.authorPubkey = g.authorPubkey

/-- A published grant is for the manifest's vault, by an admin or the manifest's author. -/
def PublishReq.Admissible (db : Db) (req : PublishReq) : Prop :=
  ∀ m, parseOpen req.manifest = .ok m → ∀ bytes ∈ req.grants, ∀ g, parseOpen bytes = .ok g →
    g.vaultId = m.vaultId ∧
      (g.EntitledIn db ∨ g.keyEpoch = m.keyEpoch ∧ g.authorPubkey = m.authorPubkey ∧
        db.getVaultOwner (m.vaultId.getD []) ≠ none)

def Request.Admissible (db : Db) : Request → Prop
  | .push req => req.Admissible db
  | .publish req => req.Admissible db
  | .claim _ => True
  | .administer _ => True

/-- A request keeps what is there, and a publish writes only grants of its manifest's vault. -/
def Request.Guarantee : Request → Db → Db → Prop
  | .push _, db, db' => db.Extends db'
  | .publish req, db, db' => db.Extends db' ∧
      ∀ key : Bytes × Bytes × SqlInt,
        (∀ m, parseOpen req.manifest = .ok m → m.vaultId ≠ some key.1) →
          db'.grants[key]? = db.grants[key]?
  | .claim _, db, db' => db.Extends db'
  | .administer _, db, db' => db.Extends db'

variable {request : Request}

theorem Request.Guarantee.extends (within : request.Guarantee db db') : db.Extends db' := by
  cases request with
  | publish => exact within.1
  | _ => exact within

instance (request : Request) : Std.Refl request.Guarantee where
  refl db := by
    cases request with
    | publish => exact ⟨.refl db, fun _ _ => rfl⟩
    | _ => exact .refl db

/-! ## What the checks establish -/

section Checks

variable {guarantee : Db → Db → Prop} [Std.Refl guarantee] {inv : Db → Prop} {s₀ : Db}

variable {author : Bytes}

theorem memberRole_admin
    (read : memberRole epoch author db.manifests[(vaultId, epoch)]? = .ok (some .admin)) :
    db.AdminOf vaultId epoch author := by
  cases stored : db.manifests[(vaultId, epoch)]? with
  | none =>
    rw [stored] at read
    cases read
  | some row =>
    rw [stored] at read
    obtain ⟨set, parsed, read⟩ := bind_eq_ok.mp read
    obtain ⟨_, -, role⟩ := bind_eq_ok.mp read
    exact .inr ⟨row, set, stored, parsed, Except.ok.inj role⟩

theorem authorRole_sound {vaultId : Bytes} :
    (authorRole vaultId epoch author).Sound Db.Extends guarantee inv
      (fun s role => role = some .admin →
        s.AdminOf vaultId epoch author ∨ s.getVaultOwner vaultId = none) s₀ := by
  refine .query_bind fun s stored _ _ read => ?_
  cases read
  refine .lift_bind fun role resolved => ?_
  cases role with
  | some =>
    refine .pure fun isAdmin => ?_
    exact .inl (memberRole_admin (isAdmin ▸ resolved))
  | none =>
    refine .query fun s role _ _ read isAdmin => ?_
    have isOwner : ownerRole author (s.getVaultOwner vaultId) = some .admin :=
      Except.ok.inj (isAdmin ▸ read)
    cases owner : s.getVaultOwner vaultId with
    | none => exact .inr rfl
    | some =>
      rw [owner, ownerRole] at isOwner
      split at isOwner
      · next same => exact .inl (.inl (owner.trans (congrArg some same)))
      · cases isOwner

theorem epochI64_eq_ok (made : epochI64 field = .ok column) : column.map SqlInt.toU64 = field := by
  cases field with
  | none =>
    cases made
    rfl
  | some =>
    obtain ⟨n, made', rfl⟩ := map_eq_ok.mp made
    exact congrArg some (toI64_eq_ok made')

theorem roleOfAuthor_sound :
    (roleOfAuthor device p).Sound Db.Extends guarantee inv
      (fun s role => ∀ author, p.authorPubkey = some author → role = some .admin →
        p.EntitledIn s ∨ s.getVaultOwner (p.vaultId.getD []) = none) s₀ := by
  refine .lift_bind fun vaultId named => ?_
  have names := okOr_eq_ok.mp named
  refine .lift_bind fun epoch made => ?_
  have isEpoch := epochI64_eq_ok made
  refine authorRole_sound.mono fun s role resolved author signs isAdmin => ?_
  rw [names, getD_some]
  refine (resolved isAdmin).imp_left fun admin n carries => ?_
  rw [← isEpoch] at carries
  obtain ⟨e, rfl, same⟩ := map_eq_some_iff.mp carries
  obtain rfl := SqlInt.ext same
  rw [signs] at admin ⊢
  exact names ▸ admin

theorem genesisKey_sound : genesisKey.Sound Db.Extends guarantee inv (fun _ _ => True) s₀ := by
  refine .query_bind fun s owner _ _ _ => ?_
  cases owner with
  | none => exact .pure trivial
  | some => exact .query fun _ _ _ _ _ => trivial

/-- A grant's author is entitled, or its vault did not exist when the request arrived. -/
def PushObj.Checked (arrival : Db) (it : PushObj) (s : Db) : Prop :=
  it.parsed.tag = some .membershipGrant →
    it.parsed.EntitledIn s ∨ arrival.getVaultOwner (it.parsed.vaultId.getD []) = none

variable {arrival : Db}

theorem writeAcceptOne_sound (parsed : parseOpen it.bytes = .ok it.parsed)
    (respects : ∀ s s', guarantee s s' → s.Extends s') (earlier : arrival.Extends s₀) :
    (writeAcceptOne device genesis aclOnly it.parsed).Sound Db.Extends guarantee inv
      (fun s _ => it.Checked arrival s) s₀ := by
  have membership : (roleOfAuthor device it.parsed >>= fun role => Program.lift (require
      (role = some .admin) (.forbidden "only admins can publish membership records"))).Sound
      Db.Extends guarantee inv (fun s _ => it.Checked arrival s) s₀ := by
    refine (roleOfAuthor_sound.since respects earlier).bind
      fun s role resolved => Program.Sound.lift fun _ accepted isGrant => ?_
    have isAdmin := of_decide_eq_true (require_eq_ok.mp accepted)
    obtain ⟨_, _, _, author, _, _, _, signs⟩ := parseOpen_complete parsed isGrant
    refine (resolved.2 author signs isAdmin).imp_right fun absent => ?_
    by_contra present
    obtain ⟨owner, present⟩ := ne_none_iff_exists'.mp present
    exact some_ne_none owner ((resolved.1.owner present).symm.trans absent)
  -- The checks of the other kinds leave nothing to know.
  have vacuous : ∀ {x : Handler Unit}, it.parsed.tag ≠ some .membershipGrant →
      x.Sound Db.Extends guarantee inv (fun _ _ => True) s₀ →
      x.Sound Db.Extends guarantee inv (fun s _ => it.Checked arrival s) s₀ :=
    fun other sound => sound.mono fun _ _ _ isGrant => (other isGrant).elim
  have record : (if aclOnly then pure () else roleOfAuthor device it.parsed >>= fun role =>
      Program.lift (checkRecordWriter role)).Sound Db.Extends guarantee inv (fun _ _ => True) s₀ := by
    split
    · exact .pure trivial
    · exact roleOfAuthor_sound.bind fun _ _ _ =>
        Program.Sound.lift fun _ _ => trivial
  have lifted : ∀ {result : Except AppError Unit},
      (if aclOnly then pure () else Program.lift result : Handler Unit).Sound
        Db.Extends guarantee inv (fun _ _ => True) s₀ := by
    intro result
    split
    · exact .pure trivial
    · exact .lift fun _ _ => trivial
  unfold writeAcceptOne
  split
  · next isVault => exact vacuous (by simp [isVault]) record
  · next isItem => exact vacuous (by simp [isItem]) record
  · exact membership
  · exact membership
  · next isAudit => exact vacuous (by simp [isAudit]) lifted
  · next isKeyset => exact vacuous (by simp [isKeyset]) (Program.Sound.pure trivial)
  · next isState => exact vacuous (by simp [isState]) lifted
  · next unknown => exact vacuous (by simp [unknown]) lifted

theorem writeAccept_sound (device : Bytes) (aclOnly : Bool)
    (parsed : ∀ it ∈ items, parseOpen it.bytes = .ok it.parsed)
    (respects : ∀ s s', guarantee s s' → s.Extends s') (earlier : arrival.Extends s₀) :
    (writeAccept device items aclOnly).Sound Db.Extends guarantee inv
      (fun s _ => ∀ it ∈ items, it.Checked arrival s) s₀ := by
  refine (genesisKey_sound.since respects earlier).bind fun s genesis later => ?_
  refine .forM respects ?_ fun it member s' later' => ?_
  · intro it s s' grows checked isGrant
    exact (checked isGrant).imp_left fun entitled => entitled.mono grows
  · exact writeAcceptOne_sound (parsed it member) respects (later.1.trans later')

end Checks

/-! ## The handlers -/

variable {bytes : Bytes}

theorem admitObject_eq_ok (admitted : admitObject config auth genesis bytes = .ok it) :
    it.bytes = bytes ∧ parseOpen bytes = .ok it.parsed := by
  obtain ⟨_, -, admitted⟩ := bind_eq_ok.mp admitted
  obtain ⟨parsed, read, admitted⟩ := bind_eq_ok.mp admitted
  obtain ⟨_, -, admitted⟩ := bind_eq_ok.mp admitted
  obtain ⟨_, -, admitted⟩ := bind_eq_ok.mp admitted
  obtain ⟨_, -, admitted⟩ := bind_eq_ok.mp admitted
  cases admitted
  exact ⟨rfl, read⟩

/-- What is known of the objects of a push when it writes. -/
structure Pushable (P : Primitives) (arrival : Db) (req : PushReq) (items : List PushObj)
    (s : Db) : Prop where
  since : arrival.Extends s
  parsed : ∀ it ∈ items, it.bytes ∈ req.objects ∧ parseOpen it.bytes = .ok it.parsed
  all : ∀ bytes ∈ req.objects, ∃ it ∈ items, parseOpen bytes = .ok it.parsed
  signed : ∀ it ∈ items, it.parsed.tag = some .membershipGrant →
    verifyRecordSig P it.bytes = .ok ()
  checked : ∀ it ∈ items, it.Checked arrival s

variable {arrival s₀ : Db} {req : PushReq}

variable {s : Db}

theorem Pushable.mono {s' : Db} (pushable : Pushable P arrival req items s) (later : s.Extends s') :
    Pushable P arrival req items s' where
  since := pushable.since.trans later
  parsed := pushable.parsed
  all := pushable.all
  signed := pushable.signed
  checked := fun it member isGrant =>
    (pushable.checked it member isGrant).imp_left fun entitled => entitled.mono later

/-- Once its objects are stored, the author of every grant of an admissible push is entitled. -/
theorem Pushable.entitled (pushable : Pushable P arrival req items s)
    (admissible : req.Admissible arrival) (later : s.Extends db) (stores : Stores db items db')
    (member : it ∈ items) (isGrant : it.parsed.tag = some .membershipGrant) :
    it.parsed.EntitledIn db' := by
  have grows := later.trans stores.grows
  obtain ⟨listed, parsed⟩ := pushable.parsed it member
  rcases pushable.checked it member isGrant with entitled | absent
  · exact entitled.mono grows
  · rcases admissible it.bytes listed it.parsed parsed isGrant with
      present | entitled | ⟨bytes, listed', r, parsed', isVault, sameVault, sameAuthor⟩
    · exact (present absent).elim
    · exact entitled.mono (pushable.since.trans grows)
    · obtain ⟨record, member', read⟩ := pushable.all bytes listed'
      cases read.symm.trans parsed'
      obtain ⟨vaultId, _, _, author, names, -, -, signs⟩ := parseOpen_complete parsed isGrant
      intro epoch _
      rw [names, signs]
      exact .inl (stores.owners record member' isVault vaultId author (sameVault.trans names)
        (sameAuthor.trans signs))

variable {idem : Option Bytes} {now : Int64}

theorem pushObjects_sound (pushable : Pushable P arrival req items s₀)
    (admissible : req.Admissible arrival) :
    (pushObjects idem requestHash items now).Sound Db.Extends (Request.push req).Guarantee
      (AclInvariant P) (fun _ _ => True) s₀ := by
  refine .query_bind fun s record later _ _ => ?_
  cases record with
  | some => exact .lift fun _ _ => trivial
  | none =>
    have pushable' := pushable.mono later
    refine .commit_bind fun s stored s' later invariant ran => ?_
    have parsed := fun it member => (pushable'.parsed it member).2
    have kept : AclInvariant P s' ∧ (Request.push req).Guarantee s s' := by
      rcases commitPush_stores parsed ran with rfl | stores
      · exact ⟨invariant, .refl _⟩
      · refine ⟨stores.invariant invariant fun it member isGrant => ?_, stores.grows⟩
        exact ⟨parsed it member, pushable'.signed it member isGrant,
          pushable'.entitled admissible later stores member isGrant⟩
    refine ⟨kept.1, kept.2, ?_⟩
    cases stored with
    | some => exact .pure trivial
    | none => exact .query fun _ _ _ _ _ => trivial

theorem push_sound (admissible : req.Admissible arrival) :
    (push P config req).Sound Db.Extends (Request.push req).Guarantee (AclInvariant P)
      (fun _ _ => True) arrival := by
  refine .lift_bind fun _ _ => ?_
  refine (genesisKey_sound.since (fun _ _ => id) (.refl arrival)).bind fun s genesis later => ?_
  refine .lift_bind fun items admitted => ?_
  obtain ⟨back, forth⟩ := mapM_eq_ok admitted
  have parsed : ∀ it ∈ items, it.bytes ∈ req.objects ∧ parseOpen it.bytes = .ok it.parsed := by
    intro it member
    obtain ⟨bytes, listed, made⟩ := back it member
    obtain ⟨rfl, read⟩ := admitObject_eq_ok made
    exact ⟨listed, read⟩
  have all : ∀ bytes ∈ req.objects, ∃ it ∈ items, parseOpen bytes = .ok it.parsed := by
    intro bytes listed
    obtain ⟨it, member, made⟩ := forth bytes listed
    exact ⟨it, member, (admitObject_eq_ok made).2⟩
  refine .lift_bind fun _ verified => ?_
  have signed : ∀ it ∈ items, it.parsed.tag = some .membershipGrant →
      verifyRecordSig P it.bytes = .ok () := by
    intro it member isGrant
    have checked := forM_eq_ok verified it member
    rwa [checkSignature, if_pos (.inr (.inl isGrant))] at checked
  have accepted : (writeAccept req.auth.deviceEd25519 items (!config.validateSignatures)).Sound
      Db.Extends (Request.push req).Guarantee (AclInvariant P)
      (fun s _ => ∀ it ∈ items, it.Checked arrival s) s :=
    writeAccept_sound _ _ (fun it member => (parsed it member).2) (fun _ _ => id) later.1
  refine (accepted.since (fun _ _ => id) later.1).bind fun s' _ checked => ?_
  refine .lift_bind fun _ _ => ?_
  exact pushObjects_sound ⟨checked.1, parsed, all, signed, checked.2⟩ admissible

theorem admitGrant_eq_ok (admitted : admitGrant P bytes = .ok it) :
    it.bytes = bytes ∧ parseOpen bytes = .ok it.parsed ∧
      it.parsed.tag = some .membershipGrant ∧ verifyRecordSig P bytes = .ok () := by
  obtain ⟨parsed, read, admitted⟩ := bind_eq_ok.mp admitted
  obtain ⟨_, isGrant, admitted⟩ := bind_eq_ok.mp admitted
  obtain ⟨_, signed, admitted⟩ := bind_eq_ok.mp admitted
  cases admitted
  exact ⟨rfl, read, of_decide_eq_true (require_eq_ok.mp isGrant), signed⟩

theorem admitManifest_eq_ok (admitted : admitManifest P bytes = .ok it) :
    it.bytes = bytes ∧ parseOpen bytes = .ok it.parsed ∧
      it.parsed.tag = some .membershipManifest := by
  obtain ⟨parsed, read, admitted⟩ := bind_eq_ok.mp admitted
  obtain ⟨_, isManifest, admitted⟩ := bind_eq_ok.mp admitted
  obtain ⟨_, -, admitted⟩ := bind_eq_ok.mp admitted
  cases admitted
  exact ⟨rfl, read, of_decide_eq_true (require_eq_ok.mp isManifest)⟩

theorem publishedEpoch_eq_ok {req : PublishReq}
    (published : publishedEpoch req manifest = .ok epoch) :
    manifest.keyEpoch = some epoch.toU64 := by
  obtain ⟨parsedEpoch, made, published⟩ := bind_eq_ok.mp published
  obtain ⟨newEpoch, -, published⟩ := bind_eq_ok.mp published
  obtain ⟨e, filtered, published⟩ := bind_eq_ok.mp published
  obtain ⟨_, -, published⟩ := bind_eq_ok.mp published
  cases published
  have carried := (filter_eq_some_iff.mp (okOr_eq_ok.mp filtered)).1
  rw [← epochI64_eq_ok made, carried]
  rfl

/-- What is known of the objects of a publish when it writes. -/
structure Publishable (P : Primitives) (req : PublishReq) (vaultId : Bytes) (manifest : PushObj)
    (grants : List PushObj) (s : Db) : Prop where
  isManifest : manifest.parsed.tag = some .membershipManifest
  isBytes : manifest.bytes = req.manifest
  names : manifest.parsed.vaultId = some vaultId
  parsed : ∀ it ∈ manifest :: grants, parseOpen it.bytes = .ok it.parsed
  signed : ∀ it ∈ grants, verifyRecordSig P it.bytes = .ok ()
  own : ∀ it ∈ grants, it.parsed.vaultId = some vaultId
  entitled : ∀ it ∈ grants, it.parsed.EntitledIn s

theorem publishTx_sound {req : PublishReq}
    (publishable : Publishable P req vaultId manifest grants s₀) :
    (Program.commit (transact (publishTx vaultId manifest grants revokeEpoch now))).Sound
      Db.Extends (Request.publish req).Guarantee (AclInvariant P) (fun _ _ => True) s₀ := by
  refine .commit fun s seqs s' later invariant ran => ?_
  obtain ⟨items, mid, own, stores, revokes⟩ :=
    publishTx_run invariant.parses publishable.parsed (transact_eq_ok ran)
  have isGrant : ∀ it ∈ items, it.parsed.tag = some .membershipGrant → it ∈ grants := by
    intro it member tagged
    rcases mem_cons.mp (own it member tagged) with rfl | listed
    · cases publishable.isManifest.symm.trans tagged
    · exact listed
  have stored : AclInvariant P mid := by
    refine stores.invariant invariant fun it member tagged => ?_
    have listed := isGrant it member tagged
    exact ⟨publishable.parsed it (mem_cons_of_mem _ listed), publishable.signed it listed,
      (publishable.entitled it listed).mono (later.trans stores.grows)⟩
  refine ⟨revokes.invariant stored, ⟨stores.grows.trans revokes.extends, ?_⟩, trivial⟩
  intro key other
  have read := publishable.parsed manifest mem_cons_self
  rw [publishable.isBytes] at read
  have otherVault : vaultId ≠ key.1 := by
    rintro rfl
    exact other manifest.parsed read publishable.names
  rw [revokes.frame key otherVault.symm]
  refine stores.frame key fun it member tagged => ?_
  rw [publishable.own it (isGrant it member tagged)]
  exact otherVault

/-- A publish of admissible grants writes rows of its own vault only, from entitled authors. -/
theorem publish_sound {req : PublishReq} (admissible : req.Admissible arrival) :
    (grantsPublish P req).Sound Db.Extends (Request.publish req).Guarantee (AclInvariant P)
      (fun _ _ => True) arrival := by
  have respects : ∀ s s', (Request.publish req).Guarantee s s' → s.Extends s' :=
    fun _ _ within => within.1
  refine .lift_bind fun manifest admitted => ?_
  obtain ⟨isBytes, parsed, isManifest⟩ := admitManifest_eq_ok admitted
  refine .lift_bind fun vaultId named => ?_
  have names := okOr_eq_ok.mp named
  refine .lift_bind fun epoch published => ?_
  have carries := publishedEpoch_eq_ok published
  refine .query_bind fun s canTouch later _ _ => ?_
  refine .lift_bind fun _ _ => ?_
  refine (authorRole_sound.since respects later).bind fun s' role resolved => ?_
  refine .lift_bind fun _ required => ?_
  have isAdmin := of_decide_eq_true (require_eq_ok.mp required)
  refine .lift_bind fun grants made => ?_
  have admittedGrant : ∀ it ∈ grants, it.bytes ∈ req.grants ∧
      parseOpen it.bytes = .ok it.parsed ∧ it.parsed.tag = some .membershipGrant ∧
        verifyRecordSig P it.bytes = .ok () := by
    intro it member
    obtain ⟨bytes, listed, made⟩ := (mapM_eq_ok made).1 it member
    obtain ⟨rfl, facts⟩ := admitGrant_eq_ok made
    exact ⟨listed, facts⟩
  have fits := fun it member =>
    admissible manifest.parsed parsed it.bytes (admittedGrant it member).1 it.parsed
      (admittedGrant it member).2.1
  refine publishTx_sound ⟨isManifest, isBytes, names, ?_, ?_, ?_, ?_⟩
  · intro it member
    rcases mem_cons.mp member with rfl | listed
    · exact isBytes ▸ parsed
    · exact (admittedGrant it listed).2.1
  · intro it member
    exact (admittedGrant it member).2.2.2
  · intro it member
    exact (fits it member).1.trans names
  · intro it member
    obtain ⟨sameVault, entitled | ⟨sameEpoch, sameAuthor, present⟩⟩ := fits it member
    · exact entitled.mono resolved.1
    · intro e carries'
      obtain rfl : epoch = e := SqlInt.ext (Option.some.inj
        (carries.symm.trans (sameEpoch.symm.trans carries')))
      rw [sameVault, sameAuthor, names, getD_some]
      rcases resolved.2 isAdmin with admin | absent
      · exact admin
      · rw [names, getD_some] at present
        obtain ⟨owner, present⟩ := ne_none_iff_exists'.mp present
        exact (some_ne_none owner ((resolved.1.owner present).symm.trans absent)).elim

/-- A claim makes an owner of a vault that had none. -/
theorem insertVault_extends {vaultId : Bytes} {row : VaultRow}
    (ran : (insertVault vaultId row).run db = .ok () db') :
    db.Extends db' ∧ db'.objects = db.objects ∧ db'.grants = db.grants := by
  obtain ⟨_, unused, ran⟩ := read_bind_ok ran
  cases ran
  have absent := isNone_iff_eq_none.mp (require_eq_ok.mp unused)
  have grows : Table.Grows (fun row row' : VaultRow => row'.ownerPubkey = row.ownerPubkey)
      db.vaults (db.vaults.insert vaultId row) := by
    refine .insert fun old found => ?_
    rw [absent] at found
    cases found
  exact ⟨⟨grows, .refl _, fun _ _ found _ => found⟩, rfl, rfl⟩

theorem AclInvariant.mono (invariant : AclInvariant P db) (grows : db.Extends db')
    (objects : db'.objects = db.objects) (grants : db'.grants = db.grants) :
    AclInvariant P db' where
  integrity := fun key row found =>
    (invariant.integrity key row (grants ▸ found)).mono grows rfl
  parses := fun seq row found => invariant.parses seq row (objects ▸ found)

theorem claim_sound_of {guarantee : Db → Db → Prop} [Std.Refl guarantee] {inv : Db → Prop}
    (inserts : ∀ vaultId row s s', inv s →
      (insertVault vaultId row).run s = .ok () s' → inv s' ∧ guarantee s s') {req : ClaimReq} :
    (serve P config (.claim req)).Sound Db.Extends guarantee inv (fun _ _ => True) arrival := by
  have claims : (claim req).Sound Db.Extends guarantee inv (fun _ _ => True) arrival := by
    refine .lift_bind fun _ _ => ?_
    refine .query_bind fun s isMember _ _ _ => ?_
    refine .lift_bind fun _ _ => ?_
    refine .query_bind fun s existing _ _ _ => ?_
    cases existing with
    | some => exact .lift fun _ _ => trivial
    | none =>
      refine .commit_bind fun s _ s' _ invariant ran => ?_
      obtain ⟨kept, within⟩ := inserts _ _ s s' invariant (transact_eq_ok ran)
      exact ⟨kept, within, Program.Sound.pure trivial⟩
  exact claims.bind fun _ _ _ => Program.Sound.pure trivial

theorem serve_sound (admissible : request.Admissible arrival) :
    (serve P config request).Sound Db.Extends request.Guarantee (AclInvariant P)
      (fun _ _ => True) arrival := by
  cases request with
  | push => exact push_sound admissible
  | publish => exact publish_sound admissible
  | claim =>
    refine claim_sound_of (fun vaultId row s s' invariant ran => ?_)
    obtain ⟨grows, objects, grants⟩ := insertVault_extends ran
    exact ⟨invariant.mono grows objects grants, grows⟩
  | administer =>
    unfold serve administer
    refine .commit fun s _ s' _ invariant ran => ?_
    obtain ⟨grows, objects, grants⟩ :
        s.Extends s' ∧ s'.objects = s.objects ∧ s'.grants = s.grants := by
      cases ran
      exact ⟨⟨.refl _, .refl _, fun _ _ found _ => found⟩, rfl, rfl⟩
    exact ⟨invariant.mono grows objects grants, grows, trivial⟩

/-- A database without objects, whatever its accounts. -/
structure Db.Empty (db : Db) : Prop where
  vaults : db.vaults = ∅
  objects : db.objects = ∅
  manifests : db.manifests = ∅
  grants : db.grants = ∅

theorem Db.Empty.invariant (empty : db.Empty) : AclInvariant P db where
  integrity := fun key row found => by simp [empty.grants] at found
  parses := fun seq row found => by simp [empty.objects] at found

/-- In every interleaving of admissible requests grants are from admins of their vaults. -/
theorem grants_from_admins (P : Primitives) (config : Config) {init : Db} (empty : init.Empty)
    {pool : Pool Db AppError (List Nat) Request}
    (reached : Pool.Reached (serve P config) Request.Admissible init pool) :
    AclIntegrity P pool.state ∧ ∀ (req : PublishReq) (pool' : Pool Db AppError (List Nat) Request),
        pool.Moves (.publish req) pool' → ∀ key : Bytes × Bytes × SqlInt,
          (∀ m, parseOpen req.manifest = .ok m → m.vaultId ≠ some key.1) →
            pool'.state.grants[key]? = pool.state.grants[key]? := by
  have respects : ∀ request s s', Request.Guarantee request s s' → s.Extends s' :=
    fun _ _ _ within => within.extends
  have coherent : pool.Coherent Db.Extends Request.Guarantee (AclInvariant P) (fun _ _ _ => True) :=
    reached.coherent empty.invariant respects fun request s admissible _ => serve_sound admissible
  refine ⟨coherent.holds.integrity, fun req pool' moves key other => ?_⟩
  exact (coherent.moves respects moves).2.2 key other

namespace Sample

open UniSsh.Sample

def settings : Config :=
  { validateSignatures := true, maxObjectsPerPush := 8, maxObjectBytes := 4096 }

def encoded (obj : SyncObject) : Bytes := obj.toBytes.toOption.getD []

variable (keyset : UnlockedKeyset)

def caller : AuthCtx :=
  { accountId := keyset.signing, deviceEd25519 := keyset.verifying .transparent }

def pushOf (objects : List SyncObject) : Request :=
  .push { auth := caller keyset, body := [], objects := objects.map encoded,
          idempotencyKey := none, now := 0 }

/-- A manifest of epoch 1 with its author as the only admin. -/
def soleManifest (vaultId : Bytes) : SyncObject :=
  .membershipManifest ((buildManifest .transparent keyset vaultId 1
    [{ ed25519Pub := keyset.verifying .transparent, role := .admin }]).toOption.getD
    { vaultId, keyEpoch := 1, manifestBlob := [], signature := [], authorPubkey := [] })

/-- A grant of epoch 1 that its author signs to themself. -/
def selfGrant (vaultId : Bytes) : SyncObject :=
  .membershipGrant
    { vaultId, memberPubkey := keyset.verifying .transparent, keyEpoch := 1, role := .admin,
      notAfter := 0, wrappedVk := [],
      signature := signature keyset (grantAad vaultId (keyset.verifying .transparent) 1)
        (grantSignedContent .admin 0 []),
      authorPubkey := keyset.verifying .transparent }

def publishOf (manifest grant : SyncObject) : Request :=
  .publish { auth := caller keyset, manifest := encoded manifest, grants := [encoded grant],
             revokeEpoch := none, newEpoch := none, now := 0 }

def served (db : Db) (request : Request) : Db :=
  ((serve .transparent settings request).runAlone db).1

/-- The owner has an account. -/
def registered : Db := { accounts := (∅ : Table Bytes Bytes).insert owner.signing ownerKey }

/-- The owner's vault, as its first record claims it. -/
def claimed : Db := served registered (pushOf owner [.vault (vault owner [] 1 0)])

/-- The owner grants the first epoch to themself. -/
def granting : Request := publishOf owner (soleManifest owner vaultId) (selfGrant owner vaultId)

def firstEpoch : SqlInt := ⟨1, SqlInt.one_inRange⟩

/-- The row the intruder's grant is written to. -/
def intruderKey : Bytes × Bytes × SqlInt := (vaultId, memberKey, firstEpoch)

end Sample

open UniSsh.Sample (owner member vault vaultId ownerKey memberKey)

open UniSsh.Server.Sample

/-- A request that no other interrupts. -/
theorem Sample.reached_served {admissible : Db → Request → Prop}
    (reached : Pool.Reached (serve .transparent settings) admissible init pool) (request : Request)
    (admitted : admissible pool.state request) :
    ∃ pool', Pool.Reached (serve .transparent settings) admissible init pool' ∧
      pool'.state = served pool.state request :=
  (reached.start request admitted).runAlone _ rfl

theorem Sample.columns_of {α : Type} {columns : ParsedObject → α} {x : α}
    (read : (parseOpen bytes).map columns = .ok x) (parsed : parseOpen bytes = .ok p) :
    columns p = x := by
  rw [parsed] at read
  exact Except.ok.inj read

theorem Sample.claim_admissible : (pushOf owner
    [.vault (vault owner [] 1 0)]).Admissible registered := by
  intro bytes member g parsed isGrant
  cases mem_singleton.mp member
  have isVault : g.tag = some .vault := columns_of (by decide +kernel) parsed
  cases isVault.symm.trans isGrant

theorem Sample.granting_admissible : granting.Admissible claimed := by
  intro m parsed bytes member g parsed'
  cases mem_singleton.mp member
  let columns (p : ParsedObject) := (p.vaultId, p.keyEpoch, p.authorPubkey)
  have manifest : columns m = (some vaultId, some 1, some ownerKey) :=
    columns_of (by decide +kernel) parsed
  have grant : columns g = (some vaultId, some 1, some ownerKey) :=
    columns_of (by decide +kernel) parsed'
  simp only [columns, Prod.mk.injEq] at manifest grant
  obtain ⟨isVault, isEpoch, isAuthor⟩ := manifest
  refine ⟨grant.1.trans isVault.symm, .inr ⟨grant.2.1.trans isEpoch.symm,
    grant.2.2.trans isAuthor.symm, ?_⟩⟩
  rw [isVault, getD_some]
  decide +kernel

/-- The owner grants in their own vault. -/
theorem grants_from_admins_own_vault : ∃ pool : Pool Db AppError (List Nat) Request,
    Pool.Reached (serve .transparent settings) Request.Admissible registered pool ∧
    pool.state.grants[(UniSsh.Sample.vaultId, UniSsh.Sample.ownerKey, firstEpoch)]? ≠ none ∧
    AclIntegrity .transparent pool.state := by
  obtain ⟨claimed, reached, isClaimed⟩ := reached_served .init _ claim_admissible
  have admissible : granting.Admissible claimed.state := by
    rw [isClaimed]
    exact granting_admissible
  obtain ⟨granted, reached', isGranted⟩ := reached_served reached _ admissible
  refine ⟨granted, reached', ?_, ?_⟩
  · rw [isGranted, isClaimed]
    decide +kernel
  · exact (grants_from_admins .transparent settings ⟨rfl, rfl, rfl, rfl⟩ reached').1

theorem Sample.not_integrity
    (stored : db.grants[intruderKey]?.map GrantRow.authorPubkey = some memberKey)
    (owned : db.getVaultOwner intruderKey.1 = some ownerKey)
    (noManifest : db.manifests[(intruderKey.1, firstEpoch)]? = none) :
    ¬ AclIntegrity .transparent db := by
  intro integrity
  obtain ⟨row, found, author⟩ := map_eq_some_iff.mp stored
  rcases (integrity intruderKey row found).admin with owner | ⟨_, _, manifest, -⟩
  · have same : some ownerKey = some memberKey :=
      owned.symm.trans (owner.trans (congrArg some author))
    revert same
    decide
  · exact some_ne_none _ (manifest.symm.trans noManifest)

/-- An account without rights gets a grant of the owner's vault, by a publish or an early push. -/
theorem intruder_grant_stored : ∃ intruded preempted : Pool Db AppError (List Nat) Request,
    Pool.Reached (serve .transparent settings) (fun _ _ => True) registered intruded ∧
    Pool.Reached (serve .transparent settings) (fun _ _ => True) registered preempted ∧
    claimed.grants[intruderKey]? = none ∧
    intruded.state.grants[intruderKey]? ≠ none ∧
    ¬ AclIntegrity .transparent intruded.state ∧ ¬ AclIntegrity .transparent preempted.state := by
  obtain ⟨claimed, reached, isClaimed⟩ := reached_served
    (.init : Pool.Reached _ (fun _ _ => True) registered _)
    (pushOf owner [.vault (vault owner [] 1 0)])
    trivial
  obtain ⟨intruded, intrudes, isIntruded⟩ := reached_served reached
    (publishOf member (soleManifest member [8]) (selfGrant member vaultId)) trivial
  obtain ⟨granted, reached', isGranted⟩ := reached_served
    (.init : Pool.Reached _ (fun _ _ => True) registered _)
    (pushOf member [selfGrant member vaultId]) trivial
  obtain ⟨preempted, preempts, isPreempted⟩ := reached_served reached'
    (pushOf owner [.vault (vault owner [] 1 0)])
    trivial
  rw [isClaimed] at isIntruded
  rw [isGranted] at isPreempted
  refine ⟨intruded, preempted, intrudes, preempts, by decide +kernel, ?_, ?_, ?_⟩
  · rw [isIntruded]
    decide +kernel
  · rw [isIntruded]
    exact not_integrity (by decide +kernel) (by decide +kernel) (by decide +kernel)
  · rw [isPreempted]
    exact not_integrity (by decide +kernel) (by decide +kernel) (by decide +kernel)

end UniSsh.Server
